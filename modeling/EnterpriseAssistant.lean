import EnterpriseAssistant.Lib.Interleaving
import EnterpriseAssistant.Lib.PyStr
import EnterpriseAssistant.Lib.Regex
import EnterpriseAssistant.Lib.PyValue
import EnterpriseAssistant.Lib.JsonText
import EnterpriseAssistant.Lib.PosixPath
import EnterpriseAssistant.Lib.Redis
import EnterpriseAssistant.Lib.RedisTtl
import EnterpriseAssistant.Lib.Program
import EnterpriseAssistant.Lib.FileTree
import EnterpriseAssistant.Lib.SqlSession
import EnterpriseAssistant.Lib.ReadCommitted
import EnterpriseAssistant.Lib.Upsert
import EnterpriseAssistant.Lib.SharedObjects
import EnterpriseAssistant.Lib.Serial
import EnterpriseAssistant.Core.Errors
import EnterpriseAssistant.Core.RequestContext
import EnterpriseAssistant.Core.Redaction
import EnterpriseAssistant.Core.DeepRedaction
import EnterpriseAssistant.Core.LoggingSetup
import EnterpriseAssistant.Core.LogBounds
import EnterpriseAssistant.Core.JsonFormatter
import EnterpriseAssistant.Core.Config
import EnterpriseAssistant.Audit.StdMeta
import EnterpriseAssistant.Audit.Service
import EnterpriseAssistant.Auth.Models
import EnterpriseAssistant.Kb.Models
import EnterpriseAssistant.Infra.LocalFs
import EnterpriseAssistant.Infra.BlobTree
import EnterpriseAssistant.Kb.StorageKeys
import EnterpriseAssistant.Kb.BlobStore
import EnterpriseAssistant.Api.Request
import EnterpriseAssistant.Api.ExceptionHandlers
import EnterpriseAssistant.Api.RateLimit
import EnterpriseAssistant.Api.RateLimitKeys
import EnterpriseAssistant.Api.RateLimitDenials
import EnterpriseAssistant.Infra.App
import EnterpriseAssistant.Infra.Deps
import EnterpriseAssistant.Infra.TenantPool
import EnterpriseAssistant.Security.Jwt
import EnterpriseAssistant.Authn.Service
import EnterpriseAssistant.Authn.RefreshToken
import EnterpriseAssistant.Authn.Deps
import EnterpriseAssistant.Authn.Routes
import EnterpriseAssistant.Authn.Registration
import EnterpriseAssistant.Authn.RegistrationEnds
import EnterpriseAssistant.Authn.Machine
import EnterpriseAssistant.Authn.Moves
import EnterpriseAssistant.Authn.Versions
import EnterpriseAssistant.Authn.Lineage
import EnterpriseAssistant.Authn.Credential
import EnterpriseAssistant.Authn.Frame
import EnterpriseAssistant.Authn.Sessions
import EnterpriseAssistant.Authz.ScopeKeys
import EnterpriseAssistant.Authz.ParseScope
import EnterpriseAssistant.Authz.Service
import EnterpriseAssistant.Authz.Decision
import EnterpriseAssistant.Authz.Deps
import EnterpriseAssistant.Admin.Routes
import EnterpriseAssistant.Admin.Accounting
import EnterpriseAssistant.Admin.Authority
import EnterpriseAssistant.Admin.GrantsInTurn
import EnterpriseAssistant.Authz.SeedSync
import EnterpriseAssistant.Authz.Seeded
import EnterpriseAssistant.Authz.SeededRoles
import EnterpriseAssistant.Authz.StartUp
import EnterpriseAssistant.Authz.StartUpEnds
import EnterpriseAssistant.Kb.Sniff
import EnterpriseAssistant.Kb.Service
import EnterpriseAssistant.Kb.Pipeline
import EnterpriseAssistant.Kb.Machine
import EnterpriseAssistant.Kb.Deletion
import EnterpriseAssistant.Kb.Freshness
import EnterpriseAssistant.Kb.Classification
import EnterpriseAssistant.Kb.Processing
import EnterpriseAssistant.Kb.Metadata
import EnterpriseAssistant.Kb.Jobs
import EnterpriseAssistant.Workers.Tasks
import EnterpriseAssistant.Infra.Transactions
import EnterpriseAssistant.Audit.Middleware
import EnterpriseAssistant.Api.Lifecycle
import EnterpriseAssistant.Api.AuditColumns
import EnterpriseAssistant.Api.Answers
import EnterpriseAssistant.Api.SecurityHeaders
import EnterpriseAssistant.Api.OpenApi
