import EnterpriseAssistant.Core.Errors

/-!
# Guessing the type of a file

`sniff` of `app/modules/kb/ingestion/steps/sniff.py`.  `guessType` is `mimetypes.guess_type`.
-/

namespace EnterpriseAssistant.Kb

open Py Core

structure SniffResult where
  mimeType : Option Str
  sourceType : Option Str
  «meta» : Option Meta
deriving DecidableEq, Repr

/-- The MIME types of documents. -/
def documentMimes : List Str :=
  ["application/vnd.openxmlformats-officedocument.wordprocessingml.document".toList,
    "application/msword".toList, "text/plain".toList, "text/markdown".toList, "text/html".toList]

/-- `_source_type_from_mime`. -/
def sourceTypeFromMime (m : Option Str) : Option Str :=
  match m with
  | none => none
  | some m =>
    if m = [] then none
    else if "audio/".toList.isPrefixOf (lower m) then some "audio".toList
    else if "video/".toList.isPrefixOf (lower m) then some "video".toList
    else if "image/".toList.isPrefixOf (lower m) then some "image".toList
    else if lower m = "application/pdf".toList then some "document".toList
    else if documentMimes.contains (lower m) then some "document".toList
    else none

/-- `(s or "").strip() or None`. -/
def stripped (s : Option Str) : Option Str := orNone (s.map strip)

/-- The entry of a value that is there and not empty. -/
def metaEntry (key : String) (v : Option Str) : Meta :=
  ((orNone v).map fun s => (key, MetaVal.str s)).toList

def sniff (guessType : Str → Option Str) (filename : Str) (mimeTypeHint : Option Str) :
    SniffResult :=
  let mt := (stripped mimeTypeHint).or (guessType (strip filename))
  let st := sourceTypeFromMime mt
  { mimeType := mt, sourceType := st
    «meta» := some (("filename", .str (strip filename)) ::
      (metaEntry "mime_type" mt ++ metaEntry "source_type" st)) }

example : (sniff (fun _ => none) "notes.md".toList (some " text/MarKdown ".toList)).sourceType
    = some "document".toList := by decide

end EnterpriseAssistant.Kb
