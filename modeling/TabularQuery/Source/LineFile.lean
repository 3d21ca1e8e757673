import TabularQuery.Source.Reader
import TabularQuery.Source.Schema

/-!
Plain text files, a row for each line: `#flat.file('path')` has the columns `LineNumber`, counted
from one, and `Line`.
-/

namespace TabularQuery.LineFile

def path (method : String) (arguments : List Value) : Except Error String :=
  if Text.sameWord method "file" then Schema.textArgument method arguments 0
  else .error (.schemaTableUnknown "flat" method)

def columns : List Column := [⟨"LineNumber", .integer⟩, ⟨"Line", .text⟩]

/-- The rows of lines; `number` is that of the first one. -/
def production : (number : Nat) → List (Option String) → Production
  | _, [] => .nil
  | _, none :: _ => .fail (.fileUnread Files.notText)
  | number, some line :: rest =>
    .cons [.integer (Int64.ofNat number), .text (Files.dropReturns line)] (production (number + 1) rest)

def rows : FileNode → Production
  | .directory => .fail (.fileUnread Files.isADirectory)
  | .file content => production 1 (Files.lines content)

def schema : Schema where
  name := "flat"
  columns _ method arguments := do
    let _ ← path method arguments
    return columns
  rows context method arguments := do
    let p ← path method arguments
    let node ← (context.files.open? p).mapError (Error.fileUnopened p)
    return Reader.source (columns.map Column.name) context.chunkSize (rows node)
  catalog := .standard

end TabularQuery.LineFile
