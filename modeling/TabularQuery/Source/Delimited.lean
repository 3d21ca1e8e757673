import TabularQuery.Source.Reader
import TabularQuery.Source.Schema

/-!
Delimited files: `#csv.file('path', 'separator', hasHeader, skipLines)`. Every column is text. The
first line that is not skipped gives the columns: their names, when it is a header, or else their
number. A field may stand between double quotes, and a quote inside such a field is written twice.
-/

namespace TabularQuery.Delimited

/-- Where a field's text goes on. -/
inductive FieldState where
  | bare | quoted
  deriving DecidableEq, Repr

/-- The fields of a line from here on; `field` holds the characters of the current one. -/
def splitFrom (separator : Char) : FieldState → (field : List Char) → List Char → List (List Char)
  | _, field, [] => [field]
  | .quoted, field, '"' :: '"' :: rest => splitFrom separator .quoted (field ++ ['"']) rest
  | .quoted, field, c :: rest =>
    if c = '"' then splitFrom separator .bare field rest
    else splitFrom separator .quoted (field ++ [c]) rest
  | .bare, field, c :: rest =>
    if c = '"' && field.isEmpty then splitFrom separator .quoted field rest
    else if c = separator then field :: splitFrom separator .bare [] rest
    else splitFrom separator .bare (field ++ [c]) rest

/-- The fields of a line; there is always at least one. -/
def splitLine (separator : Char) (line : String) : List String :=
  (splitFrom separator .bare [] line.toList).map String.ofList

/-- The arguments of the table method. -/
structure Options where
  path : String
  separator : Char
  hasHeader : Bool
  skipLines : Nat
  deriving DecidableEq, Repr

def options (method : String) (arguments : List Value) : Except Error Options := do
  if !Text.sameWord method "file" then throw (.schemaTableUnknown "csv" method)
  let path ← Schema.textArgument method arguments 0
  let separators ← Schema.textArgument method arguments 1
  let some separator := separators.toList.head? | throw .separatorEmpty
  let hasHeader ← Schema.boolArgument method arguments 2
  let skipLines ← Schema.integerArgument method arguments 3
  return ⟨path, separator, hasHeader, skipLines.toInt.toNat⟩

def numbered (i : Nat) : String := s!"Column{i}"

/-- Names of header fields: trimmed, or numbered where nothing is left; no two may be equal. -/
def headerNames (path : String) : (seen : List String) → List String → Except Error (List String)
  | seen, [] => .ok seen
  | seen, field :: fields =>
    let trimmed := Text.trim field
    let name := if trimmed = "" then numbered (seen.length + 1) else trimmed
    if name ∈ seen then .error (.headerRepeated path name)
    else headerNames path (seen ++ [name]) fields

/-- Names of the columns, read off the first line that is not skipped. -/
def columnNames (o : Options) (node : FileNode) : Except Error (List String) :=
  match node with
  | .directory => .error (.fileUnread Files.isADirectory)
  | .file content =>
    match (Files.lines content).drop o.skipLines with
    | [] => .error (.fileWithoutRows o.path)
    | none :: _ => .error (.fileUnread Files.notText)
    | some line :: _ =>
      let fields := splitLine o.separator (Files.dropReturns line)
      if o.hasHeader then headerNames o.path [] fields
      else .ok ((List.range fields.length).map fun i => numbered (i + 1))

/-- The rows of data lines; `number` is that of the first one. A line that is empty is no row, a
short one is filled up, and one that is too wide or no text ends the reading. -/
def production (o : Options) (width : Nat) : (number : Nat) → List (Option String) → Production
  | _, [] => .nil
  | _, none :: _ => .fail (.fileUnread Files.notText)
  | number, some raw :: rest =>
    let line := Files.dropReturns raw
    if line = "" then production o width (number + 1) rest
    else
      let fields := splitLine o.separator line
      if width < fields.length then .fail (.lineTooWide number o.path fields.length width)
      else
        let filled := fields ++ List.replicate (width - fields.length) ""
        .cons (filled.map Value.text) (production o width (number + 1) rest)

def openFile (files : Files) (path : String) : Except Error FileNode :=
  (files.open? path).mapError (.fileUnopened path)

/-- The number of lines before the data. -/
def Options.preamble (o : Options) : Nat := o.skipLines + if o.hasHeader then 1 else 0

def rows (o : Options) (node : FileNode) (width : Nat) : Production :=
  match node with
  | .directory => .fail (.fileUnread Files.isADirectory)
  | .file content =>
    production o width (o.preamble + 1) ((Files.lines content).drop o.preamble)

def schema : Schema where
  name := "csv"
  columns files method arguments := do
    let o ← options method arguments
    let names ← columnNames o (← openFile files o.path)
    return names.map fun name => ⟨name, .text⟩
  rows context method arguments := do
    let o ← options method arguments
    let node ← openFile context.files o.path
    let names ← columnNames o node
    return Reader.source names context.chunkSize (rows o node names.length)
  catalog := .standard

end TabularQuery.Delimited
