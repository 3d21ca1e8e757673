import TabularQuery.Error
import TabularQuery.Text.Blank

/-!
Files as data: the named contents of one directory, in which relative paths are looked up. A
content is read by lines, each of which is text or not valid as such.
-/

namespace TabularQuery

structure Files where
  entries : List (String × List UInt8)

/-- What a path leads to. -/
inductive FileNode where
  | file (content : List UInt8)
  | directory

namespace Files

def empty : Files := ⟨[]⟩

def remove (files : Files) (name : String) : Files :=
  ⟨files.entries.filter fun (n, _) => n ≠ name⟩

/-- Adds a file, in the place of one with the same name. -/
def put (files : Files) (name : String) (content : List UInt8) : Files :=
  ⟨(files.remove name).entries ++ [(name, content)]⟩

def notFound : String := "No such file or directory (os error 2)"
def notADirectory : String := "Not a directory (os error 20)"
def isADirectory : String := "Is a directory (os error 21)"
def nameTooLong : String := "File name too long (os error 36)"
def nameWithNul : String := "file name contained an unexpected NUL byte"
def notText : String := "stream did not contain valid UTF-8"

/-- Follows the parts of a path. Only the directory itself has known entries; those above it, which
`..` leads to, show none. -/
def walk (files : Files) : (here : Bool) → List String → Except String FileNode
  | _, [] => .ok .directory
  | here, part :: rest =>
    if part = "" || part = "." then walk files here rest
    else if part = ".." then walk files false rest
    else if 255 < part.utf8ByteSize then .error nameTooLong
    else match (if here then files.entries.lookup part else none) with
      | none => .error notFound
      | some content => if rest.isEmpty then .ok (.file content) else .error notADirectory

/-- The parts of a path, between its slashes. -/
def parts (path : String) : List String := (path.toList.splitOn '/').map String.ofList

/-- Opens a path, or tells why it cannot be opened. A path has at most 4095 bytes, each part of it at
most 255. -/
def open? (files : Files) (path : String) : Except String FileNode :=
  if path.toList.contains '\x00' then .error nameWithNul
  else if path = "" then .error notFound
  else if 4095 < path.utf8ByteSize then .error nameTooLong
  else files.walk (path.toList.head? != some '/') (parts path)

/-- The lines of a content, without their line feeds; a last line need not have one. -/
def splitLines : List UInt8 → List (List UInt8)
  | [] => []
  | b :: rest =>
    if b = 10 then [] :: splitLines rest
    else match splitLines rest with
      | [] => [[b]]
      | line :: lines => (b :: line) :: lines

/-- The lines of a content as texts; `none` stands for a line that is not UTF-8. -/
def lines (content : List UInt8) : List (Option String) :=
  (splitLines content).map fun line => String.fromUTF8? line.toByteArray

/-- A line without carriage returns at its end. -/
def dropReturns (line : String) : String :=
  String.ofList (Text.dropRightWhile (· = '\r') line.toList)

end Files

end TabularQuery
