import TabularQuery.Program.Basic

/-!
Listings of programs: tables and sources first, then every procedure with its instructions in
columns.
-/

namespace TabularQuery

namespace Text

/-- Blanks before a text, up to a width. -/
def padLeft (width : Nat) (s : String) : String :=
  String.ofList (List.replicate (width - s.length) ' ') ++ s

/-- Blanks after a text, up to a width. -/
def padRight (width : Nat) (s : String) : String :=
  s ++ String.ofList (List.replicate (width - s.length) ' ')

end Text

open Text (padLeft padRight)

namespace Instruction

/-- The instruction on a line of its own. -/
def text (op : Instruction) : String :=
  let numbers := [op.p1, op.p2, op.p3].map fun n => " " ++ padLeft 4 (toString n)
  let operand := match op.operand with
    | .unused => ""
    | operand => "  " ++ operand.shown
  let comment := match op.comment with
    | some c => "  ; " ++ c
    | none => ""
  padRight 14 op.opcode.name ++ String.join numbers ++ operand ++ comment

end Instruction

/-- An instruction with its place in a program. -/
structure ListingRow where
  procedure : String
  address : Nat
  instruction : Instruction

namespace Listing

/-- A line of the table of instructions. -/
def line (address opcode p1 p2 p3 operand comment : String) : String :=
  "  ".intercalate [padLeft 4 address, padRight 15 opcode, padLeft 4 p1, padLeft 4 p2, padLeft 4 p3,
    padRight 12 operand, comment]

def header : List String :=
  [line "addr" "opcode" "p1" "p2" "p3" "p4" "comment",
   "----  ---------------  ----  ----  ----  ------------  -------"]

def instructionLine (address : Nat) (op : Instruction) : String :=
  line (toString address) op.opcode.name (toString op.p1) (toString op.p2) (toString op.p3)
    op.operand.shown (op.comment.getD "")

def tableLine (result position : Nat) (t : TableDeclaration) : String :=
  let columns := t.columns.map fun c => c.name ++ " " ++ c.type.name
  s!"table {position} {t.name}(" ++ ", ".intercalate columns ++ ")" ++
    (if position = result then " (result)" else "")

def procedureLines (p : Procedure) : List String :=
  "" :: ("procedure " ++ p.name) :: header ++
    p.code.toList.zipIdx.map fun (op, address) => instructionLine address op

end Listing

namespace Program

/-- Every instruction in the order of the program. -/
def listing (p : Program) : List ListingRow :=
  p.procedures.flatMap fun q =>
    q.code.toList.zipIdx.map fun (op, address) => ⟨q.name, address, op⟩

/-- The lines of the program's listing. -/
def listingLines (p : Program) : List String :=
  p.tables.zipIdx.map (fun (t, i) => Listing.tableLine p.result i t) ++
    p.sources.zipIdx.map (fun (s, i) => s!"source {i} {s.text}") ++
    p.procedures.flatMap Listing.procedureLines

/-- The program as a text for a reader; every line of it ends. -/
def explain (p : Program) : String := String.join (p.listingLines.map (· ++ "\n"))

end Program

end TabularQuery
