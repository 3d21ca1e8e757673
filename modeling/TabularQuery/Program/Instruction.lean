import TabularQuery.Method.Catalog
import TabularQuery.Text.Quoted

/-!
Instructions. They work on three operand stacks, on registers, cursors, groups and tables. Each has
three numeric operands and one of another kind; a jump has its target, an address in the same
procedure, in the second.
-/

namespace TabularQuery

inductive Opcode where
  /-- Ends the procedure. -/
  | halt
  /-- Jumps to P2. -/
  | goto
  /-- Pops a truth value; jumps to P2 if it is true. -/
  | ifTrue
  /-- Pops a truth value; jumps to P2 if it is false. -/
  | ifNot
  /-- If register P1 is positive, takes P3 off it and jumps to P2. -/
  | ifPos
  /-- Jumps to P2 unless register P1 is positive. -/
  | ifNotPos
  /-- Adds P3 to register P1. -/
  | addImm
  /-- Puts the operand into register P1. -/
  | setInteger
  | pushInt
  | pushReal
  | pushText
  /-- Pushes whether P1 is not zero. -/
  | pushBool
  | add
  | subtract
  | multiply
  | divide
  | remainder
  | negate
  | concat
  /-- Pops two values of kind P1 and pushes whether they are equal; the others likewise. -/
  | eq
  | ne
  | lt
  | le
  | gt
  | ge
  /-- Pops a pattern and a text and pushes whether the text matches. -/
  | like
  | not
  /-- Pops the arguments of the function and pushes its result. -/
  | function
  /-- Opens cursor P1 over row source P2. -/
  | openSource
  /-- Opens cursor P1 over table P2. -/
  | openTable
  /-- Moves cursor P1 to its next row; jumps to P2 if there is none. -/
  | next
  /-- Pushes column P2 of the row of cursor P1. -/
  | column
  /-- Forgets the groups of grouping P1. -/
  | resetGroups
  /-- Pops the values of a key and makes their group the current one of P1. -/
  | groupKey
  /-- Pops arguments into accumulator P2 of the current group of P1. -/
  | accumulate
  /-- Pushes the result of accumulator P2 of the current group of P1. -/
  | aggregateValue
  /-- Makes the first group of P1 current; jumps to P2 if there is none. -/
  | rewindGroups
  /-- Makes the next group of P1 current and jumps to P2 if there is one. -/
  | nextGroup
  /-- Creates table P1, or empties it. -/
  | createTable
  /-- Indexes table P1 on the given columns. -/
  | addIndex
  /-- Pops the values of a row of table P1. -/
  | makeRecord
  /-- Jumps to P2 if the key of the row of cursor P1 is in table P3. -/
  | found
  /-- Jumps to P2 if the key of the row of cursor P1 is not in table P3. -/
  | notFound
  /-- Adds the row of cursor P1 to table P3. -/
  | copyRow
  deriving DecidableEq, Repr

namespace Opcode

def name : Opcode → String
  | .halt => "Halt" | .goto => "Goto" | .ifTrue => "If" | .ifNot => "IfNot" | .ifPos => "IfPos"
  | .ifNotPos => "IfNotPos" | .addImm => "AddImm" | .setInteger => "Integer"
  | .pushInt => "PushInt" | .pushReal => "PushReal" | .pushText => "PushText"
  | .pushBool => "PushBool" | .add => "Add" | .subtract => "Subtract" | .multiply => "Multiply"
  | .divide => "Divide" | .remainder => "Remainder" | .negate => "Negate" | .concat => "Concat"
  | .eq => "Eq" | .ne => "Ne" | .lt => "Lt" | .le => "Le" | .gt => "Gt" | .ge => "Ge"
  | .like => "Like" | .not => "Not" | .function => "Function" | .openSource => "OpenSource"
  | .openTable => "OpenTable" | .next => "Next" | .column => "Column"
  | .resetGroups => "ResetGroups" | .groupKey => "GroupKey" | .accumulate => "Accumulate"
  | .aggregateValue => "AggregateValue" | .rewindGroups => "RewindGroups"
  | .nextGroup => "NextGroup" | .createTable => "CreateTable" | .addIndex => "AddIndex"
  | .makeRecord => "MakeRecord" | .found => "Found" | .notFound => "NotFound"
  | .copyRow => "CopyRow"

/-- Every opcode. -/
def all : List Opcode :=
  [.halt, .goto, .ifTrue, .ifNot, .ifPos, .ifNotPos, .addImm, .setInteger, .pushInt, .pushReal,
   .pushText, .pushBool, .add, .subtract, .multiply, .divide, .remainder, .negate, .concat, .eq,
   .ne, .lt, .le, .gt, .ge, .like, .not, .function, .openSource, .openTable, .next, .column,
   .resetGroups, .groupKey, .accumulate, .aggregateValue, .rewindGroups, .nextGroup, .createTable,
   .addIndex, .makeRecord, .found, .notFound, .copyRow]

theorem mem_all (op : Opcode) : op ∈ all := by cases op <;> decide

def ofName? (name : String) : Option Opcode := all.find? fun op => op.name = name

/-- Is P2 a jump target? -/
def isJump : Opcode → Bool
  | .goto | .ifTrue | .ifNot | .ifPos | .ifNotPos | .next | .rewindGroups | .nextGroup | .found
  | .notFound => true
  | _ => false

/-- Does P1 name a cursor? -/
def usesCursor : Opcode → Bool
  | .openSource | .openTable | .next | .column | .found | .notFound | .copyRow => true
  | _ => false

end Opcode

/-- The fourth operand. -/
inductive Operand where
  | unused
  | integer (n : Int64)
  | real (x : Binary64)
  | text (s : String)
  /-- The type of a value that is pushed. -/
  | type (ty : ColumnType)
  /-- The types of values that are popped together, in the order in which they were pushed. -/
  | types (tys : List ColumnType)
  /-- The columns of a key. -/
  | ordinals (columns : List Nat)
  | function (f : BoundFunction)

namespace Operand

/-- The operand in a listing. -/
def shown : Operand → String
  | .unused => ""
  | .integer n => toString n.toInt
  | .real x => Decimal.compact x
  | .text s => Text.quoted s
  | .type ty => ty.name
  | .types tys => "(" ++ ",".intercalate (tys.map ColumnType.name) ++ ")"
  | .ordinals columns => "[" ++ ",".intercalate (columns.map toString) ++ "]"
  | .function f => "func(" ++ f.name ++ ")"

/-- The operand in a message, with its kind. -/
def described : Operand → String
  | .unused => "Unused"
  | .integer n => "Int64(" ++ toString n.toInt ++ ")"
  | .real x => "Real(" ++ Decimal.compact x ++ ")"
  | .text s => "Text(" ++ Text.escaped s ++ ")"
  | .type ty => "Type(" ++ ty.name ++ ")"
  | .types tys => "Types([" ++ ", ".intercalate (tys.map ColumnType.name) ++ "])"
  | .ordinals columns => "IntArray(" ++ Error.ordinals columns ++ ")"
  | .function f => "Function(" ++ f.name ++ ")"

end Operand

structure Instruction where
  opcode : Opcode
  p1 : Int := 0
  p2 : Int := 0
  p3 : Int := 0
  operand : Operand := .unused
  /-- A remark for listings. -/
  comment : Option String := none

end TabularQuery
