/-!
Types of columns and of expressions. There are no nulls: a value always has exactly one of
the four types, and at run time lives on one of three operand stacks, its kind.
-/

namespace TabularQuery

/-- Declared type of a column, an expression or a method parameter. -/
inductive ColumnType where
  | integer | real | text | boolean
  deriving DecidableEq, Repr, Inhabited

/-- The operand stack on which a value lives; integers and reals share one. -/
inductive ValueKind where
  | numeric | text | boolean
  deriving DecidableEq, Repr

namespace ValueKind

def name : ValueKind → String
  | .numeric => "Numeric"
  | .text => "Text"
  | .boolean => "Boolean"

/-- The number that stands for a kind in an instruction. -/
def toOperand : ValueKind → Int
  | .numeric => 0
  | .text => 1
  | .boolean => 2

def ofOperand? : Int → Option ValueKind
  | 0 => some .numeric
  | 1 => some .text
  | 2 => some .boolean
  | _ => none

@[simp] theorem ofOperand?_toOperand (k : ValueKind) : ofOperand? k.toOperand = some k := by
  cases k <;> rfl

end ValueKind

namespace ColumnType

/-- Type name as messages and listings show it. -/
def name : ColumnType → String
  | .integer => "Integer"
  | .real => "Real"
  | .text => "Text"
  | .boolean => "Boolean"

/-- Every type. -/
def all : List ColumnType := [.integer, .real, .text, .boolean]

def ofName? (name : String) : Option ColumnType := all.find? fun ty => ty.name = name

def kind : ColumnType → ValueKind
  | .integer | .real => .numeric
  | .text => .text
  | .boolean => .boolean

def isNumeric (ty : ColumnType) : Bool := ty.kind = .numeric

/-- Can a value of type `given` stand where `wanted` is asked for? A type fits itself, and an
integer widens to a real. -/
def accepts (wanted given : ColumnType) : Bool :=
  wanted = given || (wanted = .real && given = .integer)

@[simp] theorem accepts_self (ty : ColumnType) : ty.accepts ty = true := by cases ty <;> rfl

/-- Type names with commas between them, as in a method's signature. -/
def nameList (types : List ColumnType) : String :=
  ", ".intercalate (types.map name)

end ColumnType

end TabularQuery
