import TabularQuery.Plan.Bound
import TabularQuery.Program.Instruction

/-!
Code of set operations and of descriptions. A set operation copies rows from the tables of its
operands: UNION ALL all of them, UNION those whose key it has not written yet, EXCEPT the left rows
whose key the right table does not have, INTERSECT those whose key it has.
-/

namespace TabularQuery

/-- The numbers of what a set operation's code uses. -/
structure SetSites where
  left : Nat
  right : Nat
  output : Nat
  leftCursor : Nat
  rightCursor : Nat

namespace SetCode

/-- A test by which a row is passed over: its key is, or is not, in a table. -/
structure Probe where
  opcode : Opcode
  table : Nat
  keys : List Nat

/-- Goes to `head` if the row is passed over. -/
def probeTest (cursor head : Nat) : Option Probe → List Instruction
  | none => []
  | some p =>
    [{ opcode := p.opcode, p1 := cursor, p2 := head, p3 := p.table, operand := .ordinals p.keys }]

/-- Copies the rows of a table; goes to `done` at its end. -/
def copyLoop (cursor source output : Nat) (probe : Option Probe) (done start : Nat) :
    List Instruction :=
  let head := start + 1
  [{ opcode := .openTable, p1 := cursor, p2 := source },
   { opcode := .next, p1 := cursor, p2 := done }] ++ probeTest cursor head probe ++
    [{ opcode := .copyRow, p1 := cursor, p3 := output }, { opcode := .goto, p2 := head }]

def copyLoopSize (probe : Option Probe) : Nat := if probe.isSome then 5 else 4

@[simp] theorem length_copyLoop (cursor source output : Nat) (probe : Option Probe)
    (done start : Nat) :
    (copyLoop cursor source output probe done start).length = copyLoopSize probe := by
  cases probe <;> rfl

/-- The test of an operation. -/
def probe? (op : SetOperator) (keys : List Nat) (sites : SetSites) : Option Probe :=
  match op with
  | .unionAll => none
  | .union => some ⟨.found, sites.output, keys⟩
  | .except => some ⟨.found, sites.right, keys⟩
  | .intersect => some ⟨.notFound, sites.right, keys⟩

/-- The index that a test needs. -/
def indexCode (keyId : Nat) (keys : List Nat) : Option Probe → List Instruction
  | none => []
  | some p => [{ opcode := .addIndex, p1 := p.table, operand := .ordinals keys,
                 comment := some s!"set key {keyId}" }]

end SetCode

/-- Are the rows of the right operand copied, too? -/
def SetOperator.copiesRight : SetOperator → Bool
  | .union | .unionAll => true
  | .except | .intersect => false

open SetCode

/-- The code of a set operation. -/
def SetOperator.code (op : SetOperator) (name : String) (keyId : Nat) (keys : List Nat)
    (sites : SetSites) : List Instruction :=
  let probe := probe? op keys sites
  let before := [{ opcode := .createTable, p1 := sites.output, comment := some name }] ++
    indexCode keyId keys probe
  let leftDone := before.length + copyLoopSize probe
  let done := leftDone + if op.copiesRight then copyLoopSize probe else 0
  let right := if op.copiesRight
    then copyLoop sites.rightCursor sites.right sites.output probe done leftDone else []
  before ++ copyLoop sites.leftCursor sites.left sites.output probe leftDone before.length ++
    right ++ [{ opcode := .halt }]

/-- The code of a description: a row for each column, with its name and type. -/
def describeCode (source : String) (columns : List Column) (table : Nat) : List Instruction :=
  [{ opcode := .createTable, p1 := table, comment := some source }] ++
    columns.flatMap (fun c =>
      [{ opcode := .pushText, operand := .text c.name },
       { opcode := .pushText, operand := .text c.type.name },
       { opcode := .makeRecord, p1 := table, p3 := 2, operand := .types [.text, .text] }]) ++
    [{ opcode := .halt }]

end TabularQuery
