import TabularQuery.Program.Basic

/-!
Procedures written with labels. A label is a negative number in the place of a jump target; it can
be bound to an address at any time, and bound again. When the procedure is finished every label in a
jump becomes the address to which it was bound last.
-/

namespace TabularQuery

structure Assembler where
  name : String
  code : List Instruction
  /-- The next label. -/
  fresh : Int
  /-- Labels with their addresses, the latest first; a label that was only made has none. -/
  labels : List (Int × Option Int)

namespace Assembler

def start (name : String) : Assembler := ⟨name, [], -1, []⟩

/-- The address of the next instruction. -/
def address (a : Assembler) : Nat := a.code.length

/-- Makes a label. -/
def newLabel (a : Assembler) : Int × Assembler :=
  (a.fresh, { a with fresh := a.fresh - 1, labels := (a.fresh, none) :: a.labels })

/-- Binds a label to an address, which is kept as a signed word of 32 bits. -/
def bindLabel (a : Assembler) (label : Int) (address : Nat) : Assembler :=
  { a with labels := (label, some (Int.bmod address UInt32.size)) :: a.labels }

/-- Binds a label to the next instruction. -/
def place (a : Assembler) (label : Int) : Assembler := a.bindLabel label a.address

/-- Adds an instruction, at the address that `address` gave before. -/
def emit (a : Assembler) (op : Instruction) : Assembler := { a with code := a.code ++ [op] }

/-- Gives the last instruction a comment, if there is one. -/
def comment (a : Assembler) (text : String) : Assembler :=
  match a.code.getLast? with
  | none => a
  | some op => { a with code := a.code.dropLast ++ [{ op with comment := some text }] }

/-- The address to which a label was bound last. -/
def target? (a : Assembler) (label : Int) : Option Int := (a.labels.lookup label).join

/-- The instruction with the address in the place of its label, if it has one. -/
def resolve (a : Assembler) (place : Nat) (op : Instruction) : Except Error Instruction :=
  if op.opcode.isJump && op.p2 < 0 then
    match a.target? op.p2 with
    | some address => .ok { op with p2 := address }
    | none => .error (.labelUnbound op.p2 a.name place op.opcode.name)
  else .ok op

def resolveAll (a : Assembler) : Nat → List Instruction → Except Error (List Instruction)
  | _, [] => .ok []
  | place, op :: rest => do return (← a.resolve place op) :: (← a.resolveAll (place + 1) rest)

def finish (a : Assembler) : Except Error Procedure := do
  return ⟨a.name, (← a.resolveAll 0 a.code).toArray⟩

end Assembler

end TabularQuery
