import TabularQuery.Plan.Typed
import TabularQuery.Program.Instruction

/-!
Code of expressions. Run from its first address, the code of an expression leaves the value on the
stack of its kind and goes on at the address after its last. AND and OR jump over their right
operand when the left one decides.
-/

namespace TabularQuery

/-- The opcode of an operation. AND and OR have the test by which the left operand decides. -/
def BinaryOp.opcode (ty : ColumnType) : BinaryOp → Opcode
  | .add => if ty = .text then .concat else .add
  | .sub => .subtract
  | .mul => .multiply
  | .div => .divide
  | .mod => .remainder
  | .eq => .eq
  | .ne => .ne
  | .lt => .lt
  | .le => .le
  | .gt => .gt
  | .ge => .ge
  | .like => .like
  | .and => .ifNot
  | .or => .ifTrue

/-- The value of the left operand that decides an AND or OR. -/
def BinaryOp.decidedBy? : BinaryOp → Option Bool
  | .and => some false
  | .or => some true
  | _ => none

def UnaryOp.opcode : UnaryOp → Opcode
  | .neg => .negate
  | .not => .not

namespace Instruction

/-- Pushes a truth value. -/
def pushBool (b : Bool) : Instruction := { opcode := .pushBool, p1 := if b then 1 else 0 }

/-- Pushes a value. -/
def push : Value → Instruction
  | .integer n => { opcode := .pushInt, operand := .integer n }
  | .real x => { opcode := .pushReal, operand := .real x }
  | .text s => { opcode := .pushText, operand := .text s }
  | .boolean b => pushBool b

/-- A jump without other operands. -/
def jump (opcode : Opcode) (target : Nat) : Instruction := { opcode, p2 := target }

/-- The operation on two operands, the left one of the given type. -/
def operation (op : BinaryOp) (left result : ColumnType) : Instruction :=
  { opcode := op.opcode result, p1 := if op.isComparison then left.kind.toOperand else 0 }

end Instruction

namespace TypedExpr

mutual

/-- The number of instructions of an expression. -/
def codeSize : TypedExpr → Nat
  | .literal _ | .column .. | .aggregate .. => 1
  | .call _ args => codesSize args + 1
  | .binary op left right _ =>
    left.codeSize + right.codeSize + if op.decidedBy?.isSome then 3 else 1
  | .unary _ operand _ => operand.codeSize + 1

def codesSize : List TypedExpr → Nat
  | [] => 0
  | e :: es => e.codeSize + codesSize es

end

mutual

/-- The code of an expression from an address on; aggregates are read from the given grouping. -/
def code (group : Nat) : TypedExpr → (start : Nat) → List Instruction
  | .literal v, _ => [.push v]
  | .column cursor ordinal name ty, _ =>
    [{ opcode := .column, p1 := cursor, p2 := ordinal, operand := .type ty, comment := some name }]
  | .call f args, start =>
    codes group args start ++
      [{ opcode := .function, p1 := args.length, operand := .function f }]
  | .aggregate slot ty, _ =>
    [{ opcode := .aggregateValue, p1 := group, p2 := slot, operand := .type ty }]
  | .binary op left right ty, start =>
    let middle := start + left.codeSize
    match op.decidedBy? with
    | none =>
      left.code group start ++ right.code group middle ++ [.operation op left.type ty]
    | some value =>
      let decided := middle + 1 + right.codeSize + 1
      left.code group start ++ [.jump (op.opcode ty) decided] ++
        right.code group (middle + 1) ++ [.jump .goto (decided + 1)] ++ [.pushBool value]
  | .unary op operand _, start => operand.code group start ++ [{ opcode := op.opcode }]

/-- The codes of expressions one after the other. -/
def codes (group : Nat) : List TypedExpr → (start : Nat) → List Instruction
  | [], _ => []
  | e :: es, start => e.code group start ++ codes group es (start + e.codeSize)

end

mutual

@[simp] theorem length_code (group : Nat) :
    ∀ (e : TypedExpr) (start : Nat), (e.code group start).length = e.codeSize
  | .literal _, _ | .column .., _ | .aggregate .., _ => by simp [code, codeSize]
  | .call _ args, start => by simp [code, codeSize, length_codes group args]
  | .binary op left right _, start => by
    have hl := length_code group left
    have hr := length_code group right
    cases h : op.decidedBy? <;> simp [code, codeSize, h, hl, hr] <;> omega
  | .unary _ operand _, start => by simp [code, codeSize, length_code group operand]

@[simp] theorem length_codes (group : Nat) :
    ∀ (es : List TypedExpr) (start : Nat), (codes group es start).length = codesSize es
  | [], _ => rfl
  | e :: es, start => by simp [codes, codesSize, length_code group e, length_codes group es]

end

end TypedExpr

end TabularQuery
