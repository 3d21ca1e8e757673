import TabularQuery.Value

/-!
Operand stacks and registers. Integers and reals share the numeric stack; texts and Booleans have
their own. An action that fails keeps what it did before: values already popped are gone.
-/

namespace TabularQuery

structure Frame where
  numbers : List Number
  texts : List String
  booleans : List Bool
  registers : List Int64
  deriving DecidableEq, Repr

/-- An action on the stacks and registers that may fail. -/
abbrev FrameAction := EStateM Error Frame

/-- The place that an operand names in a list; a negative operand names none. -/
def place? (operand : Int) : Option Nat := if operand < 0 then none else some operand.toNat

@[simp] theorem place?_natCast (n : Nat) : place? (n : Int) = some n := by
  simp [place?, Int.not_lt.mpr (Int.natCast_nonneg n)]

namespace Frame

/-- Empty stacks, and registers that hold zero. -/
def init (registers : Nat) : Frame := ⟨[], [], [], List.replicate registers 0⟩

/-- Are all three stacks empty? -/
def isClear (f : Frame) : Bool := f.numbers.isEmpty && f.texts.isEmpty && f.booleans.isEmpty

/-- Puts a value on the stack of its kind. -/
def push (f : Frame) : Value → Frame
  | .integer n => { f with numbers := .integer n :: f.numbers }
  | .real x => { f with numbers := .real x :: f.numbers }
  | .text s => { f with texts := s :: f.texts }
  | .boolean b => { f with booleans := b :: f.booleans }

/-- Puts values on the stacks, the first one first. -/
def pushAll (f : Frame) (values : List Value) : Frame := values.foldl push f

def popNumber : FrameAction Number := fun f =>
  match f.numbers with
  | n :: rest => .ok n { f with numbers := rest }
  | [] => .error (.stackEmpty .numeric) f

def popText : FrameAction String := fun f =>
  match f.texts with
  | s :: rest => .ok s { f with texts := rest }
  | [] => .error (.stackEmpty .text) f

def popBool : FrameAction Bool := fun f =>
  match f.booleans with
  | b :: rest => .ok b { f with booleans := rest }
  | [] => .error (.stackEmpty .boolean) f

/-- Takes a value of a type off the stack of its kind; an integer widens to a real. -/
def popValue (ty : ColumnType) : FrameAction Value :=
  match ty.kind with
  | .numeric => do
    let n ← popNumber
    match n.toType ty with
    | .ok v => pure v
    | .error e => throw e
  | .text => .text <$> popText
  | .boolean => .boolean <$> popBool

/-- Takes values off the stacks, the last one first; `types` is in the order of pushing. -/
def popValues (types : List ColumnType) : FrameAction (List Value) := do
  let values ← types.reverse.mapM popValue
  return values.reverse

def register (operand : Int) : FrameAction Int64 := fun f =>
  match (place? operand).bind fun i => f.registers[i]? with
  | some n => .ok n f
  | none => .error (.registerUnknown operand) f

def setRegister (operand : Int) (n : Int64) : FrameAction Unit := fun f =>
  match (place? operand).filter fun i => i < f.registers.length with
  | some i => .ok () { f with registers := f.registers.set i n }
  | none => .error (.registerUnknown operand) f

@[simp] theorem popNumber_push_integer (f : Frame) (n : Int64) :
    popNumber (f.push (.integer n)) = .ok (.integer n) f := rfl

@[simp] theorem popNumber_push_real (f : Frame) (x : Binary64) :
    popNumber (f.push (.real x)) = .ok (.real x) f := rfl

@[simp] theorem popText_push (f : Frame) (s : String) :
    popText (f.push (.text s)) = .ok s f := rfl

@[simp] theorem popBool_push (f : Frame) (b : Bool) :
    popBool (f.push (.boolean b)) = .ok b f := rfl

end Frame

end TabularQuery
