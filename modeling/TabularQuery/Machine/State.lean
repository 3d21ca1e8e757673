import TabularQuery.Machine.Frame
import TabularQuery.Program.Basic
import TabularQuery.Table.Basic

/-!
The state of a running program: operand stacks and registers, cursors with their current rows, groups
and tables, the address of the next instruction, and the stop flag. An operand that names nothing is
refused; a failed action keeps what it did before.
-/

namespace TabularQuery

inductive Cursor where
  | closed
  /-- A single pass over a row source. -/
  | source (rows : RowSource) (columns : List Column)
  /-- A scan of a table, from the row at `following` on. -/
  | table (table following : Nat)

/-- Rows with the same key. -/
structure Group where
  key : Key
  /-- The rows of the grouping's cursors when the group was first met. -/
  rows : List (Option (List Value))
  accumulators : List Accumulator

/-- Groups in the order in which they were first met. -/
structure Groups where
  groups : List Group
  current : Option Nat

structure Machine where
  frame : Frame
  cursors : List Cursor
  /-- The current row of each cursor. -/
  rows : List (Option (List Value))
  tables : List (Option Table)
  groups : List Groups
  /-- Address of the next instruction; there is none before the first. -/
  address : Option Nat
  /-- Instructions begun so far. -/
  count : Nat
  cancelled : Bool

/-- An action of the machine that may fail. -/
abbrev MachineAction := EStateM Error Machine

/-- What a run refers to besides the machine's state. -/
structure RunContext where
  program : Program
  sources : SourceContext
  /-- The most instructions that may begin; zero is no limit. -/
  limit : Nat

namespace Machine

/-- The machine before a run. -/
def init (p : Program) (cancelled : Bool) : Machine where
  frame := .init p.registerCount
  cursors := List.replicate p.cursorCount .closed
  rows := List.replicate p.cursorCount none
  tables := List.replicate p.tables.length none
  groups := List.replicate p.groupings.length ⟨[], none⟩
  address := some 0
  count := 0
  cancelled := cancelled

/-- The item that an operand names in a list. -/
def item? (xs : List α) (operand : Int) : Option α := (place? operand).bind fun i => xs[i]?

/-- The list with another item in the place that an operand names. -/
def setItem (xs : List α) (operand : Int) (x : α) : List α :=
  match place? operand with
  | some i => xs.set i x
  | none => xs

/-- An action on the stacks and registers. -/
def onFrame (action : FrameAction α) : MachineAction α := fun m =>
  match action m.frame with
  | .ok a frame => .ok a { m with frame }
  | .error e frame => .error e { m with frame }

def push (v : Value) : MachineAction Unit := modify fun m => { m with frame := m.frame.push v }

/-- Fails if the stop flag is up. -/
def checkCancelled : MachineAction Unit := do if (← get).cancelled then throw .cancelled

/-! ### Cursors -/

def cursor (operand : Int) : MachineAction Cursor := do
  match item? (← get).cursors operand with
  | some c => return c
  | none => throw (.cursorUnknown operand)

def setCursor (operand : Int) (c : Cursor) : MachineAction Unit :=
  modify fun m => { m with cursors := setItem m.cursors operand c }

def setRow (operand : Int) (row : Option (List Value)) : MachineAction Unit :=
  modify fun m => { m with rows := setItem m.rows operand row }

/-- Opens a cursor, which then has no row. -/
def openCursor (operand : Int) (c : Cursor) : MachineAction Unit := do
  let _ ← cursor operand
  setCursor operand c
  setRow operand none

def currentRow (operand : Int) : MachineAction (List Value) := do
  match item? (← get).rows operand with
  | some (some row) => return row
  | some none => throw (.cursorUnpositioned operand)
  | none => throw (.cursorUnknown operand)

/-! ### Tables -/

def table (operand : Int) : MachineAction Table := do
  match (item? (← get).tables operand).join with
  | some t => return t
  | none => throw (.tableAbsent operand)

def setTable (operand : Int) (t : Table) : MachineAction Unit :=
  modify fun m => { m with tables := setItem m.tables operand (some t) }

/-- The result of an operation on a table, whose failure is one of the program. -/
def ofTable (result : Except Error α) : MachineAction α :=
  match result with
  | .ok a => return a
  | .error e => throw (.internal e)

/-- Changes a table. -/
def changeTable (operand : Int) (change : Table → Except Error Table) : MachineAction Unit := do
  let t ← table operand
  setTable operand (← ofTable (change t))

/-- The next row of a cursor, if there is one. -/
def advance (operand : Int) : MachineAction (Option (List Value)) := do
  match ← cursor operand with
  | .closed => throw (.cursorClosed operand)
  | .source rows columns =>
    let pull := rows.pull (← get).cancelled
    setCursor operand (.source pull.rest columns)
    modify fun m => { m with cancelled := pull.cancelled }
    match pull.item with
    | none => return none
    | some (.error e) => throw e
    | some (.ok row) => some <$> MonadExcept.ofExcept (row.materialize columns)
  | .table number following =>
    let t ← table number
    match t.rows[following]? with
    | none => return none
    | some row =>
      setCursor operand (.table number (following + 1))
      return some row

/-! ### Groups -/

def grouping (ctx : RunContext) (operand : Int) : MachineAction GroupingDeclaration :=
  match item? ctx.program.groupings operand with
  | some g => return g
  | none => throw (.groupingUnknown operand)

def groupsOf (operand : Int) : MachineAction Groups := do
  match item? (← get).groups operand with
  | some g => return g
  | none => throw (.groupingUnknown operand)

def setGroups (operand : Int) (g : Groups) : MachineAction Unit :=
  modify fun m => { m with groups := setItem m.groups operand g }

/-- The current group and its place. -/
def currentGroup (operand : Int) : MachineAction (Nat × Group) := do
  let g ← groupsOf operand
  match g.current.bind fun i => (g.groups[i]?).map (i, ·) with
  | some found => return found
  | none => throw (.groupUnselected operand)

/-- Makes the group of a key current, a new one if the key is new. -/
def enterGroup (ctx : RunContext) (operand : Int) (key : Key) : MachineAction Unit := do
  let declaration ← grouping ctx operand
  let rows := (← get).rows
  let g ← groupsOf operand
  match g.groups.findIdx? fun group => group.key.same key with
  | some i => setGroups operand { g with current := some i }
  | none =>
    let group : Group :=
      ⟨key, declaration.cursors.map fun c => rows[c]?.join,
        declaration.slots.map fun (_, aggregate) => aggregate.fresh⟩
    setGroups operand ⟨g.groups ++ [group], some g.groups.length⟩

/-- Makes the group at a place current; its cursors are on the group's rows again. -/
def selectGroup (ctx : RunContext) (operand : Int) (i : Nat) : MachineAction Unit := do
  let declaration ← grouping ctx operand
  let g ← groupsOf operand
  setGroups operand { g with current := some i }
  let saved := (g.groups[i]?.map Group.rows).getD []
  modify fun m =>
    { m with rows := (declaration.cursors.zip saved).foldl (fun rows (c, row) => rows.set c row) m.rows }

/-- The accumulator in a slot of a group. -/
def accumulator (group : Group) (slot : Int) : MachineAction Accumulator :=
  match item? group.accumulators slot with
  | some a => return a
  | none => throw (.slotUnknown slot)

end Machine

end TabularQuery
