import TabularQuery.Proofs.Execution
import TabularQuery.Proofs.Indexes

/-!
What an instruction can change. Most instructions move values on the stacks and registers and leave the rest of
the machine alone; the others open or advance a cursor, change the groups of one grouping or the rows of one table.
`Effect` says once what each of them does when it succeeds, and `exec_error` what a failure leaves behind; whatever
holds throughout a run is derived from these two.
-/

namespace TabularQuery

namespace Machine

section Operands

variable {α : Type} {xs : List α} {operand : Int} {x : α} {i : Nat}

theorem item?_eq_some_iff : item? xs operand = some x ↔ ∃ i, place? operand = some i ∧ xs[i]? = some x := by
  simp [item?, Option.bind_eq_some_iff]

theorem setItem_eq (h : place? operand = some i) (xs : List α) (x : α) : setItem xs operand x = xs.set i x := by
  simp [setItem, h]

end Operands

theorem toNat_of_place? {operand : Int} {i : Nat} (h : place? operand = some i) : operand.toNat = i := by
  unfold place? at h
  split at h
  · cases h
  · exact Option.some.inj h

/-! ### Stacks and registers only -/

/-- Nothing differs but the stacks and registers. -/
def FrameOnly (m m' : Machine) : Prop := m' = { m with frame := m'.frame }

theorem FrameOnly.refl (m : Machine) : m.FrameOnly m := rfl

theorem FrameOnly.trans {m m₁ m₂ : Machine} (h : m.FrameOnly m₁) (h' : m₁.FrameOnly m₂) : m.FrameOnly m₂ := by
  unfold FrameOnly at h h' ⊢
  rw [h', h]

/-- If the action fails, it leaves all but the stacks and registers alone. -/
structure FailsEarly (x : MachineAction α) : Prop where
  error : ∀ {m e m'}, x m = .error e m' → m.FrameOnly m'

/-- Whatever comes of the action, it leaves all but the stacks and registers alone. -/
structure Local (x : MachineAction α) : Prop extends FailsEarly x where
  ok : ∀ {m a m'}, x m = .ok a m' → m.FrameOnly m'

/-- The action changes nothing, and what it gives is as `R` says. -/
structure LooksUp (x : MachineAction α) (R : Machine → α → Prop) : Prop where
  ok : ∀ {m a m'}, x m = .ok a m' → R m a ∧ m = m'
  error : ∀ {m e m'}, x m = .error e m' → m = m'

section Closure

variable {α β : Type} {x : MachineAction α} {f : α → MachineAction β} {R : Machine → α → Prop}

theorem FailsEarly.of_ok (h : ∀ m, ∃ a m', x m = .ok a m') : FailsEarly x where
  error {m e m'} hx := by
    obtain ⟨a, m₁, ha⟩ := h m
    rw [ha] at hx
    cases hx

theorem FailsEarly.bind (hx : Local x) (hf : ∀ a, FailsEarly (f a)) : FailsEarly (x >>= f) where
  error {m e m'} h := by
    rcases bind_eq_error.mp h with h | ⟨a, m₁, ha, h⟩
    · exact hx.error h
    · exact (hx.ok ha).trans ((hf a).error h)

theorem FailsEarly.map {b : β} (hx : FailsEarly x) : FailsEarly (x >>= fun _ => pure b) where
  error {m e m'} h := by
    rcases bind_eq_error.mp h with h | ⟨a, m₁, -, h⟩
    · exact hx.error h
    · cases h

theorem Local.bind (hx : Local x) (hf : ∀ a, Local (f a)) : Local (x >>= f) where
  ok {m b m'} h := by
    obtain ⟨a, m₁, ha, h⟩ := bind_eq_ok.mp h
    exact (hx.ok ha).trans ((hf a).ok h)
  error := (FailsEarly.bind hx fun a => (hf a).toFailsEarly).error

theorem Local.bind_ok {m m' : Machine} {b : β} (hx : Local x) (h : (x >>= f) m = .ok b m') :
    ∃ a frame, f a { m with frame } = .ok b m' := by
  obtain ⟨a, m₁, ha, h⟩ := bind_eq_ok.mp h
  have hframe := hx.ok ha
  unfold FrameOnly at hframe
  rw [hframe] at h
  exact ⟨a, m₁.frame, h⟩

theorem LooksUp.of_cases (h : ∀ m, (∃ a, x m = .ok a m ∧ R m a) ∨ ∃ e, x m = .error e m) : LooksUp x R where
  ok {m a m'} hx := by
    obtain ⟨a', ha, hR⟩ | ⟨e, he⟩ := h m
    · rw [ha] at hx
      cases hx
      exact ⟨hR, rfl⟩
    · rw [he] at hx
      cases hx
  error {m e m'} hx := by
    obtain ⟨a', ha, -⟩ | ⟨e', he⟩ := h m
    · rw [ha] at hx
      cases hx
    · rw [he] at hx
      cases hx
      rfl

theorem LooksUp.bind_ok {m m' : Machine} {b : β} (hx : LooksUp x R) (h : (x >>= f) m = .ok b m') :
    ∃ a, R m a ∧ f a m = .ok b m' := by
  obtain ⟨a, m₁, ha, h⟩ := bind_eq_ok.mp h
  obtain ⟨hR, rfl⟩ := hx.ok ha
  exact ⟨a, hR, h⟩

theorem LooksUp.toLocal (h : LooksUp x R) : Local x where
  ok hx := (h.ok hx).2 ▸ .refl _
  error hx := h.error hx ▸ .refl _

theorem Local.pure (a : α) : Local (Pure.pure a : MachineAction α) :=
  (LooksUp.of_cases (R := fun _ _ => True) fun _ => .inl ⟨a, rfl, trivial⟩).toLocal

theorem Local.throw (e : Error) : Local (MonadExcept.throw e : MachineAction α) :=
  (LooksUp.of_cases (R := fun _ _ => True) fun _ => .inr ⟨e, rfl⟩).toLocal

theorem Local.ofExcept (r : Except Error α) : Local (MonadExcept.ofExcept r : MachineAction α) := by
  cases r with
  | ok a => exact .pure a
  | error e => exact .throw e

theorem Local.onFrame (action : FrameAction α) : Local (Machine.onFrame action) where
  ok {m a m'} h := by
    unfold Machine.onFrame at h
    split at h <;> cases h
    rfl
  error {m e m'} h := by
    unfold Machine.onFrame at h
    split at h <;> cases h
    rfl

theorem Local.push (v : Value) : Local (Machine.push v) where
  ok h := by
    cases h
    rfl
  error := nofun

end Closure

/-! ### Lookups -/

section Lookups

variable {α : Type} (operand : Int) (op : Instruction)

theorem looksUp_integerOperand : LooksUp (integerOperand op) fun _ n => op.operand = .integer n := by
  refine .of_cases fun m => ?_
  unfold integerOperand
  cases op.operand <;> first | exact .inl ⟨_, rfl, rfl⟩ | exact .inr ⟨_, rfl⟩

theorem looksUp_typeOperand : LooksUp (typeOperand op) fun _ ty => op.operand = .type ty := by
  refine .of_cases fun m => ?_
  unfold typeOperand
  cases op.operand <;> first | exact .inl ⟨_, rfl, rfl⟩ | exact .inr ⟨_, rfl⟩

theorem looksUp_typesOperand : LooksUp (typesOperand op) fun _ types => op.operand = .types types := by
  refine .of_cases fun m => ?_
  unfold typesOperand
  cases op.operand <;> first | exact .inl ⟨_, rfl, rfl⟩ | exact .inr ⟨_, rfl⟩

theorem looksUp_ordinalsOperand : LooksUp (ordinalsOperand op) fun _ columns => op.operand = .ordinals columns := by
  refine .of_cases fun m => ?_
  unfold ordinalsOperand
  cases op.operand <;> first | exact .inl ⟨_, rfl, rfl⟩ | exact .inr ⟨_, rfl⟩

theorem looksUp_cursor : LooksUp (cursor operand) fun m c => item? m.cursors operand = some c := by
  refine .of_cases fun m => ?_
  simp only [cursor, bind_apply, get_apply]
  cases item? m.cursors operand <;> simp

theorem looksUp_currentRow : LooksUp (currentRow operand) fun m row => item? m.rows operand = some (some row) := by
  refine .of_cases fun m => ?_
  simp only [currentRow, bind_apply, get_apply]
  cases item? m.rows operand with
  | none => simp
  | some row => cases row <;> simp

theorem looksUp_table : LooksUp (table operand) fun m t => item? m.tables operand = some (some t) := by
  refine .of_cases fun m => ?_
  simp only [table, bind_apply, get_apply]
  cases item? m.tables operand with
  | none => simp
  | some t => cases t <;> simp

theorem looksUp_groupsOf : LooksUp (groupsOf operand) fun m g => item? m.groups operand = some g := by
  refine .of_cases fun m => ?_
  simp only [groupsOf, bind_apply, get_apply]
  cases item? m.groups operand <;> simp

theorem looksUp_grouping (ctx : RunContext) :
    LooksUp (grouping ctx operand) fun _ d => item? ctx.program.groupings operand = some d := by
  refine .of_cases fun m => ?_
  unfold grouping
  cases item? ctx.program.groupings operand <;> simp

theorem looksUp_ofTable (r : Except Error α) : LooksUp (ofTable r) fun _ a => r = .ok a := by
  refine .of_cases fun m => ?_
  cases r <;> simp [ofTable]

theorem looksUp_currentGroup : LooksUp (currentGroup operand) fun m found => ∃ g, item? m.groups operand = some g ∧
    g.current = some found.1 ∧ g.groups[found.1]? = some found.2 := by
  refine .of_cases fun m => ?_
  simp only [currentGroup, groupsOf, bind_apply, get_apply]
  cases hg : item? m.groups operand with
  | none => simp
  | some g =>
    cases hfound : g.current.bind fun i => (g.groups[i]?).map (i, ·) with
    | none => simp [hfound]
    | some found =>
      obtain ⟨i, hi, hat⟩ := Option.bind_eq_some_iff.mp hfound
      obtain ⟨group, hgroup, rfl⟩ := Option.map_eq_some_iff.mp hat
      exact .inl ⟨(i, group), by simp [hfound], g, rfl, hi, hgroup⟩

theorem looksUp_accumulator (group : Group) :
    LooksUp (accumulator group operand) fun _ a => item? group.accumulators operand = some a := by
  refine .of_cases fun m => ?_
  unfold accumulator
  cases item? group.accumulators operand <;> simp

theorem looksUp_checkCancelled : LooksUp checkCancelled fun _ _ => True := by
  refine .of_cases fun m => ?_
  simp only [checkCancelled, bind_apply, get_apply]
  cases m.cancelled <;> simp

end Lookups

theorem local_arithmetic (F : Number → Number → Except Error Number) : Local (arithmetic F) :=
  (Local.onFrame _).bind fun _ => (Local.onFrame _).bind fun _ => (Local.ofExcept _).bind fun _ => .push _

theorem local_comparison (op : Instruction) : Local (comparison op) := by
  unfold comparison
  split
  · exact .throw _
  · rename_i kind hkind
    have hpop : Local (popOrdering kind) := by
      cases kind <;> exact (Local.onFrame _).bind fun _ => (Local.onFrame _).bind fun _ => .pure _
    exact hpop.bind fun _ => .push _

theorem local_findKey (op : Instruction) : Local (findKey op) := by
  refine (looksUp_ordinalsOperand op).toLocal.bind fun columns => (looksUp_currentRow _).toLocal.bind fun row => ?_
  split
  · exact .throw _
  · exact (looksUp_table _).toLocal.bind fun t => (looksUp_ofTable _).toLocal

end Machine

/-- The place of the group after the current one; the first one if none is current. -/
def Groups.following (g : Groups) : Nat :=
  match g.current with
  | some i => i + 1
  | none => 0

/-- Does the instruction change anything but stacks and registers? -/
def Opcode.acts : Opcode → Bool
  | .openSource | .openTable | .next | .resetGroups | .groupKey | .accumulate | .rewindGroups | .nextGroup
  | .createTable | .addIndex | .makeRecord | .copyRow => true
  | _ => false

namespace Machine

theorem local_exec (ctx : RunContext) {op : Instruction} (hop : op.opcode.acts = false) : Local (exec ctx op) := by
  obtain ⟨opcode, p1, p2, p3, operand, comment⟩ := op
  cases opcode with
  | halt => exact .pure _
  | goto => exact .pure _
  | ifTrue | ifNot | ifNotPos => exact (Local.onFrame _).bind fun _ => .pure _
  | ifPos =>
    refine (Local.onFrame _).bind fun n => ?_
    split
    · exact (Local.onFrame _).bind fun _ => .pure _
    · exact .pure _
  | addImm => exact (Local.onFrame _).bind fun _ => (Local.onFrame _).bind fun _ => .pure _
  | setInteger => exact (looksUp_integerOperand _).toLocal.bind fun _ => (Local.onFrame _).bind fun _ => .pure _
  | pushInt => exact (looksUp_integerOperand _).toLocal.bind fun _ => (Local.push _).bind fun _ => .pure _
  | pushReal | pushText =>
    unfold exec
    dsimp only
    split
    · exact (Local.push _).bind fun _ => .pure _
    · exact (Local.throw _).bind fun _ => .pure _
  | pushBool => exact (Local.push _).bind fun _ => .pure _
  | add | subtract | multiply | divide | remainder => exact (local_arithmetic _).bind fun _ => .pure _
  | negate =>
    exact (Local.onFrame _).bind fun _ => (Local.ofExcept _).bind fun _ => (Local.push _).bind fun _ => .pure _
  | concat | like =>
    exact (Local.onFrame _).bind fun _ => (Local.onFrame _).bind fun _ => (Local.push _).bind fun _ => .pure _
  | eq | ne | lt | le | gt | ge => exact (local_comparison _).bind fun _ => .pure _
  | not => exact (Local.onFrame _).bind fun _ => (Local.push _).bind fun _ => .pure _
  | function =>
    unfold exec
    dsimp only
    split
    · exact (Local.onFrame _).bind fun _ => (Local.ofExcept _).bind fun _ => (Local.push _).bind fun _ => .pure _
    · exact (Local.throw _).bind fun _ => .pure _
  | column =>
    refine (looksUp_currentRow _).toLocal.bind fun row => ?_
    dsimp only
    split
    · exact (Local.push _).bind fun _ => .pure _
    · exact (Local.throw _).bind fun _ => .pure _
  | aggregateValue =>
    exact (looksUp_typeOperand _).toLocal.bind fun _ => (looksUp_currentGroup _).toLocal.bind fun _ =>
      (looksUp_accumulator _ _).toLocal.bind fun _ => (Local.ofExcept _).bind fun _ => (Local.push _).bind fun _ => .pure _
  | found | notFound => exact (local_findKey _).bind fun _ => .pure _
  | _ => cases hop

end Machine

namespace Instruction

open Machine

/-- What the operands name is there, and the fourth is of the kind that the instruction needs. -/
def Resolves (ctx : RunContext) (m : Machine) (op : Instruction) : Prop :=
  match op.opcode with
  | .ifPos | .ifNotPos | .addImm => ∃ n, item? m.frame.registers op.p1 = some n
  | .setInteger => (∃ n, op.operand = .integer n) ∧ ∃ n, item? m.frame.registers op.p1 = some n
  | .pushInt => ∃ n, op.operand = .integer n
  | .pushReal => ∃ x, op.operand = .real x
  | .pushText => ∃ s, op.operand = .text s
  | .eq | .ne | .lt | .le | .gt | .ge => ∃ kind, ValueKind.ofOperand? op.p1 = some kind
  | .function => ∃ f, op.operand = .function f
  | .openSource => (∃ b, item? ctx.program.sources op.p2 = some b) ∧ ∃ c, item? m.cursors op.p1 = some c
  | .openTable => (∃ t, item? m.tables op.p2 = some (some t)) ∧ ∃ c, item? m.cursors op.p1 = some c
  | .next => (∃ rows columns, item? m.cursors op.p1 = some (.source rows columns)) ∨
      ∃ n following t, item? m.cursors op.p1 = some (.table n following) ∧ m.tables[n]? = some (some t)
  | .column => ∃ row v, item? m.rows op.p1 = some (some row) ∧ item? row op.p2 = some v
  | .resetGroups | .rewindGroups | .nextGroup => ∃ g, item? m.groups op.p1 = some g
  | .groupKey => (∃ types, op.operand = .types types) ∧ ∃ d, item? ctx.program.groupings op.p1 = some d
  | .accumulate => (∃ types, op.operand = .types types) ∧ ∃ g i group a, item? m.groups op.p1 = some g ∧
      g.current = some i ∧ g.groups[i]? = some group ∧ item? group.accumulators op.p2 = some a
  | .aggregateValue => (∃ ty, op.operand = .type ty) ∧ ∃ g i group a, item? m.groups op.p1 = some g ∧
      g.current = some i ∧ g.groups[i]? = some group ∧ item? group.accumulators op.p2 = some a
  | .createTable => ∃ d, item? ctx.program.tables op.p1 = some d
  | .addIndex => ∃ columns t, op.operand = .ordinals columns ∧ item? m.tables op.p1 = some (some t) ∧
      ∀ c ∈ columns, c < t.columns.length
  | .makeRecord => (∃ types, op.operand = .types types) ∧ ∃ t, item? m.tables op.p1 = some (some t)
  | .found | .notFound => ∃ columns row key t, op.operand = .ordinals columns ∧
      item? m.rows op.p1 = some (some row) ∧ Key.ofRow? columns row = some key ∧
      item? m.tables op.p3 = some (some t) ∧ (t.index? columns).isSome = true
  | .copyRow => (∃ row, item? m.rows op.p1 = some (some row)) ∧ ∃ t, item? m.tables op.p3 = some (some t)
  | _ => True

end Instruction

namespace Machine

/-- What an instruction does when it succeeds. -/
inductive Effect (ctx : RunContext) (op : Instruction) (m : Machine) : Flow → Machine → Prop
  /-- Stacks and registers only: an instruction that does no more, or one that finds no group to go to. -/
  | still (flow : Flow) (f : Frame) (hop : op.opcode.acts = false ∨ op.opcode = .rewindGroups ∧ flow = .jump ∨
      op.opcode = .nextGroup ∧ flow = .next) : Effect ctx op m flow { m with frame := f }
  | openedSource (i : Nat) (rows : RowSource) (columns : List Column) (hop : op.opcode = .openSource)
      (hi : place? op.p1 = some i) (hlt : i < m.cursors.length) : Effect ctx op m .next
        { m with cursors := m.cursors.set i (.source rows columns), rows := m.rows.set i none }
  | openedTable (i n : Nat) (hop : op.opcode = .openTable) (hi : place? op.p1 = some i) (hn : place? op.p2 = some n)
      (hlt : i < m.cursors.length) : Effect ctx op m .next
        { m with cursors := m.cursors.set i (.table n 0), rows := m.rows.set i none }
  | pulled (i : Nat) (rows : RowSource) (columns : List Column) (item : Except Error SourceRow) (row : List Value)
      (hop : op.opcode = .next) (hi : place? op.p1 = some i) (hc : m.cursors[i]? = some (.source rows columns))
      (hitem : (rows.pull m.cancelled).item = some item) : Effect ctx op m .next
        { m with
          cursors := m.cursors.set i (.source (rows.pull m.cancelled).rest columns)
          rows := m.rows.set i (some row)
          cancelled := (rows.pull m.cancelled).cancelled }
  | drained (i : Nat) (rows : RowSource) (columns : List Column) (hop : op.opcode = .next) (hi : place? op.p1 = some i)
      (hc : m.cursors[i]? = some (.source rows columns)) : Effect ctx op m .jump
        { m with
          cursors := m.cursors.set i (.source (rows.pull m.cancelled).rest columns)
          rows := m.rows.set i none
          cancelled := (rows.pull m.cancelled).cancelled }
  | scanned (i n following : Nat) (t : Table) (row : List Value) (hop : op.opcode = .next)
      (hi : place? op.p1 = some i) (hc : m.cursors[i]? = some (.table n following))
      (ht : m.tables[n]? = some (some t)) (hrow : t.rows[following]? = some row) : Effect ctx op m .next
        { m with cursors := m.cursors.set i (.table n (following + 1)), rows := m.rows.set i (some row) }
  | passed (i : Nat) (hop : op.opcode = .next) (hi : place? op.p1 = some i) (hlt : i < m.cursors.length) :
      Effect ctx op m .jump { m with rows := m.rows.set i none }
  | reset (i : Nat) (hop : op.opcode = .resetGroups) (hi : place? op.p1 = some i) :
      Effect ctx op m .next { m with groups := m.groups.set i ⟨[], none⟩ }
  | met (i : Nat) (g : Groups) (key : Key) (j : Nat) (f : Frame) (hop : op.opcode = .groupKey)
      (hi : place? op.p1 = some i) (hg : m.groups[i]? = some g)
      (hj : (g.groups.findIdx? fun group => group.key.same key) = some j) :
      Effect ctx op m .next { m with frame := f, groups := m.groups.set i { g with current := some j } }
  | founded (i : Nat) (d : GroupingDeclaration) (g : Groups) (key : Key) (f : Frame) (hop : op.opcode = .groupKey)
      (hi : place? op.p1 = some i) (hd : ctx.program.groupings[i]? = some d) (hg : m.groups[i]? = some g)
      (hnew : (g.groups.findIdx? fun group => group.key.same key) = none) : Effect ctx op m .next
        { m with
          frame := f
          groups := m.groups.set i ⟨g.groups ++ [⟨key, d.cursors.map fun c => m.rows[c]?.join,
            d.slots.map fun (_, aggregate) => aggregate.fresh⟩], some g.groups.length⟩ }
  | accumulated (i : Nat) (g : Groups) (j : Nat) (group : Group) (slot : Nat) (a : Accumulator) (f : Frame)
      (hop : op.opcode = .accumulate) (hi : place? op.p1 = some i) (hg : m.groups[i]? = some g)
      (hj : g.groups[j]? = some group) : Effect ctx op m .next
        { m with
          frame := f
          groups := m.groups.set i { g with
            groups := g.groups.set j { group with accumulators := group.accumulators.set slot a } } }
  | selected (flow : Flow) (i : Nat) (d : GroupingDeclaration) (g : Groups) (j : Nat) (group : Group)
      (hop : op.opcode = .rewindGroups ∧ flow = .next ∧ j = 0 ∨
        op.opcode = .nextGroup ∧ flow = .jump ∧ j = g.following)
      (hi : place? op.p1 = some i) (hg : m.groups[i]? = some g) (hj : g.groups[j]? = some group) : Effect ctx op m flow
        { m with
          groups := m.groups.set i { g with current := some j }
          rows := (d.cursors.zip group.rows).foldl (fun rows (c, row) => rows.set c row) m.rows }
  | created (i : Nat) (d : TableDeclaration) (t : Table) (hop : op.opcode = .createTable) (hi : place? op.p1 = some i)
      (hd : ctx.program.tables[i]? = some d) (ht : Table.withColumns d.name d.columns = .ok t) :
      Effect ctx op m .next { m with tables := m.tables.set i (some t) }
  | indexed (i : Nat) (t t' : Table) (columns : List Nat) (f : Frame) (hop : op.opcode = .addIndex)
      (hi : place? op.p1 = some i) (ht : m.tables[i]? = some (some t)) (ht' : t.addIndex columns = .ok t') :
      Effect ctx op m .next { m with frame := f, tables := m.tables.set i (some t') }
  | appended (i : Nat) (t t' : Table) (row : List Value) (f : Frame)
      (hop : op.opcode = .makeRecord ∧ place? op.p1 = some i ∨ op.opcode = .copyRow ∧ place? op.p3 = some i)
      (ht : m.tables[i]? = some (some t)) (ht' : t.add row = .ok t') :
      Effect ctx op m .next { m with frame := f, tables := m.tables.set i (some t') }

section Inversion

variable {ctx : RunContext} {op : Instruction} {operand : Int} {m m' : Machine}

theorem register_eq_ok {operand : Int} {n : Int64} (h : onFrame (Frame.register operand) m = .ok n m') :
    item? m.frame.registers operand = some n ∧ m = m' := by
  unfold onFrame Frame.register at h
  cases hn : item? m.frame.registers operand <;> unfold item? at hn <;> simp only [hn] at h <;> cases h
  exact ⟨rfl, rfl⟩

theorem setRegister_eq_ok {operand : Int} {n : Int64} {u : Unit} (h : onFrame (Frame.setRegister operand n) m = .ok u m') :
    ∃ old, item? m.frame.registers operand = some old := by
  unfold onFrame Frame.setRegister at h
  cases hplace : (place? operand).filter fun i => i < m.frame.registers.length with
  | none =>
    simp only [hplace] at h
    cases h
  | some i =>
    obtain ⟨hi, hlt⟩ := Option.filter_eq_some_iff.mp hplace
    exact ⟨_, item?_eq_some_iff.mpr ⟨i, hi, List.getElem?_eq_getElem (by simpa using hlt)⟩⟩

theorem comparison_eq_ok {u : Unit} (h : comparison op m = .ok u m') : ∃ kind, ValueKind.ofOperand? op.p1 = some kind := by
  unfold comparison at h
  cases hkind : ValueKind.ofOperand? op.p1 with
  | none =>
    simp only [hkind] at h
    cases h
  | some kind => exact ⟨kind, rfl⟩

theorem findKey_eq_ok {found : Bool} (h : findKey op m = .ok found m') : ∃ columns row key t,
    op.operand = .ordinals columns ∧ item? m.rows op.p1 = some (some row) ∧ Key.ofRow? columns row = some key ∧
      item? m.tables op.p3 = some (some t) ∧ (t.index? columns).isSome = true := by
  obtain ⟨columns, hcolumns, h⟩ := (looksUp_ordinalsOperand op).bind_ok h
  obtain ⟨row, hrow, h⟩ := (looksUp_currentRow _).bind_ok h
  cases hkey : Key.ofRow? columns row with
  | none =>
    simp only [hkey] at h
    cases h
  | some key =>
    simp only [hkey] at h
    obtain ⟨t, ht, h⟩ := (looksUp_table _).bind_ok h
    refine ⟨columns, row, key, t, hcolumns, hrow, hkey, ht, ?_⟩
    obtain ⟨hcontains, -⟩ := (looksUp_ofTable _).ok h
    cases hindex : t.index? columns with
    | none => simp [Table.containsKey, Table.lookup, hindex, Except.map] at hcontains
    | some index => rfl

theorem openCursor_eq_ok {c : Cursor} {u : Unit} (hopen : openCursor operand c m = .ok u m') :
    ∃ i, place? operand = some i ∧ i < m.cursors.length ∧
      m' = { m with cursors := m.cursors.set i c, rows := m.rows.set i none } := by
  obtain ⟨c', hitem, h⟩ := (looksUp_cursor _).bind_ok hopen
  obtain ⟨i, hi, hc⟩ := item?_eq_some_iff.mp hitem
  obtain ⟨-, rfl⟩ := EStateM.Result.ok.inj h
  exact ⟨i, hi, (List.getElem?_eq_some_iff.mp hc).1, by simp only [setItem_eq hi]⟩

theorem changeTable_eq_ok {change : Table → Except Error Table} {u : Unit}
    (hchange : changeTable operand change m = .ok u m') :
    ∃ i t t', place? operand = some i ∧ m.tables[i]? = some (some t) ∧ change t = .ok t' ∧
      m' = { m with tables := m.tables.set i (some t') } := by
  obtain ⟨t, hitem, h⟩ := (looksUp_table _).bind_ok hchange
  obtain ⟨i, hi, ht⟩ := item?_eq_some_iff.mp hitem
  obtain ⟨t', ht', h⟩ := (looksUp_ofTable _).bind_ok h
  obtain ⟨-, rfl⟩ := EStateM.Result.ok.inj h
  exact ⟨i, t, t', hi, ht, ht', by simp only [setItem_eq hi]⟩

theorem selectGroup_eq_ok {j : Nat} {u : Unit} (hselect : selectGroup ctx operand j m = .ok u m') :
    ∃ (i : Nat) (d : GroupingDeclaration) (g : Groups), place? operand = some i ∧ m.groups[i]? = some g ∧
      m' = { m with
        groups := m.groups.set i { g with current := some j }
        rows := (d.cursors.zip ((g.groups[j]?.map Group.rows).getD [])).foldl (fun rows (c, row) => rows.set c row)
          m.rows } := by
  obtain ⟨d, -, h⟩ := (looksUp_grouping _ ctx).bind_ok hselect
  obtain ⟨g, hitem, h⟩ := (looksUp_groupsOf _).bind_ok h
  obtain ⟨i, hi, hg⟩ := item?_eq_some_iff.mp hitem
  obtain ⟨-, rfl⟩ := EStateM.Result.ok.inj h
  exact ⟨i, d, g, hi, hg, by simp only [setItem_eq hi]⟩

theorem effect_enterGroup (hop : op.opcode = .groupKey) {f : Frame} {key : Key} {u : Unit}
    (henter : enterGroup ctx op.p1 key { m with frame := f } = .ok u m') :
    Effect ctx op m .next m' ∧ ∃ d, item? ctx.program.groupings op.p1 = some d := by
  obtain ⟨d, hitem, h⟩ := (looksUp_grouping _ ctx).bind_ok henter
  obtain ⟨i, hi, hd⟩ := item?_eq_some_iff.mp hitem
  replace h := eq_ok_of_bind h rfl
  obtain ⟨g, hitem', h⟩ := (looksUp_groupsOf _).bind_ok h
  obtain ⟨i', hi', hg⟩ := item?_eq_some_iff.mp hitem'
  rw [hi] at hi'
  cases hi'
  refine ⟨?_, d, hitem⟩
  cases hfind : g.groups.findIdx? fun group => group.key.same key with
  | some j =>
    simp only [hfind] at h
    obtain ⟨-, rfl⟩ := EStateM.Result.ok.inj h
    simp only [setItem_eq hi]
    exact .met i g key j f hop hi hg hfind
  | none =>
    simp only [hfind] at h
    obtain ⟨-, rfl⟩ := EStateM.Result.ok.inj h
    simp only [setItem_eq hi]
    exact .founded i d g key f hop hi hd hg hfind

theorem effect_selectGroup {flow : Flow} {i j : Nat} {g : Groups} {u : Unit} (hi : place? op.p1 = some i)
    (hg : m.groups[i]? = some g) (hj : j < g.groups.length)
    (hop : op.opcode = .rewindGroups ∧ flow = .next ∧ j = 0 ∨
      op.opcode = .nextGroup ∧ flow = .jump ∧ j = g.following)
    (hselect : selectGroup ctx op.p1 j m = .ok u m') : Effect ctx op m flow m' := by
  obtain ⟨i', d, g', hi', hg', rfl⟩ := selectGroup_eq_ok hselect
  rw [hi] at hi'
  cases hi'
  rw [hg] at hg'
  cases hg'
  have hgroup := List.getElem?_eq_getElem hj
  rw [hgroup, Option.map_some, Option.getD_some]
  exact .selected flow i d g j _ hop hi hg hgroup

/-- Moving a cursor on: it is open, and if it reads a table, that is there. -/
theorem effect_advance (hop : op.opcode = .next) {row : Option (List Value)} {m₁ : Machine} {u : Unit}
    (hadvance : advance op.p1 m = .ok row m₁) (hset : setRow op.p1 row m₁ = .ok u m') :
    Effect ctx op m (.jumpIf row.isNone) m' ∧ ((∃ rows columns, item? m.cursors op.p1 = some (.source rows columns)) ∨
      ∃ n following t, item? m.cursors op.p1 = some (.table n following) ∧ m.tables[n]? = some (some t)) := by
  obtain ⟨c, hitem, h⟩ := (looksUp_cursor _).bind_ok hadvance
  obtain ⟨i, hi, hc⟩ := item?_eq_some_iff.mp hitem
  obtain ⟨-, rfl⟩ := EStateM.Result.ok.inj hset
  simp only [setItem_eq hi]
  cases c with
  | closed => cases h
  | source rows columns =>
    refine ⟨?_, .inl ⟨rows, columns, hitem⟩⟩
    simp only [bind_apply, get_apply, setCursor, modify_apply, setItem_eq hi] at h
    cases hpull : (rows.pull m.cancelled).item with
    | none =>
      simp only [hpull] at h
      obtain ⟨rfl, rfl⟩ := pure_eq_ok.mp h
      exact .drained i rows columns hop hi hc
    | some item =>
      cases item with
      | error e =>
        simp only [hpull] at h
        cases h
      | ok r =>
        simp only [hpull] at h
        obtain ⟨row', hmaterialize, rfl⟩ := map_eq_ok.mp h
        obtain ⟨-, rfl⟩ := ofExcept_eq_ok.mp hmaterialize
        exact .pulled i rows columns (.ok r) row' hop hi hc hpull
  | table n following =>
    obtain ⟨t, hitem', h⟩ := (looksUp_table _).bind_ok h
    obtain ⟨n', hn, ht⟩ := item?_eq_some_iff.mp hitem'
    rw [place?_natCast] at hn
    cases hn
    refine ⟨?_, .inr ⟨n, following, t, hitem, ht⟩⟩
    cases hrow : t.rows[following]? with
    | none =>
      simp only [hrow] at h
      obtain ⟨rfl, rfl⟩ := pure_eq_ok.mp h
      exact .passed i hop hi (List.getElem?_eq_some_iff.mp hc).1
    | some row' =>
      simp only [hrow, bind_apply, setCursor, modify_apply, setItem_eq hi] at h
      obtain ⟨rfl, rfl⟩ := pure_eq_ok.mp h
      exact .scanned i n following t row' hop hi hc ht hrow

end Inversion

theorem exec_nextGroup_eq (ctx : RunContext) {op : Instruction} (hop : op.opcode = .nextGroup) :
    exec ctx op = do
      let g ← groupsOf op.p1
      if g.following < g.groups.length then
        selectGroup ctx op.p1 g.following
        return .jump
      else return .next := by
  unfold exec
  rw [hop]
  rfl

/-- An instruction that succeeds has its effect, and its operands named something. -/
theorem exec_ok {ctx : RunContext} {op : Instruction} {m m' : Machine} {flow : Flow}
    (hexec : exec ctx op m = .ok flow m') : Effect ctx op m flow m' ∧ op.Resolves ctx m := by
  have hstill (hacts : op.opcode.acts = false) : Effect ctx op m flow m' := by
    have hframe := (local_exec ctx hacts).ok hexec
    unfold FrameOnly at hframe
    rw [hframe]
    exact .still flow m'.frame (.inl hacts)
  have h := hexec
  unfold exec at h
  unfold Instruction.Resolves
  cases hop : op.opcode with
  | ifPos | ifNotPos | addImm =>
    simp only [hop] at h
    obtain ⟨n, m₁, hregister, -⟩ := bind_eq_ok.mp h
    exact ⟨hstill (by rw [hop]; rfl), n, (register_eq_ok hregister).1⟩
  | setInteger =>
    simp only [hop] at h
    obtain ⟨n, hn, h⟩ := (looksUp_integerOperand op).bind_ok h
    obtain ⟨u, m₂, hset, -⟩ := bind_eq_ok.mp h
    exact ⟨hstill (by rw [hop]; rfl), ⟨n, hn⟩, setRegister_eq_ok hset⟩
  | pushInt =>
    simp only [hop] at h
    obtain ⟨n, m₁, hinteger, -⟩ := bind_eq_ok.mp h
    exact ⟨hstill (by rw [hop]; rfl), n, ((looksUp_integerOperand op).ok hinteger).1⟩
  | pushReal | pushText | function =>
    refine ⟨hstill (by rw [hop]; rfl), ?_⟩
    simp only [hop] at h
    cases hoperand : op.operand <;> simp only [hoperand] at h <;> first | exact ⟨_, rfl⟩ | cases h
  | eq | ne | lt | le | gt | ge =>
    simp only [hop] at h
    obtain ⟨u, m₁, hcompare, -⟩ := bind_eq_ok.mp h
    exact ⟨hstill (by rw [hop]; rfl), comparison_eq_ok hcompare⟩
  | column =>
    refine ⟨hstill (by rw [hop]; rfl), ?_⟩
    simp only [hop] at h
    obtain ⟨row, hrow, h⟩ := (looksUp_currentRow _).bind_ok h
    cases hv : item? row op.p2 with
    | none =>
      simp only [hv] at h
      cases h
    | some v => exact ⟨row, v, hrow, hv⟩
  | aggregateValue =>
    simp only [hop] at h
    obtain ⟨ty, hty, h⟩ := (looksUp_typeOperand op).bind_ok h
    obtain ⟨⟨j, group⟩, ⟨g, hg, hj, hgroup⟩, h⟩ := (looksUp_currentGroup _).bind_ok h
    obtain ⟨a, ha, -⟩ := (looksUp_accumulator _ _).bind_ok h
    exact ⟨hstill (by rw [hop]; rfl), ⟨ty, hty⟩, g, j, group, a, hg, hj, hgroup, ha⟩
  | found | notFound =>
    simp only [hop] at h
    obtain ⟨found, m₁, hfind, -⟩ := bind_eq_ok.mp h
    exact ⟨hstill (by rw [hop]; rfl), findKey_eq_ok hfind⟩
  | openSource =>
    simp only [hop] at h
    cases hb : item? ctx.program.sources op.p2 with
    | none =>
      simp only [hb] at h
      cases h
    | some b =>
      simp only [hb] at h
      obtain ⟨rows, -, h⟩ := ofExcept_bind_eq_ok.mp h
      obtain ⟨u, hopen, rfl⟩ := bind_pure_eq_ok.mp h
      obtain ⟨i, hi, hlt, rfl⟩ := openCursor_eq_ok hopen
      exact ⟨.openedSource i rows b.columns hop hi hlt, ⟨b, rfl⟩, _, item?_eq_some_iff.mpr
        ⟨i, hi, List.getElem?_eq_getElem hlt⟩⟩
  | openTable =>
    simp only [hop] at h
    obtain ⟨t, hitem, h⟩ := (looksUp_table _).bind_ok h
    obtain ⟨n, hn, -⟩ := item?_eq_some_iff.mp hitem
    obtain ⟨u, hopen, rfl⟩ := bind_pure_eq_ok.mp h
    obtain ⟨i, hi, hlt, rfl⟩ := openCursor_eq_ok hopen
    rw [toNat_of_place? hn]
    exact ⟨.openedTable i n hop hi hn hlt, ⟨t, hitem⟩, _, item?_eq_some_iff.mpr ⟨i, hi, List.getElem?_eq_getElem hlt⟩⟩
  | next =>
    simp only [hop] at h
    obtain ⟨u, -, h⟩ := looksUp_checkCancelled.bind_ok h
    obtain ⟨row, m₂, hadvance, h⟩ := bind_eq_ok.mp h
    obtain ⟨u', hset, rfl⟩ := bind_pure_eq_ok.mp h
    exact effect_advance hop hadvance hset
  | resetGroups =>
    simp only [hop] at h
    obtain ⟨g, hitem, h⟩ := (looksUp_groupsOf _).bind_ok h
    obtain ⟨i, hi, -⟩ := item?_eq_some_iff.mp hitem
    obtain ⟨rfl, rfl⟩ := EStateM.Result.ok.inj h
    simp only [setItem_eq hi]
    exact ⟨.reset i hop hi, g, hitem⟩
  | groupKey =>
    simp only [hop] at h
    obtain ⟨types, hoperand, h⟩ := (looksUp_typesOperand op).bind_ok h
    obtain ⟨values, frame, h⟩ := (Local.onFrame _).bind_ok h
    obtain ⟨u, henter, rfl⟩ := bind_pure_eq_ok.mp h
    obtain ⟨heffect, hdeclared⟩ := effect_enterGroup hop henter
    exact ⟨heffect, ⟨types, hoperand⟩, hdeclared⟩
  | accumulate =>
    simp only [hop] at h
    obtain ⟨types, hoperand, h⟩ := (looksUp_typesOperand op).bind_ok h
    obtain ⟨values, frame, h⟩ := (Local.onFrame _).bind_ok h
    obtain ⟨⟨j, group⟩, ⟨g, hitem, hj, hgroup⟩, h⟩ := (looksUp_currentGroup _).bind_ok h
    obtain ⟨i, hi, hg⟩ := item?_eq_some_iff.mp hitem
    obtain ⟨a, ha, h⟩ := (looksUp_accumulator _ _).bind_ok h
    obtain ⟨slot, hslot, -⟩ := item?_eq_some_iff.mp ha
    obtain ⟨a', -, h⟩ := ofExcept_bind_eq_ok.mp h
    obtain ⟨g', hitem', h⟩ := (looksUp_groupsOf _).bind_ok h
    rw [hitem] at hitem'
    cases hitem'
    obtain ⟨rfl, rfl⟩ := EStateM.Result.ok.inj h
    simp only [setItem_eq hi, setItem_eq hslot]
    exact ⟨.accumulated i g j group slot a' frame hop hi hg hgroup, ⟨types, hoperand⟩, g, j, group, a, hitem, hj,
      hgroup, ha⟩
  | rewindGroups =>
    simp only [hop] at h
    obtain ⟨g, hitem, h⟩ := (looksUp_groupsOf _).bind_ok h
    obtain ⟨i, hi, hg⟩ := item?_eq_some_iff.mp hitem
    refine ⟨?_, g, hitem⟩
    split at h
    · obtain ⟨rfl, rfl⟩ := pure_eq_ok.mp h
      exact .still .jump m.frame (.inr (.inl ⟨hop, rfl⟩))
    · rename_i hsome
      obtain ⟨u, hselect, rfl⟩ := bind_pure_eq_ok.mp h
      exact effect_selectGroup hi hg (List.length_pos_iff.mpr (by simpa using hsome)) (.inl ⟨hop, rfl, rfl⟩) hselect
  | nextGroup =>
    rw [exec_nextGroup_eq ctx hop] at hexec
    obtain ⟨g, hitem, h⟩ := (looksUp_groupsOf _).bind_ok hexec
    obtain ⟨i, hi, hg⟩ := item?_eq_some_iff.mp hitem
    refine ⟨?_, g, hitem⟩
    split at h
    · rename_i hlt
      obtain ⟨u, hselect, rfl⟩ := bind_pure_eq_ok.mp h
      exact effect_selectGroup hi hg hlt (.inr ⟨hop, rfl, rfl⟩) hselect
    · obtain ⟨rfl, rfl⟩ := pure_eq_ok.mp h
      exact .still .next m.frame (.inr (.inr ⟨hop, rfl⟩))
  | createTable =>
    simp only [hop] at h
    cases hd : item? ctx.program.tables op.p1 with
    | none =>
      simp only [hd] at h
      cases h
    | some d =>
      simp only [hd] at h
      obtain ⟨i, hi, hd⟩ := item?_eq_some_iff.mp hd
      obtain ⟨t, ht, h⟩ := (looksUp_ofTable _).bind_ok h
      obtain ⟨rfl, rfl⟩ := EStateM.Result.ok.inj h
      simp only [setItem_eq hi]
      exact ⟨.created i d t hop hi hd ht, d, rfl⟩
  | addIndex =>
    simp only [hop] at h
    obtain ⟨columns, hoperand, h⟩ := (looksUp_ordinalsOperand op).bind_ok h
    obtain ⟨u, hchange, rfl⟩ := bind_pure_eq_ok.mp h
    obtain ⟨i, t, t', hi, ht, ht', rfl⟩ := changeTable_eq_ok hchange
    exact ⟨.indexed i t t' columns m.frame hop hi ht ht', columns, t, hoperand, item?_eq_some_iff.mpr ⟨i, hi, ht⟩,
      (Table.addIndex_eq_ok ht').1⟩
  | makeRecord =>
    simp only [hop] at h
    obtain ⟨types, hoperand, h⟩ := (looksUp_typesOperand op).bind_ok h
    obtain ⟨values, frame, h⟩ := (Local.onFrame _).bind_ok h
    obtain ⟨u, hchange, rfl⟩ := bind_pure_eq_ok.mp h
    obtain ⟨i, t, t', hi, ht, ht', rfl⟩ := changeTable_eq_ok hchange
    exact ⟨.appended i t t' values frame (.inl ⟨hop, hi⟩) ht ht', ⟨types, hoperand⟩, t,
      item?_eq_some_iff.mpr ⟨i, hi, ht⟩⟩
  | copyRow =>
    simp only [hop] at h
    obtain ⟨row, hcurrent, h⟩ := (looksUp_currentRow _).bind_ok h
    obtain ⟨u, hchange, rfl⟩ := bind_pure_eq_ok.mp h
    obtain ⟨i, t, t', hi, ht, ht', rfl⟩ := changeTable_eq_ok hchange
    exact ⟨.appended i t t' row m.frame (.inr ⟨hop, hi⟩) ht ht', ⟨row, hcurrent⟩, t, item?_eq_some_iff.mpr ⟨i, hi, ht⟩⟩
  | _ => exact ⟨hstill (by rw [hop]; rfl), trivial⟩

/-! ### Failures -/

section Failures

variable {ctx : RunContext} {op : Instruction}

theorem failsEarly_openCursor (operand : Int) (c : Cursor) : FailsEarly (openCursor operand c) :=
  .bind (looksUp_cursor operand).toLocal fun _ => .of_ok fun _ => ⟨_, _, rfl⟩

theorem failsEarly_changeTable (operand : Int) (change : Table → Except Error Table) :
    FailsEarly (changeTable operand change) :=
  .bind (looksUp_table operand).toLocal fun _ => .bind (looksUp_ofTable _).toLocal fun _ => .of_ok fun _ => ⟨_, _, rfl⟩

theorem failsEarly_selectGroup (ctx : RunContext) (operand : Int) (j : Nat) : FailsEarly (selectGroup ctx operand j) :=
  .bind (looksUp_grouping operand ctx).toLocal fun _ => .bind (looksUp_groupsOf operand).toLocal fun _ => .of_ok fun _ => ⟨_, _, rfl⟩

theorem failsEarly_enterGroup (ctx : RunContext) (operand : Int) (key : Key) : FailsEarly (enterGroup ctx operand key) := by
  refine .bind (looksUp_grouping operand ctx).toLocal fun d => .bind ?_ fun m => .bind (looksUp_groupsOf operand).toLocal fun g => ?_
  · exact (LooksUp.of_cases (R := fun _ _ => True) fun m => .inl ⟨m, rfl, trivial⟩).toLocal
  · cases g.groups.findIdx? fun group => group.key.same key <;> exact .of_ok fun _ => ⟨_, _, rfl⟩

/-- All instructions but those that move a cursor on fail before they act. -/
theorem failsEarly_exec (ctx : RunContext) {op : Instruction} (hop : op.opcode ≠ .next) : FailsEarly (exec ctx op) := by
  by_cases hacts : op.opcode.acts = false
  · exact (local_exec ctx hacts).toFailsEarly
  obtain ⟨opcode, p1, p2, p3, operand, comment⟩ := op
  cases opcode with
  | openSource =>
    unfold exec
    dsimp only
    split
    · exact (FailsEarly.map (Local.throw _).toFailsEarly)
    · exact .bind (.ofExcept _) fun _ => (failsEarly_openCursor _ _).map
  | openTable => exact .bind (looksUp_table _).toLocal fun _ => (failsEarly_openCursor _ _).map
  | resetGroups => exact .bind (looksUp_groupsOf _).toLocal fun _ => .of_ok fun _ => ⟨_, _, rfl⟩
  | groupKey => exact .bind (looksUp_typesOperand _).toLocal fun _ => .bind (.onFrame _) fun _ => (failsEarly_enterGroup _ _ _).map
  | accumulate =>
    exact .bind (looksUp_typesOperand _).toLocal fun _ => .bind (.onFrame _) fun _ => .bind (looksUp_currentGroup _).toLocal fun _ =>
      .bind (looksUp_accumulator _ _).toLocal fun _ => .bind (.ofExcept _) fun _ => .bind (looksUp_groupsOf _).toLocal fun _ =>
        .of_ok fun _ => ⟨_, _, rfl⟩
  | rewindGroups =>
    refine .bind (looksUp_groupsOf _).toLocal fun g => ?_
    split
    · exact (Local.pure _).toFailsEarly
    · exact (failsEarly_selectGroup _ _ _).map
  | nextGroup =>
    rw [exec_nextGroup_eq ctx rfl]
    refine .bind (looksUp_groupsOf _).toLocal fun g => ?_
    split
    · exact (failsEarly_selectGroup _ _ _).map
    · exact (Local.pure _).toFailsEarly
  | createTable =>
    unfold exec
    dsimp only
    split
    · exact (FailsEarly.map (Local.throw _).toFailsEarly)
    · exact .bind (looksUp_ofTable _).toLocal fun _ => .of_ok fun _ => ⟨_, _, rfl⟩
  | addIndex => exact .bind (looksUp_ordinalsOperand _).toLocal fun _ => (failsEarly_changeTable _ _).map
  | makeRecord => exact .bind (looksUp_typesOperand _).toLocal fun _ => .bind (.onFrame _) fun _ => (failsEarly_changeTable _ _).map
  | copyRow => exact .bind (looksUp_currentRow _).toLocal fun _ => (failsEarly_changeTable _ _).map
  | next => exact absurd rfl hop
  | _ => exact absurd rfl hacts

theorem advance_error {operand : Int} {m m' : Machine} {e : Error} (hadvance : advance operand m = .error e m') :
    m.FrameOnly m' ∨ ∃ i rows columns, m.cursors[i]? = some (.source rows columns) ∧ m' = { m with
      cursors := m.cursors.set i (.source (rows.pull m.cancelled).rest columns)
      cancelled := (rows.pull m.cancelled).cancelled } := by
  rcases bind_eq_error.mp hadvance with hlook | ⟨c, m₁, hlook, h⟩
  · exact .inl ((looksUp_cursor operand).toLocal.error hlook)
  obtain ⟨hitem, rfl⟩ := (looksUp_cursor _).ok hlook
  obtain ⟨i, hi, hc⟩ := item?_eq_some_iff.mp hitem
  cases c with
  | closed => exact .inl ((Local.throw _).error h)
  | source rows columns =>
    refine .inr ⟨i, rows, columns, hc, ?_⟩
    simp only [bind_apply, get_apply, setCursor, modify_apply, setItem_eq hi] at h
    cases hpull : (rows.pull m.cancelled).item with
    | none =>
      simp only [hpull] at h
      cases h
    | some item =>
      cases item with
      | error e =>
        simp only [hpull] at h
        obtain ⟨-, rfl⟩ := EStateM.Result.error.inj h
        rfl
      | ok r =>
        simp only [hpull, map_apply, ofExcept_apply] at h
        cases hrow : r.materialize columns with
        | ok row =>
          simp only [hrow] at h
          cases h
        | error e' =>
          simp only [hrow] at h
          obtain ⟨-, rfl⟩ := EStateM.Result.error.inj h
          rfl
  | table n following =>
    left
    rcases bind_eq_error.mp h with htable | ⟨t, m₁, htable, h⟩
    · exact (looksUp_table _).toLocal.error htable
    obtain ⟨-, rfl⟩ := (looksUp_table _).ok htable
    cases hrow : t.rows[following]? <;> simp only [hrow] at h <;> cases h

/-- An instruction that fails has changed nothing but stacks and registers, or it has taken an item from the source
of a cursor, and the flag may have gone up. -/
theorem exec_error {m m' : Machine} {e : Error} (hexec : exec ctx op m = .error e m') : m.FrameOnly m' ∨
    ∃ i rows columns, m.cursors[i]? = some (.source rows columns) ∧ m' = { m with
      cursors := m.cursors.set i (.source (rows.pull m.cancelled).rest columns)
      cancelled := (rows.pull m.cancelled).cancelled } := by
  by_cases hop : op.opcode = .next
  · unfold exec at hexec
    simp only [hop] at hexec
    rcases bind_eq_error.mp hexec with hcheck | ⟨u, m₁, hcheck, hexec⟩
    · exact .inl (looksUp_checkCancelled.toLocal.error hcheck)
    obtain ⟨-, rfl⟩ := looksUp_checkCancelled.ok hcheck
    rcases bind_eq_error.mp hexec with hadvance | ⟨row, m₁, -, hexec⟩
    · exact advance_error hadvance
    · cases hexec
  · exact .inl ((failsEarly_exec ctx hop).error hexec)

end Failures

/-! ### Steps -/

/-- The address to which an instruction leads from its own. -/
def following (op : Instruction) (flow : Flow) (address : Option Nat) : Option Nat :=
  match flow with
  | .jump => place? op.p2
  | _ => address.map (· + 1)

section Steps

variable {ctx : RunContext} {p : Procedure} {m m' : Machine} {flow : Flow}

theorem step_eq_ok (h : step ctx p m = .ok flow m') : ∃ op m₁, fetch? p m = some op ∧
    exec ctx op { m with count := m.count + 1 } = .ok flow m₁ ∧
    m' = { m₁ with address := following op flow m₁.address } := by
  replace h := eq_ok_of_bind h rfl
  cases hop : fetch? p m with
  | none =>
    simp only [hop] at h
    cases h
  | some op =>
    simp only [hop] at h
    obtain ⟨u, m₁, hcount, h⟩ := bind_eq_ok.mp h
    rw [countInstruction_apply] at hcount
    split at hcount <;> cases hcount
    obtain ⟨flow', m₂, hexec, h⟩ := bind_eq_ok.mp h
    obtain ⟨u', hgo, rfl⟩ := bind_pure_eq_ok.mp h
    obtain ⟨-, rfl⟩ := EStateM.Result.ok.inj hgo
    exact ⟨op, m₂, rfl, hexec, rfl⟩

/-- A step fails because there is no instruction, because of the limit, or because the instruction fails. -/
theorem step_eq_error {e : Error} (h : step ctx p m = .error e m') :
    m' = m ∨ m' = { m with count := m.count + 1 } ∨
      ∃ op, fetch? p m = some op ∧ exec ctx op { m with count := m.count + 1 } = .error e m' := by
  rcases bind_eq_error.mp h with hget | ⟨m₀, m₁, hget, h⟩
  · cases hget
  cases hget
  cases hop : fetch? p m with
  | none =>
    simp only [hop] at h
    obtain ⟨-, rfl⟩ := EStateM.Result.error.inj h
    exact .inl rfl
  | some op =>
    simp only [hop] at h
    rcases bind_eq_error.mp h with hcount | ⟨u, m₁, hcount, h⟩
    · rw [countInstruction_apply] at hcount
      split at hcount <;> cases hcount
      exact .inr (.inl rfl)
    rw [countInstruction_apply] at hcount
    split at hcount <;> cases hcount
    rcases bind_eq_error.mp h with hexec | ⟨flow', m₂, -, h⟩
    · exact .inr (.inr ⟨op, rfl, hexec⟩)
    · cases h

theorem runCode_invariant {I : Machine → Prop} (hstep : ∀ {m flow m'}, I m → step ctx p m = .ok flow m' → I m')
    {fuel : Nat} {through : Bool} (hrun : runCode ctx p fuel m = .ok through m') (h : I m) : I m' := by
  induction fuel generalizing m with
  | zero =>
    obtain ⟨-, rfl⟩ := pure_eq_ok.mp hrun
    exact h
  | succ fuel ih =>
    obtain ⟨flow, m₁, hfirst, hrest⟩ := bind_eq_ok.mp hrun
    have h₁ := hstep h hfirst
    cases flow with
    | halt =>
      obtain ⟨-, rfl⟩ := pure_eq_ok.mp hrest
      exact h₁
    | next => exact ih hrest h₁
    | jump => exact ih hrest h₁

theorem runProcedure_eq_ok {fuel : Nat} {through : Bool} (hrun : runProcedure ctx fuel p m = .ok through m') :
    runCode ctx p fuel { m with address := some 0 } = .ok through m' := by
  obtain ⟨u, -, hrun⟩ := looksUp_checkCancelled.bind_ok hrun
  obtain ⟨u', m₂, hstart, hrun⟩ := bind_eq_ok.mp hrun
  obtain ⟨-, rfl⟩ := EStateM.Result.ok.inj hstart
  exact hrun

end Steps

end Machine

end TabularQuery
