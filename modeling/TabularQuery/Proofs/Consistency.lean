import TabularQuery.Proofs.Effects
import TabularQuery.Proofs.ProgramRun

/-!
What holds of the machine in every run of every program, whether or not anything sensible was compiled to it. Its
lists keep the lengths that the program declares, the groups of a grouping are found by their keys and shaped as
declared, and each table has its declared columns and rows that fit them. So the places that an instruction goes to
without a look at the length of a list are there, and an operand that names nothing is an error.
-/

namespace TabularQuery

/-! ### Groups -/

namespace Groups

/-- The place of the group of a key. -/
def byKey? (g : Groups) (key : Key) : Option Nat := g.groups.findIdx? fun group => group.key.same key

/-- Groups as a grouping declares them: the current one is there, no two have the same key, and each has an
accumulator for each slot and a row for each cursor. -/
structure Consistent (d : GroupingDeclaration) (g : Groups) : Prop where
  current : ∀ i, g.current = some i → i < g.groups.length
  distinct : (g.groups.map Group.key).Pairwise fun a b => a.same b = false
  accumulators : ∀ group ∈ g.groups, group.accumulators.length = d.slots.length
  rows : ∀ group ∈ g.groups, group.rows.length = d.cursors.length

variable {d : GroupingDeclaration} {g : Groups}

theorem consistent_nil (d : GroupingDeclaration) : Consistent d ⟨[], none⟩ :=
  ⟨nofun, .nil, nofun, nofun⟩

/-- Keys and groups belong to each other one to one. -/
theorem Consistent.byKey?_eq_some_iff (h : g.Consistent d) {key : Key} {i : Nat} :
    g.byKey? key = some i ↔ ∃ group, g.groups[i]? = some group ∧ group.key.same key = true := by
  rw [byKey?, List.findIdx?_eq_some_iff_getElem]
  constructor
  · rintro ⟨hi, hsame, -⟩
    exact ⟨g.groups[i], List.getElem?_eq_getElem hi, hsame⟩
  · rintro ⟨group, hgroup, hsame⟩
    obtain ⟨hi, rfl⟩ := List.getElem?_eq_some_iff.mp hgroup
    refine ⟨hi, hsame, fun j hj hsame' => ?_⟩
    -- two groups with this key would have the same key
    have hdistinct := List.pairwise_iff_getElem.mp h.distinct j i (by simp; omega) (by simpa using hi) hj
    rw [List.getElem_map, List.getElem_map, Key.same_congr hsame', Key.same_comm, hsame] at hdistinct
    cases hdistinct

theorem Consistent.select (h : g.Consistent d) {i : Nat} (hi : i < g.groups.length) :
    Consistent d { g with current := some i } where
  current j hj := by
    cases hj
    exact hi
  distinct := h.distinct
  accumulators := h.accumulators
  rows := h.rows

theorem Consistent.add (h : g.Consistent d) {group : Group} (hnew : g.byKey? group.key = none)
    (haccumulators : group.accumulators.length = d.slots.length) (hrows : group.rows.length = d.cursors.length) :
    Consistent d ⟨g.groups ++ [group], some g.groups.length⟩ where
  current i hi := by
    cases hi
    simp
  distinct := by
    rw [List.map_append, List.pairwise_append]
    refine ⟨h.distinct, List.pairwise_singleton _ _, fun key hkey key' hkey' => ?_⟩
    obtain ⟨old, hold, rfl⟩ := List.mem_map.mp hkey
    obtain rfl := List.mem_singleton.mp hkey'
    exact eq_false_of_ne_true (List.findIdx?_eq_none_iff.mp hnew old hold ▸ Bool.false_ne_true)
  accumulators other hother := by
    rcases List.mem_append.mp hother with hold | hnew
    · exact h.accumulators other hold
    · rw [List.mem_singleton.mp hnew, haccumulators]
  rows other hother := by
    rcases List.mem_append.mp hother with hold | hnew
    · exact h.rows other hold
    · rw [List.mem_singleton.mp hnew, hrows]

theorem Consistent.set (h : g.Consistent d) {i : Nat} {group group' : Group} (hi : g.groups[i]? = some group)
    (hkey : group'.key = group.key) (haccumulators : group'.accumulators.length = d.slots.length)
    (hrows : group'.rows.length = d.cursors.length) : Consistent d { g with groups := g.groups.set i group' } where
  current j hj := by
    rw [List.length_set]
    exact h.current j hj
  distinct := by
    have hkeys : (g.groups.set i group').map Group.key = g.groups.map Group.key := by
      refine List.ext_getElem? fun j => ?_
      rw [List.getElem?_map, List.getElem?_map]
      by_cases hj : i = j
      · subst hj
        rw [List.getElem?_set_self (List.getElem?_eq_some_iff.mp hi).1, hi, Option.map_some, Option.map_some, hkey]
      · rw [List.getElem?_set_ne hj]
    exact hkeys ▸ h.distinct
  accumulators other hother := by
    rcases List.mem_or_eq_of_mem_set hother with hold | rfl
    · exact h.accumulators other hold
    · exact haccumulators
  rows other hother := by
    rcases List.mem_or_eq_of_mem_set hother with hold | rfl
    · exact h.rows other hold
    · exact hrows

end Groups

namespace Machine

/-- The machine is as the program declares it. -/
structure Consistent (program : Program) (m : Machine) : Prop where
  cursors : m.cursors.length = program.cursorCount
  rows : m.rows.length = program.cursorCount
  groups : List.Forall₂ Groups.Consistent program.groupings m.groups
  tables : List.Forall₂ (fun d t => ∀ t', t = some t' → Table.Fits t' d.columns) program.tables m.tables

section Consistent

variable {ctx : RunContext} {program : Program} {op : Instruction} {m m' : Machine} {flow : Flow}

theorem forall₂_set {α β : Type} {R : α → β → Prop} {xs : List α} {ys : List β} (h : List.Forall₂ R xs ys) {i : Nat}
    {y : β} (hy : ∀ x, xs[i]? = some x → R x y) : List.Forall₂ R xs (ys.set i y) := by
  induction h generalizing i with
  | nil => exact .nil
  | cons hx hrest ih =>
    cases i with
    | zero => exact .cons (hy _ rfl) hrest
    | succ i => exact .cons hx (ih hy)

theorem forall₂_getElem? {α β : Type} {R : α → β → Prop} {xs : List α} {ys : List β} (h : List.Forall₂ R xs ys) {i : Nat}
    {x : α} {y : β} (hx : xs[i]? = some x) (hy : ys[i]? = some y) : R x y := by
  obtain ⟨hlt, rfl⟩ := List.getElem?_eq_some_iff.mp hx
  obtain ⟨hlt', rfl⟩ := List.getElem?_eq_some_iff.mp hy
  exact List.forall₂_iff_get.mp h |>.2 i hlt hlt'

theorem forall₂_replicate {α β : Type} {R : α → β → Prop} {xs : List α} {y : β} (h : ∀ x, R x y) :
    List.Forall₂ R xs (List.replicate xs.length y) := by
  induction xs with
  | nil => exact .nil
  | cons x xs ih => exact .cons (h x) ih

theorem consistent_init (program : Program) (cancelled : Bool) : (init program cancelled).Consistent program where
  cursors := List.length_replicate
  rows := List.length_replicate
  groups := forall₂_replicate fun d => Groups.consistent_nil d
  tables := forall₂_replicate fun _ _ => nofun

theorem Consistent.congr (h : m.Consistent program) (hcursors : m'.cursors.length = m.cursors.length)
    (hrows : m'.rows.length = m.rows.length) (hgroups : m'.groups = m.groups) (htables : m'.tables = m.tables) :
    m'.Consistent program :=
  ⟨hcursors.trans h.cursors, hrows.trans h.rows, hgroups ▸ h.groups, htables ▸ h.tables⟩

theorem length_restored (saved : List (Nat × Option (List Value))) (rows : List (Option (List Value))) :
    (saved.foldl (fun rows (c, row) => rows.set c row) rows).length = rows.length := by
  induction saved generalizing rows with
  | nil => rfl
  | cons x saved ih => rw [List.foldl_cons, ih, List.length_set]

/-- Whatever an instruction does, the machine stays as it is declared. -/
theorem Effect.consistent (heffect : Effect ctx op m flow m') (h : m.Consistent ctx.program) :
    m'.Consistent ctx.program := by
  have hgroups {i : Nat} {g : Groups} (hg : ∀ d, ctx.program.groupings[i]? = some d → g.Consistent d) :=
    forall₂_set h.groups hg
  have htables {i : Nat} {t : Table} (ht : ∀ d, ctx.program.tables[i]? = some d → t.Fits d.columns) :
      List.Forall₂ (fun d t => ∀ t', t = some t' → Table.Fits t' d.columns) ctx.program.tables
        (m.tables.set i (some t)) :=
    forall₂_set h.tables fun d hd t' ht' => Option.some.inj ht' ▸ ht d hd
  cases heffect with
  | still => exact h.congr rfl rfl rfl rfl
  | openedSource | openedTable | pulled | drained | scanned => exact h.congr List.length_set List.length_set rfl rfl
  | passed => exact h.congr rfl List.length_set rfl rfl
  | reset => exact ⟨h.cursors, h.rows, hgroups fun d _ => Groups.consistent_nil d, h.tables⟩
  | met i g key j f hop hi hg hj =>
    refine ⟨h.cursors, h.rows, hgroups fun d hd => ?_, h.tables⟩
    exact (forall₂_getElem? h.groups hd hg).select (List.findIdx?_eq_some_iff_getElem.mp hj).1
  | founded i d g key f hop hi hd hg hnew =>
    refine ⟨h.cursors, h.rows, hgroups fun d' hd' => ?_, h.tables⟩
    rw [hd] at hd'
    cases hd'
    exact (forall₂_getElem? h.groups hd hg).add hnew (by simp) (by simp)
  | accumulated i g j group slot a f hop hi hg hj =>
    refine ⟨h.cursors, h.rows, hgroups fun d hd => ?_, h.tables⟩
    have hold := forall₂_getElem? h.groups hd hg
    have hmem := List.mem_of_getElem? hj
    exact hold.set hj rfl (by rw [List.length_set, hold.accumulators group hmem]) (hold.rows group hmem)
  | selected flow i d g j group hop hi hg hj =>
    refine ⟨h.cursors, (length_restored _ _).trans h.rows, hgroups fun d hd => ?_, h.tables⟩
    exact (forall₂_getElem? h.groups hd hg).select (List.getElem?_eq_some_iff.mp hj).1
  | created i d t hop hi hd ht =>
    refine ⟨h.cursors, h.rows, h.groups, htables fun d' hd' => ?_⟩
    rw [hd] at hd'
    cases hd'
    rw [Table.withColumns_eq_ok ht]
    exact ⟨rfl, nofun, nofun⟩
  | indexed i t t' columns f hop hi ht ht' =>
    refine ⟨h.cursors, h.rows, h.groups, htables fun d hd => ?_⟩
    rw [(Table.addIndex_eq_ok ht').2]
    exact (forall₂_getElem? h.tables hd ht t rfl).withIndex columns
  | appended i t t' row f hop ht ht' =>
    refine ⟨h.cursors, h.rows, h.groups, htables fun d hd => ?_⟩
    have hold := forall₂_getElem? h.tables hd ht t rfl
    obtain ⟨hrow, rfl⟩ := Table.add_eq_ok ht'
    exact hold.push (hold.columns ▸ hrow)

theorem Consistent.declared (h : m.Consistent program) {k : Nat} {g : Groups} (hg : m.groups[k]? = some g) :
    ∃ d, program.groupings[k]? = some d := by
  refine ⟨_, List.getElem?_eq_getElem ?_⟩
  rw [h.groups.length_eq]
  exact (List.getElem?_eq_some_iff.mp hg).1

theorem Consistent.current_lt (h : m.Consistent program) {operand : Int} {g : Groups} {i : Nat}
    (hg : item? m.groups operand = some g) (hi : g.current = some i) : i < g.groups.length := by
  obtain ⟨k, -, hg⟩ := item?_eq_some_iff.mp hg
  obtain ⟨d, hd⟩ := h.declared hg
  exact (forall₂_getElem? h.groups hd hg).current i hi

theorem Consistent.failed (h : m.Consistent program) {e : Error} (hexec : exec ctx op m = .error e m') :
    m'.Consistent program := by
  rcases exec_error hexec with hframe | ⟨i, rows, columns, -, rfl⟩
  · unfold FrameOnly at hframe
    rw [hframe]
    exact h.congr rfl rfl rfl rfl
  · exact h.congr List.length_set rfl rfl rfl

end Consistent

/-! ### Steps and runs -/

section Runs

variable {ctx : RunContext} {p : Procedure} {m m' : Machine} {flow : Flow}

theorem Consistent.stepped (h : m.Consistent ctx.program) (hstep : step ctx p m = .ok flow m') :
    m'.Consistent ctx.program := by
  obtain ⟨op, m₁, -, hexec, rfl⟩ := step_eq_ok hstep
  have hcounted : Consistent ctx.program { m with count := m.count + 1 } := h.congr rfl rfl rfl rfl
  exact ((exec_ok hexec).1.consistent hcounted).congr rfl rfl rfl rfl

theorem Consistent.stopped (h : m.Consistent ctx.program) {e : Error} (hstep : step ctx p m = .error e m') :
    m'.Consistent ctx.program := by
  have hcounted : Consistent ctx.program { m with count := m.count + 1 } := h.congr rfl rfl rfl rfl
  rcases step_eq_error hstep with rfl | rfl | ⟨op, -, hexec⟩
  · exact h
  · exact hcounted
  · exact hcounted.failed hexec

theorem Consistent.runProcedure (h : m.Consistent ctx.program) {fuel : Nat} {through : Bool}
    (hrun : runProcedure ctx fuel p m = .ok through m') : m'.Consistent ctx.program :=
  runCode_invariant (I := Consistent ctx.program) Consistent.stepped (runProcedure_eq_ok hrun) (h.congr rfl rfl rfl rfl)

theorem Consistent.runProcedures (h : m.Consistent ctx.program) {procedures : List Procedure} {fuel : Nat} {through : Bool}
    (hrun : runProcedures ctx fuel procedures m = .ok through m') : m'.Consistent ctx.program := by
  induction procedures generalizing m with
  | nil =>
    obtain ⟨-, rfl⟩ := pure_eq_ok.mp hrun
    exact h
  | cons p procedures ih =>
    obtain ⟨through', m₁, hfirst, hrest⟩ := bind_eq_ok.mp hrun
    have h₁ := h.runProcedure hfirst
    cases through' with
    | true => exact ih h₁ hrest
    | false =>
      obtain ⟨-, rfl⟩ := pure_eq_ok.mp hrest
      exact h₁

end Runs

end Machine

/-- Every state of every run is as the program declares it. -/
theorem RunContext.Visits.consistent {ctx : RunContext} {cancelled : Bool} {p : Procedure} {m : Machine}
    (h : ctx.Visits cancelled p m) : m.Consistent ctx.program := by
  obtain ⟨before, after, fuel, m₀, steps, -, hbefore, hsteps⟩ := h
  exact ((Machine.consistent_init _ _).runProcedures hbefore).runProcedure hsteps

/-! ### Operands -/

namespace Instruction

open Machine

/-- The places to which the instruction goes without a look at the length of the list, each with that length: the row
of a cursor that is there, a table that is declared, the current group, and the group that becomes current. -/
def accesses (ctx : RunContext) (m : Machine) (op : Instruction) : List (Nat × Nat) :=
  match op.opcode with
  | .openSource | .openTable | .next =>
    (item? m.cursors op.p1).toList.map fun _ => (op.p1.toNat, m.rows.length)
  | .createTable => (item? ctx.program.tables op.p1).toList.map fun _ => (op.p1.toNat, m.tables.length)
  | .accumulate | .aggregateValue =>
    (item? m.groups op.p1).toList.flatMap fun g => g.current.toList.map fun i => (i, g.groups.length)
  | .rewindGroups =>
    (item? m.groups op.p1).toList.flatMap fun g => if g.groups.isEmpty then [] else [(0, g.groups.length)]
  | .nextGroup =>
    (item? m.groups op.p1).toList.flatMap fun g =>
      if g.following < g.groups.length then [(g.following, g.groups.length)] else []
  | _ => []

variable {ctx : RunContext} {m : Machine} {op : Instruction}

theorem toNat_lt_of_item? {α : Type} {xs : List α} {operand : Int} {x : α} (h : item? xs operand = some x) :
    operand.toNat < xs.length := by
  obtain ⟨i, hi, hx⟩ := item?_eq_some_iff.mp h
  rw [toNat_of_place? hi]
  exact (List.getElem?_eq_some_iff.mp hx).1

theorem accesses_lt (h : m.Consistent ctx.program) {access : Nat × Nat} (haccess : access ∈ op.accesses ctx m) :
    access.1 < access.2 := by
  unfold accesses at haccess
  split at haccess
  iterate 3
    obtain ⟨c, hc, rfl⟩ := List.mem_map.mp haccess
    have hlt := toNat_lt_of_item? (Option.mem_toList.mp hc)
    rwa [h.cursors, ← h.rows] at hlt
  · obtain ⟨d, hd, rfl⟩ := List.mem_map.mp haccess
    have hlt := toNat_lt_of_item? (Option.mem_toList.mp hd)
    rwa [h.tables.length_eq] at hlt
  iterate 2
    obtain ⟨g, hg, hcurrent⟩ := List.mem_flatMap.mp haccess
    obtain ⟨i, hi, rfl⟩ := List.mem_map.mp hcurrent
    exact h.current_lt (Option.mem_toList.mp hg) (Option.mem_toList.mp hi)
  · obtain ⟨g, hg, hfirst⟩ := List.mem_flatMap.mp haccess
    split at hfirst
    · cases hfirst
    · rename_i hsome
      obtain rfl := List.mem_singleton.mp hfirst
      exact List.length_pos_iff.mpr (by simpa using hsome)
  · obtain ⟨g, hg, hnext⟩ := List.mem_flatMap.mp haccess
    split at hnext
    · rename_i hlt
      obtain rfl := List.mem_singleton.mp hnext
      exact hlt
    · cases hnext
  · cases haccess

end Instruction

end TabularQuery
