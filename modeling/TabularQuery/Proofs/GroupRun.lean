import TabularQuery.Proofs.Gathering
import TabularQuery.Proofs.QueryRun

/-!
Procedures of grouped queries. The nested loops have the gathering of groups as their body; then a second
loop goes over the groups, puts the rows that each one keeps back under the cursors, and writes those that
HAVING lets pass. The table then holds what `BoundQuery.output` says.
-/

namespace TabularQuery

namespace Machine

/-! ### Instructions on groups -/

section Instructions

variable (ctx : RunContext) {m : Machine} {k : Nat} {g : Groups} {d : GroupingDeclaration}

theorem groupsOf_apply (h : m.groups[k]? = some g) : groupsOf (k : Int) m = .ok g m := by
  simp [groupsOf, item?, h]

theorem grouping_apply {ctx : RunContext} (h : ctx.program.groupings[k]? = some d) (m : Machine) :
    grouping ctx (k : Int) m = .ok d m := by
  simp [grouping, item?, h]

theorem setGroups_apply (m : Machine) (g : Groups) :
    setGroups (k : Int) g m = .ok ⟨⟩ { m with groups := m.groups.set k g } := by
  simp [setGroups, setItem]

theorem exec_resetGroups (h : m.groups[k]? = some g) :
    exec ctx { opcode := .resetGroups, p1 := k } m =
      .ok .next { m with groups := m.groups.set k ⟨[], none⟩ } := by
  simp only [exec, bind_apply, groupsOf_apply h, setGroups_apply, pure_apply]

/-- The group of the key that is taken from the stacks becomes current. -/
def enterKey (ctx : RunContext) (grouping : Int) (width : Nat) (values : List Value) : MachineAction Flow := do
  enterGroup ctx grouping ⟨values, List.range width⟩
  return .next

theorem enterKey_apply {ctx : RunContext} (hd : ctx.program.groupings[k]? = some d)
    (h : m.groups[k]? = some g) (values : List Value) (width : Nat) :
    enterKey ctx (k : Int) width values m =
      let entered := (d.fresh ⟨values, List.range width⟩ (m.scene k)).enter g.groups
      .ok .next { m with groups := m.groups.set k ⟨entered.2, some entered.1⟩ } := by
  simp only [enterKey, bind_apply, pure_apply, enterGroup, grouping_apply hd, get_apply, groupsOf_apply h]
  unfold Group.enter
  cases hfind : g.groups.findIdx? fun group => group.key.same ⟨values, List.range width⟩ with
  | none =>
    simp only [GroupingDeclaration.fresh, hfind, setGroups_apply, scene]
  | some i =>
    simp only [GroupingDeclaration.fresh, hfind, setGroups_apply]

variable {i : Nat} {group : Group}

theorem currentGroup_apply (h : m.groups[k]? = some g) (hcurrent : g.current = some i)
    (hgroup : g.groups[i]? = some group) : currentGroup (k : Int) m = .ok (i, group) m := by
  simp only [currentGroup, bind_apply, groupsOf_apply h, hcurrent, Option.bind_some, hgroup,
    Option.map_some, pure_apply]

/-- The arguments that are taken from the stacks go into an accumulator of the current group. -/
def accumulateInto (grouping slot : Int) (args : List Value) : MachineAction Flow := do
  let (i, group) ← currentGroup grouping
  let a ← accumulator group slot
  let a ← MonadExcept.ofExcept (a.accumulate args)
  let g ← groupsOf grouping
  let group := { group with accumulators := setItem group.accumulators slot a }
  setGroups grouping { g with groups := g.groups.set i group }
  return .next

theorem accumulateInto_apply (h : m.groups[k]? = some g) (hcurrent : g.current = some i)
    (hgroup : g.groups[i]? = some group) {slot : Nat} (hslot : slot < group.accumulators.length)
    (args : List Value) :
    accumulateInto (k : Int) (slot : Int) args m =
      match group.fold slot args with
      | .ok group' => .ok .next { m with
          groups := m.groups.set k { g with groups := g.groups.set i group' } }
      | .error e => .error e m := by
  have hget : group.accumulators[slot]? = some group.accumulators[slot] := List.getElem?_eq_getElem hslot
  have hitem : item? group.accumulators (slot : Int) = some group.accumulators[slot] := by simp [item?, hget]
  simp only [accumulateInto, bind_apply, currentGroup_apply h hcurrent hgroup, accumulator, hitem, pure_apply,
    ofExcept_apply, Group.fold, hget]
  cases group.accumulators[slot].accumulate args with
  | error e => rfl
  | ok a =>
    simp only [groupsOf_apply h, setGroups_apply, setItem, place?_natCast]
    rfl

/-- The rows that a group keeps come back under its cursors. -/
def restore (saved : List (Nat × Option (List Value))) (rows : List (Option (List Value))) :
    List (Option (List Value)) :=
  saved.foldl (fun rows (c, row) => rows.set c row) rows

theorem selectGroup_apply {ctx : RunContext} (hd : ctx.program.groupings[k]? = some d)
    (h : m.groups[k]? = some g) (hgroup : g.groups[i]? = some group) :
    selectGroup ctx (k : Int) i m = .ok ⟨⟩ { m with
      groups := m.groups.set k { g with current := some i },
      rows := restore (d.cursors.zip group.rows) m.rows } := by
  simp only [selectGroup, bind_apply, grouping_apply hd, groupsOf_apply h, setGroups_apply, modify_apply,
    hgroup, Option.map_some, Option.getD_some]
  rfl

theorem exec_rewindGroups_nil (h : m.groups[k]? = some g) (hnil : g.groups = []) (target : Int) :
    exec ctx { opcode := .rewindGroups, p1 := k, p2 := target } m = .ok .jump m := by
  simp only [exec, bind_apply, groupsOf_apply h, hnil, List.isEmpty_nil, if_true, pure_apply]

theorem exec_rewindGroups {ctx : RunContext} (hd : ctx.program.groupings[k]? = some d)
    (h : m.groups[k]? = some g) (hgroup : g.groups[0]? = some group) (target : Int) :
    exec ctx { opcode := .rewindGroups, p1 := k, p2 := target } m = .ok .next { m with
      groups := m.groups.set k { g with current := some 0 },
      rows := restore (d.cursors.zip group.rows) m.rows } := by
  have hempty : g.groups.isEmpty = false := by
    cases hg : g.groups with
    | nil => simp [hg] at hgroup
    | cons => rfl
  simp only [exec, bind_apply, groupsOf_apply h, hempty, Bool.false_eq_true, if_false,
    selectGroup_apply hd h hgroup, pure_apply]

theorem exec_nextGroup {ctx : RunContext} (hd : ctx.program.groupings[k]? = some d)
    (h : m.groups[k]? = some g) (hcurrent : g.current = some i) (hgroup : g.groups[i + 1]? = some group)
    (target : Int) :
    exec ctx { opcode := .nextGroup, p1 := k, p2 := target } m = .ok .jump { m with
      groups := m.groups.set k { g with current := some (i + 1) },
      rows := restore (d.cursors.zip group.rows) m.rows } := by
  have hlt : i + 1 < g.groups.length := (List.getElem?_eq_some_iff.mp hgroup).1
  simp only [exec, bind_apply, groupsOf_apply h, hcurrent, if_pos hlt, selectGroup_apply hd h hgroup, pure_apply]

theorem exec_nextGroup_last (h : m.groups[k]? = some g) (hcurrent : g.current = some i)
    (hlast : g.groups.length ≤ i + 1) (target : Int) :
    exec ctx { opcode := .nextGroup, p1 := k, p2 := target } m = .ok .next m := by
  simp only [exec, bind_apply, groupsOf_apply h, hcurrent, if_neg (Nat.not_lt.mpr hlast), pure_apply]

end Instructions

theorem length_restore (saved : List (Nat × Option (List Value))) (rows : List (Option (List Value))) :
    (restore saved rows).length = rows.length := by
  induction saved generalizing rows with
  | nil => rfl
  | cons x saved ih => exact (ih _).trans List.length_set

theorem getElem?_restore (row? : Nat → Option (List Value)) (cursors : List Nat)
    (rows : List (Option (List Value))) {c : Nat} (hlt : c < rows.length) :
    (restore (cursors.zip (cursors.map row?)) rows)[c]? = if c ∈ cursors then some (row? c) else rows[c]? := by
  induction cursors generalizing rows with
  | nil => rfl
  | cons c' cursors ih =>
    have hstep : restore ((c' :: cursors).zip ((c' :: cursors).map row?)) rows =
        restore (cursors.zip (cursors.map row?)) (rows.set c' (row? c')) := rfl
    rw [hstep, ih _ (by rwa [List.length_set])]
    by_cases hmem : c ∈ cursors
    · rw [if_pos hmem, if_pos (List.mem_cons_of_mem _ hmem)]
    · rw [if_neg hmem]
      by_cases hc : c' = c
      · subst hc
        rw [if_pos List.mem_cons_self, List.getElem?_set_self hlt]
      · rw [List.getElem?_set_ne hc, if_neg]
        simp [hmem, Ne.symm hc]

/-! ### Gathering -/

section Gathering

open QueryCode

variable {ctx : RunContext} {p : Procedure} {m : Machine} {k start : Nat} {s : Scene}
variable {q : BoundQuery} {g : Grouping} {methods : BoundFunction → Prop} {groups : List Group} {r : Reader}

theorem setGroup_self {x : Groups} (h : m.groups[k]? = some x) : m.groups.set k x = m.groups := by
  obtain ⟨hlt, hget⟩ := List.getElem?_eq_some_iff.mp h
  rw [← hget, List.set_getElem_self]

/-- The instruction that folds the arguments of an aggregate. -/
def accumulateInstruction (k : Nat) (a : AggregateSlot) : Instruction where
  opcode := .accumulate
  p1 := k
  p2 := a.slot
  p3 := a.args.length
  operand := .types a.accumulator.params
  comment := some a.accumulator.name

/-- The scene is folded into the accumulators of the current group, one after the other. -/
theorem runs_accumulate (hlimit : ctx.limit = 0) {v : Sight} (hr : r.Runs ctx p v.methods)
    (hv : v.slots = []) (hs : s.Fits v.bare) {i n : Nat} (hi : i < groups.length) (slots : List AggregateSlot)
    (hslots : ∀ a ∈ slots, TypedExpr.AllWellTyped v a.args ∧
      ColumnType.AcceptsAll a.accumulator.params (a.args.map TypedExpr.type) ∧ a.slot < n) :
    ∀ (group : Group) (start : Nat) (m : Machine), group.accumulators.length = n →
      m.groups[k]? = some ⟨groups.set i group, some i⟩ → Shows v s m → m.frame.isClear = true →
      p.HasCode start (accumulateCode k slots start) → m.address = some start →
      Runs ctx p (Safe p) m (r.foldAll s slots group) fun group' m₁ => ∃ count, m₁ = { m with
        groups := m.groups.set k ⟨groups.set i group', some i⟩,
        address := some (start + accumulateSize slots), count } := by
  induction slots with
  | nil =>
    intro group start m _ hgroups _ _ _ haddr
    refine Runs.ok ⟨m.count, ?_⟩
    rw [setGroup_self hgroups, accumulateSize, Nat.add_zero, ← haddr]
  | cons a slots ih =>
    intro group start m hlen hgroups hshows hclear hcode haddr
    obtain ⟨hargs, haccepts, hslot⟩ := hslots a List.mem_cons_self
    have hop := hcode.left.right.head
    have hrest := hcode.right
    rw [List.length_append, List.length_singleton, ← Nat.add_assoc] at hrest
    rw [TypedExpr.length_codes] at hop hrest
    have hexec : exec ctx (accumulateInstruction k a) =
        (onFrame (Frame.popValues a.accumulator.params) >>= accumulateInto k a.slot) := rfl
    have hrun := hr.arguments rfl hargs haccepts (hshows.fits hv hs k) hclear hcode.left.left hop rfl hexec haddr
    rw [← hr.arguments_congr hargs hs (hshows.agree hv k)] at hrun
    refine Runs.bind hrun ?_
    rintro values m₁ - ⟨haddr₁, c, hfetched⟩
    have hlt : k < m.groups.length := (List.getElem?_eq_some_iff.mp hgroups).1
    rw [accumulateInto_apply (m := { m with
      address := some (start + TypedExpr.codesSize a.args), count := c }) hgroups rfl
      (List.getElem?_set_self hi) (hlen ▸ hslot)] at hfetched
    cases hfold : group.fold a.slot values with
    | error e =>
      rw [hfold] at hfetched
      exact Runs.fail hlimit haddr₁ hop (safe_of_isPlain haddr₁ hop rfl) hfetched
    | ok group' =>
      rw [hfold] at hfetched
      refine Runs.next hlimit haddr₁ hop (safe_of_isPlain haddr₁ hop rfl) hfetched rfl ?_
      simp only [List.set_set]
      refine (ih (fun a' ha' => hslots a' (List.mem_cons_of_mem _ ha')) group' _ { m with
        groups := m.groups.set k ⟨groups.set i group', some i⟩,
        address := some (start + TypedExpr.codesSize a.args + 1), count := c }
        ((Group.length_fold hfold).trans hlen) (List.getElem?_set_self hlt) hshows hclear hrest rfl).mono (fun _ => id) ?_
      rintro group'' _ - ⟨count, rfl⟩
      refine ⟨count, ?_⟩
      simp only [List.set_set, accumulateSize]
      congr 2
      omega

theorem fresh_congr (hshows : Shows (Sight.ofSources q.sources methods []) s m) (key : Key) :
    (Generate.groupingDeclaration q g).fresh key (m.scene k) =
      (Generate.groupingDeclaration q g).fresh key s := by
  have hrows : (q.sources.map BoundSource.cursor).map (m.scene k).row? =
      (q.sources.map BoundSource.cursor).map s.row? := by
    refine List.map_congr_left fun c hc => ?_
    obtain ⟨b, hb, rfl⟩ := List.mem_map.mp hc
    exact hshows (b.cursor, b.columns) (List.mem_map_of_mem hb)
  simp only [GroupingDeclaration.fresh, Generate.groupingDeclaration, hrows]

/-- The instruction that enters the group of the key on the stacks. -/
def keyInstruction (k : Nat) (g : Grouping) : Instruction :=
  { opcode := .groupKey, p1 := k, p3 := g.keys.length, operand := .types (g.keys.map TypedExpr.type) }

section Row

variable {current : Option Nat} (hlimit : ctx.limit = 0) (hr : r.Runs ctx p methods) (hgathers : q.Gathers g methods)
variable (hgrouping : ctx.program.groupings[k]? = some (Generate.groupingDeclaration q g))
variable (hgroups : m.groups[k]? = some ⟨groups, current⟩) (hfits : ∀ group ∈ groups, group.Fits q fun _ => False)
variable (hshows : Shows (Sight.ofSources q.sources methods []) s m)
variable (hs : s.Fits (Sight.ofSources q.sources methods []).bare) (hclear : m.frame.isClear = true)

include hlimit hr hgathers hgrouping hgroups hfits hshows hs hclear

/-- The key leads to a group, which may be new, and the row goes into the group's accumulators. -/
theorem runs_change {values : List Value} {m₁ : Machine}
    (hfetched : Fetched ctx (keyInstruction k g) (enterKey ctx k g.keys.length) m start values m₁)
    (hcode : p.HasCode start (keyInstruction k g :: accumulateCode k q.slots (start + 1))) :
    Runs ctx p (Safe p) m₁ (Group.change
      ((Generate.groupingDeclaration q g).fresh ⟨values, List.range g.keys.length⟩ s)
      (r.foldAll s q.slots) groups) fun groups' m₂ => ∃ i count, m₂ = { m with
        groups := m.groups.set k ⟨groups', some i⟩,
        address := some (start + 1 + accumulateSize q.slots), count } := by
  obtain ⟨fresh, hfresh⟩ : ∃ x, (Generate.groupingDeclaration q g).fresh
    ⟨values, List.range g.keys.length⟩ s = x := ⟨_, rfl⟩
  obtain ⟨group, hget, hchange⟩ := Group.change_eq fresh groups
  obtain ⟨⟨i, entered⟩, hentered⟩ : ∃ x, Group.enter fresh groups = x := ⟨_, rfl⟩
  have hgroupFits : group.Fits q fun _ => False := by
    rcases List.mem_cons.mp (Group.enter_subset fresh groups (List.mem_of_getElem? hget)) with rfl | hmem
    · exact hfresh ▸ Group.fits_fresh hs g _
    · exact hfits group hmem
  obtain ⟨haddr₁, c, hexec⟩ := hfetched
  rw [enterKey_apply (m := { m with address := some start, count := c }) hgrouping hgroups,
    fresh_congr (m := { m with address := some start, count := c }) hshows, hfresh] at hexec
  simp only [hentered] at hexec
  rw [hentered] at hget hchange
  obtain ⟨hi, hgetElem⟩ := List.getElem?_eq_some_iff.mp hget
  have hsame : entered.set i group = entered := by rw [← hgetElem, List.set_getElem_self]
  have hlt : k < m.groups.length := (List.getElem?_eq_some_iff.mp hgroups).1
  have hslots : ∀ a ∈ q.slots, TypedExpr.AllWellTyped (.ofSources q.sources methods []) a.args ∧
      ColumnType.AcceptsAll a.accumulator.params (a.args.map TypedExpr.type) ∧ a.slot < q.slots.length :=
    fun a ha => ⟨(hgathers.args a ha).1, (hgathers.args a ha).2, hgathers.slots_lt _ (List.mem_map_of_mem ha)⟩
  have hresult : Group.change fresh (r.foldAll s q.slots) groups =
      (r.foldAll s q.slots group >>= fun group' => .ok (entered.set i group')) := by
    rw [hchange]
    cases r.foldAll s q.slots group <;> rfl
  rw [hfresh, hresult]
  refine Runs.next hlimit haddr₁ hcode.head (safe_of_isPlain haddr₁ hcode.head rfl) hexec rfl ?_
  refine Runs.bind (runs_accumulate (v := .ofSources q.sources methods []) hlimit hr rfl hs hi q.slots hslots group _
    { m with groups := m.groups.set k ⟨entered, some i⟩, address := some (start + 1), count := c }
    hgroupFits.length_accumulators (by rw [hsame]; exact List.getElem?_set_self hlt) hshows hclear hcode.tail rfl) ?_
  rintro group' _ - ⟨count, rfl⟩
  exact Runs.ok ⟨i, count, by rw [List.set_set]⟩

theorem runs_gather (hcode : p.HasCode start (groupRowCode g q.slots k start)) (haddr : m.address = some start) :
    Runs ctx p (Safe p) m (r.gather q g s groups) fun progress m₁ => ∃ groups' i count, progress = .more groups' ∧
      m₁ = { m with
        groups := m.groups.set k ⟨groups', some i⟩,
        address := some (start + groupRowSize g q.slots), count } := by
  have hrest : p.HasCode (start + TypedExpr.codesSize g.keys)
      (keyInstruction k g :: accumulateCode k q.slots (start + TypedExpr.codesSize g.keys + 1)) := by
    have h := hcode
    rw [groupRowCode, List.append_assoc] at h
    have h := h.right
    rwa [TypedExpr.length_codes] at h
  have hexec : exec ctx (keyInstruction k g) =
      (onFrame (Frame.popValues (g.keys.map TypedExpr.type)) >>= enterKey ctx k g.keys.length) := by
    simp only [keyInstruction, exec, typesOperand, pure_bind, List.length_map]
    rfl
  have hrun := hr.arguments (g := .ofSources q.sources methods []) rfl hgathers.keys (ColumnType.acceptsAll_self _)
    (hshows.fits rfl hs k) hclear hcode.left.left hrest.head rfl hexec haddr
  rw [← hr.arguments_congr hgathers.keys hs (hshows.agree rfl k), ← hr.values_eq rfl hgathers.keys hs] at hrun
  rw [Reader.gather_eq]
  refine Runs.bind hrun ?_
  rintro values m₁ - hfetched
  refine Runs.bind (runs_change hlimit hr hgathers hgrouping hgroups hfits hshows hs hclear hfetched hrest) ?_
  rintro groups' _ - ⟨i, count, rfl⟩
  refine Runs.ok ⟨groups', i, count, rfl, ?_⟩
  simp only [groupRowSize, Nat.add_assoc]

end Row

/-- Groups that fit are gathered while the table waits to be written. -/
structure Gathered (q : BoundQuery) (sites : QuerySites) (base : Machine) (t : Tally) (groups : List Group)
    (m : Machine) : Prop where
  writes : Writes sites (q.fields.map BoundField.column) base t m
  held : ∃ current, m.groups = base.groups.set sites.group ⟨groups, current⟩
  fits : ∀ group ∈ groups, group.Fits q fun _ => False

variable {sites : QuerySites} {base : Machine} {t : Tally} {T : Nat → Option Table}

theorem tracks_gathered (hT : Others T sites.table base) : Tracks T (Gathered q sites base t) where
  move h cursors rows address count := ⟨h.writes.move cursors rows _ address count, h.held, h.fits⟩
  tables h := h.writes.hasTables hT
  clear h := h.writes.clear
  running h := h.writes.running

theorem visiting_gather (hlimit : ctx.limit = 0) (hr : r.Runs ctx p methods) (hgathers : q.Gathers g methods)
    (hgrouping : ctx.program.groupings[sites.group]? = some (Generate.groupingDeclaration q g))
    (hgroup : sites.group < base.groups.length) {inner : Nat}
    (hcode : p.HasCode start (groupRowCode g q.slots sites.group start))
    (hgoto : p.code[start + groupRowSize g q.slots]? = some (.jump .goto inner)) (width done : Nat) :
    Visiting ctx p (Gathered q sites base t) (r.gather q g) width (Sight.ofSources q.sources methods [])
      (fun s => [.ok s]) start inner done := by
  rintro s groups m hgathered hshows hfits haddr - -
  obtain ⟨current, hgroups⟩ := hgathered.held
  have hat : m.groups[sites.group]? = some ⟨groups, current⟩ := by
    rw [hgroups, List.getElem?_set_self hgroup]
  rw [consume_singleton]
  refine (runs_gather hlimit hr hgathers hgrouping hat hgathered.fits hshows hfits hgathered.writes.clear hcode
    haddr).followed ?_
  rintro _ _ hresult ⟨groups', i, count, rfl, rfl⟩
  refine Runs.jump hlimit rfl hgoto (safe_of_isPlain rfl hgoto rfl) (exec_goto ctx _ inner) rfl
    (.ok ⟨⟨hgathered.writes.move _ _ _ _ _, ⟨some i, ?_⟩, ?_⟩, .ofEq rfl rfl, rfl⟩)
  · simp only [hgroups, List.set_set]
    rfl
  · exact BoundQuery.fits_gather hfits hgathered.fits hresult

end Gathering

/-! ### The loop over the groups -/

section Groups

open QueryCode

variable {ctx : RunContext} {p : Procedure} {m base : Machine} {sites : QuerySites} {t : Tally}
variable {q : BoundQuery} {g : Grouping} {methods : BoundFunction → Prop} {groups : List Group}
variable {i : Nat} {group : Group} {start done : Nat} {r : Reader}

/-- A group is current, and the cursors are on its rows. -/
structure OnGroup (q : BoundQuery) (sites : QuerySites) (base : Machine) (groups : List Group) (i : Nat)
    (group : Group) (t : Tally) (m : Machine) : Prop where
  writes : Writes sites (q.fields.map BoundField.column) base t m
  held : m.groups = base.groups.set sites.group ⟨groups, some i⟩
  current : groups[i]? = some group
  shown : ∀ c ∈ q.sources.map BoundSource.cursor,
    m.rows[c]?.join = (group.scene (q.sources.map BoundSource.cursor)).row? c
  cursors : m.cursors.length = base.cursors.length
  rows : m.rows.length = base.rows.length

theorem OnGroup.agree (h : OnGroup q sites base groups i group t m) (hgroup : sites.group < base.groups.length)
    (methods : BoundFunction → Prop) (slots : List Nat) :
    Scene.Agree (.ofSources q.sources methods slots) (group.scene (q.sources.map BoundSource.cursor))
      (m.scene sites.group) where
  rows c columns hmem := by
    obtain ⟨b, hb, hpair⟩ := List.mem_map.mp hmem
    cases hpair
    exact (h.shown b.cursor (List.mem_map_of_mem hb)).symm
  slots k _ := by
    simp only [scene, h.held, List.getElem?_set_self hgroup, Option.bind_some, h.current, Option.map_some,
      Option.getD_some]
    rfl

theorem onGroup_restore (hw : Writes sites (q.fields.map BoundField.column) base t m)
    {current : Option Nat} (hheld : m.groups = base.groups.set sites.group ⟨groups, current⟩)
    (hat : groups[i]? = some group) (hfits : group.Fits q fun _ => False)
    (hsources : ∀ c ∈ q.sources.map BoundSource.cursor, c < m.rows.length)
    (hcursors : m.cursors.length = base.cursors.length) (hrows : m.rows.length = base.rows.length)
    (address : Option Nat) (count : Nat) :
    OnGroup q sites base groups i group t { m with
      groups := m.groups.set sites.group ⟨groups, some i⟩,
      rows := restore ((Generate.groupingDeclaration q g).cursors.zip group.rows) m.rows, address, count } where
  writes := hw.move _ _ _ _ _
  held := by
    simp only [hheld, List.set_set]
  current := hat
  shown c hc := by
    obtain ⟨s, hs, hkept⟩ := hfits.rows
    simp only [Generate.groupingDeclaration, hkept, getElem?_restore s.row? _ m.rows (hsources c hc), if_pos hc,
      Option.join_some, Group.row?_scene hkept hc]
  cursors := hcursors
  rows := (length_restore _ _).trans hrows

section Loop

variable (hlimit : ctx.limit = 0) (hr : r.Runs ctx p methods) (hapart : sites.Apart)
variable (htable : sites.table < base.tables.length) (hgroup : sites.group < base.groups.length)
variable (hgathers : q.Gathers g methods)

include hlimit hr hapart htable hgroup hgathers

/-- A group is tested and written; then the machine goes on behind it, or it is done. -/
theorem runs_group (hfits : group.Fits q fun _ => False) (h : OnGroup q sites base groups i group t m)
    (htest : p.HasCode start (testCode sites.group g.having (start + testSize g.having + outputSize q sites)
      (some "having") start))
    (houtput : p.HasCode (start + testSize g.having) (outputCode q sites
      (start + testSize g.having + outputSize q sites) done (start + testSize g.having)))
    (haddr : m.address = some start) :
    Runs ctx p (Safe p) m (consume (r.emit (q.fields.map BoundField.expr))
      (guarded (r.passes (group.scene (q.sources.map BoundSource.cursor)) g.having)
        [.ok (group.scene (q.sources.map BoundSource.cursor))]) t) fun progress m₁ =>
        OnGroup q sites base groups i group progress.state m₁ ∧
          m₁.address = some (progress.pick (start + testSize g.having + outputSize q sites) done) := by
  have hagree := h.agree hgroup methods (q.slots.map AggregateSlot.slot)
  have hshown : (group.scene (q.sources.map BoundSource.cursor)).Fits
      (Sight.ofSources q.sources methods (q.slots.map AggregateSlot.slot)).bare := hfits.scene hgathers.slots_lt
  have hscene := hshown.of_agree ⟨hagree.rows, hagree.slots⟩
  have hr : r.Runs ctx p (Sight.ofSources q.sources methods (q.slots.map AggregateSlot.slot)).methods := hr
  rw [consume_guarded, hr.passes_congr hgathers.having hshown hagree]
  refine Runs.bind (hr.passes hgathers.having hscene h.writes.clear htest haddr) ?_
  rintro holds _ - ⟨n, rfl⟩
  have hmoved : ∀ address, OnGroup q sites base groups i group t { m with address, count := n } := fun address =>
    ⟨h.writes.move _ _ _ _ _, h.held, h.current, h.shown, h.cursors, h.rows⟩
  cases holds with
  | false => exact .ok ⟨hmoved _, rfl⟩
  | true =>
    have hemit : r.emit (q.fields.map BoundField.expr) (group.scene (q.sources.map BoundSource.cursor)) t =
        r.emit (q.fields.map BoundField.expr) (m.scene sites.group) t := by
      simp only [Reader.emit, hr.values_congr hgathers.fields hshown hagree]
    rw [if_pos rfl, consume_singleton, hemit]
    refine (runs_output hlimit hr hapart htable (hmoved _).writes hgathers.fields hscene houtput rfl).mono
      (fun _ => id) ?_
    rintro progress m₁ - ⟨hw₁, hsame, haddr₁⟩
    refine ⟨⟨hw₁, hsame.groups.trans h.held, h.current, ?_, ?_, ?_⟩, ?_⟩
    · rw [hsame.rows]
      exact h.shown
    · rw [hsame.cursors]
      exact h.cursors
    · rw [hsame.rows]
      exact h.rows
    · cases progress with
      | done t₁ => exact haddr₁
      | more t₁ => rcases haddr₁ with haddr₁ | haddr₁ <;> exact haddr₁

variable (hgrouping : ctx.program.groupings[sites.group]? = some (Generate.groupingDeclaration q g))
variable (hsources : ∀ c ∈ q.sources.map BoundSource.cursor, c < base.rows.length)
variable (hdone : done = start + groupLoopSize q g sites) (hcode : p.HasCode start (groupLoopCode q g sites done start))

include hgrouping hsources hdone hcode

theorem runs_groups (hfits : ∀ group ∈ groups, group.Fits q fun _ => False) :
    ∀ (rest : List Group) (i : Nat) (group : Group) (t : Tally) (m : Machine), groups.drop i = group :: rest →
      OnGroup q sites base groups i group t m → m.address = some (start + 1) →
      Runs ctx p (Safe p) m
        (consume (r.emit (q.fields.map BoundField.expr)) (r.groupVisits q g (group :: rest)) t)
        fun progress m₁ => (∃ i group, OnGroup q sites base groups i group progress.state m₁) ∧ m₁.address = some done := by
  have htest := hcode.left.left.right
  have houtput := hcode.left.right
  have hnext := hcode.right.head
  simp only [List.length_append, List.length_singleton, length_testCode, length_outputCode, ← Nat.add_assoc]
    at htest houtput hnext
  have hend : start + 1 + testSize g.having + outputSize q sites + 1 = done := by
    simp only [hdone, groupLoopSize]
    omega
  intro rest
  induction rest with
  | nil =>
    intro i group t m hdrop h haddr
    have hlast : groups.length ≤ i + 1 := by
      have hlength := congrArg List.length hdrop
      simp only [List.length_drop, List.length_singleton] at hlength
      omega
    rw [Reader.groupVisits, List.flatMap_singleton]
    refine (runs_group hlimit hr hapart htable hgroup hgathers (hfits group (List.mem_of_getElem? h.current)) h
      htest houtput haddr).followed ?_
    rintro progress m₁ - ⟨h₁, haddr₁⟩
    cases progress with
    | done t₁ => exact .ok ⟨⟨i, group, h₁⟩, haddr₁⟩
    | more t₁ =>
      have hat : m₁.groups[sites.group]? = some ⟨groups, some i⟩ := by
        rw [h₁.held, List.getElem?_set_self hgroup]
      refine Runs.next hlimit haddr₁ hnext (safe_of_isPlain haddr₁ hnext rfl)
        (exec_nextGroup_last ctx (m := { m₁ with count := m₁.count + 1 }) hat rfl hlast _) haddr₁
        (.ok ⟨⟨i, group, h₁.writes.move _ _ _ _ _, h₁.held, h₁.current, h₁.shown, h₁.cursors, h₁.rows⟩, ?_⟩)
      exact congrArg some hend
  | cons group' rest ih =>
    intro i group t m hdrop h haddr
    have hdrop' : groups.drop (i + 1) = group' :: rest := by
      rw [← List.tail_drop, hdrop, List.tail_cons]
    have hat' : groups[i + 1]? = some group' := by
      rw [← List.head?_drop, hdrop', List.head?_cons]
    have hvisits : r.groupVisits q g (group :: group' :: rest) =
        guarded (r.passes (group.scene (q.sources.map BoundSource.cursor)) g.having)
          [.ok (group.scene (q.sources.map BoundSource.cursor))] ++ r.groupVisits q g (group' :: rest) := rfl
    rw [hvisits, consume_append]
    refine Runs.bind (runs_group hlimit hr hapart htable hgroup hgathers
      (hfits group (List.mem_of_getElem? h.current)) h htest houtput haddr) ?_
    rintro progress m₁ - ⟨h₁, haddr₁⟩
    cases progress with
    | done t₁ => exact .ok ⟨⟨i, group, h₁⟩, haddr₁⟩
    | more t₁ =>
      have hat : m₁.groups[sites.group]? = some ⟨groups, some i⟩ := by
        rw [h₁.held, List.getElem?_set_self hgroup]
      refine Runs.jump hlimit haddr₁ hnext (safe_of_isPlain haddr₁ hnext rfl)
        (exec_nextGroup (m := { m₁ with count := m₁.count + 1 }) hgrouping hat rfl hat' _) rfl ?_
      refine ih (i + 1) group' t₁ _ hdrop' ?_ rfl
      exact onGroup_restore h₁.writes h₁.held hat' (hfits group' (List.mem_of_getElem? hat'))
        (h₁.rows ▸ hsources) h₁.cursors h₁.rows _ _

theorem runs_groupLoop (hcursors : m.cursors.length = base.cursors.length) (hrows : m.rows.length = base.rows.length)
    (h : Gathered q sites base t groups m) (haddr : m.address = some start) :
    Runs ctx p (Safe p) m
      (consume (r.emit (q.fields.map BoundField.expr)) (r.groupVisits q g groups) t)
      fun progress m₁ => Writes sites (q.fields.map BoundField.column) base progress.state m₁ ∧
        m₁.cursors.length = base.cursors.length ∧ m₁.rows.length = base.rows.length ∧
        m₁.groups.length = base.groups.length ∧ m₁.address = some done := by
  obtain ⟨current, hheld⟩ := h.held
  have hat : m.groups[sites.group]? = some ⟨groups, current⟩ := by rw [hheld, List.getElem?_set_self hgroup]
  have hop := hcode.left.left.left.head
  have hsafe : Safe p m := safe_of_isPlain haddr hop rfl
  cases groups with
  | nil =>
    refine Runs.jump hlimit haddr hop hsafe
      (exec_rewindGroups_nil ctx (m := { m with count := m.count + 1 }) hat rfl _) rfl
      (.ok ⟨h.writes.move _ _ _ _ _, hcursors, hrows, ?_, rfl⟩)
    rw [hheld, List.length_set]
  | cons group rest =>
    refine Runs.next hlimit haddr hop hsafe
      (exec_rewindGroups (m := { m with count := m.count + 1 }) hgrouping hat rfl _) haddr ?_
    refine (runs_groups hlimit hr hapart htable hgroup hgathers hgrouping hsources hdone hcode h.fits rest 0 group t _ rfl
      (onGroup_restore h.writes hheld rfl (h.fits group List.mem_cons_self) (hrows ▸ hsources) hcursors hrows _ _)
      rfl).mono (fun _ => id) ?_
    rintro progress m₁ - ⟨⟨_, _, h₁⟩, haddr₁⟩
    refine ⟨h₁.writes, h₁.cursors, h₁.rows, ?_, haddr₁⟩
    rw [h₁.held, List.length_set]

end Loop

theorem runs_groupSetup (hlimit : ctx.limit = 0) {d : TableDeclaration} (hdeclared : sites.Declared ctx.program q d)
    (hnames : Column.repeatedName? (q.fields.map BoundField.name) = none) (hready : m.Ready ctx.program)
    (hgroup : sites.group < m.groups.length)
    (hcode : p.HasCode 0 (setupCode q sites ++ [{ opcode := .resetGroups, p1 := sites.group }]))
    (haddr : m.address = some 0) :
    Runs ctx p (Safe p) m (.ok ()) fun _ m₁ => Gathered q sites m ⟨q.skip, q.take, d.table⟩ [] m₁ ∧
      m₁.cursors = m.cursors ∧ m₁.rows = m.rows ∧ m₁.address = some ((setupCode q sites).length + 1) := by
  refine (runs_setup hlimit hdeclared hnames hready hcode.left haddr).followed ?_
  rintro - m₁ - ⟨hw, hsame, haddr₁⟩
  have hop := hcode.right.head
  rw [Nat.zero_add] at hop
  have hat : m₁.groups[sites.group]? = some m.groups[sites.group] := by
    rw [hsame.groups]
    exact List.getElem?_eq_getElem hgroup
  refine Runs.next hlimit haddr₁ hop (safe_of_isPlain haddr₁ hop rfl)
    (exec_resetGroups ctx (m := { m₁ with count := m₁.count + 1 }) hat) haddr₁
    (.ok ⟨⟨hw.move _ _ _ _ _, ⟨none, ?_⟩, List.forall_mem_nil _⟩, hsame.cursors, hsame.rows, rfl⟩)
  simp only [hsame.groups]

/-- The procedure of a grouped query writes the query's table. -/
theorem finishes_grouped (hlimit : ctx.limit = 0) (hr : r.Runs ctx p methods) {T : Nat → Option Table} {d : TableDeclaration}
    {loops : List Loop} (hplaced : q.Placed ctx T methods sites d loops) (hg : q.grouping = some g)
    (hgrouping : ctx.program.groupings[sites.group]? = some (Generate.groupingDeclaration q g))
    (hgathers : q.Gathers g methods) (hready : m.Ready ctx.program) (hT : Others T sites.table m)
    (hcode : p.HasCode 0 (q.code sites)) (haddr : m.address = some 0) :
    Finishes ctx p (Safe p) m (r.output q (r.visits q.filter (loops.map Prod.snd) .empty) d.table)
      (Wrote ctx.program m sites.table (q.fields.map BoundField.column)) := by
  have hlength := hplaced.length_loopsCode
  have hprologue : prologue q sites = setupCode q sites ++ [{ opcode := .resetGroups, p1 := sites.group }] := by
    simp [prologue, BoundQuery.isGrouped, hg]
  obtain ⟨start, hstart⟩ : ∃ n, (setupCode q sites).length + 1 = n := ⟨_, rfl⟩
  simp only [BoundQuery.code, hg, hprologue, List.length_append, List.length_singleton, hstart] at hcode
  have hhalt := hcode.right.head
  have hgroups := hcode.left.right
  have hgoto := hcode.left.left.right.head
  have hrow := hcode.left.left.left.right
  have hfilter := hcode.left.left.left.left.right
  have hloops := hcode.left.left.left.left.left.right
  have hsetup := hcode.left.left.left.left.left.left
  simp only [List.length_append, hlength, length_testCode, length_groupRowCode, length_groupLoopCode,
    List.length_singleton, hstart, Nat.zero_add] at hhalt hgroups hgoto hrow hfilter hloops
  have hgroup : sites.group < m.groups.length := by
    rw [hready.groups]
    exact (List.getElem?_eq_some_iff.mp hgrouping).1
  have hsources : ∀ c ∈ q.sources.map BoundSource.cursor, c < m.rows.length := by
    intro c hc
    rw [← hplaced.sources, List.map_map] at hc
    obtain ⟨l, hl, rfl⟩ := List.mem_map.mp hc
    rw [hready.rows]
    exact (hplaced.supplied l hl).width
  have hvisiting := visiting_query hlimit hr hplaced (tracks_gathered hT) hloops hfilter
    (visiting_gather (t := ⟨q.skip, q.take, d.table⟩) hlimit hr hgathers hgrouping hgroup hrow hgoto
      ctx.program.cursorCount (start + loopsSize q.sources + testSize q.filter + groupRowSize g q.slots + 1))
  have houtput : r.output q (r.visits q.filter (loops.map Prod.snd) .empty) d.table =
      ((.ok () : Except Error Unit) >>= fun _ =>
        consume (r.gather q g) (r.visits q.filter (loops.map Prod.snd) .empty) [] >>= fun gathered =>
          consume (r.emit (q.fields.map BoundField.expr)) (r.groupVisits q g gathered.state)
            ⟨q.skip, q.take, d.table⟩ >>= fun progress => .ok progress.state.table) := by
    simp only [Reader.output, hg, Reader.written]
    rfl
  rw [Finishes, houtput]
  refine Runs.bind (runs_groupSetup hlimit hplaced.declared hplaced.names hready hgroup hsetup haddr) ?_
  rintro - m₁ - ⟨hgathered, hcursors, hrows, haddr₁⟩
  rw [hstart] at haddr₁
  have hnothing : Shows ⟨[], [], methods⟩ .empty m₁ := List.forall_mem_nil _
  refine Runs.bind (hvisiting .empty [] m₁ hgathered hnothing (Scene.fits_empty methods) haddr₁
    (by rw [hcursors, hready.cursors]) (by rw [hrows, hready.rows])) ?_
  rintro gathered m₂ - ⟨hgathered₂, huntouched, haddr₂⟩
  -- Gathering wants every scene, so that the loops always end in the same place.
  have haddr₂ : m₂.address = some (start + loopsSize q.sources + testSize q.filter +
      groupRowSize g q.slots + 1) := by cases gathered <;> exact haddr₂
  refine Runs.bind (runs_groupLoop hlimit hr hplaced.declared.apart (hplaced.table_lt hready) hgroup hgathers hgrouping
    hsources rfl hgroups (huntouched.cursors.trans (by rw [hcursors])) (huntouched.rows.trans (by rw [hrows])) hgathered₂
    haddr₂) ?_
  rintro progress m₃ - ⟨hw, hcursors₃, hrows₃, hgroups₃, haddr₃⟩
  exact hw.finishes hlimit hready hcursors₃ hrows₃ hgroups₃ haddr₃ hhalt

end Groups

end Machine

end TabularQuery
