import TabularQuery.Machine.State
import TabularQuery.Program.Generate
import TabularQuery.Proofs.Faults
import TabularQuery.Proofs.Reading

/-!
Grouping, without a machine. Every scene goes to the group of its key: a group keeps the rows of the
scene that it was made for, and folds each scene into its accumulators. Afterwards the groups are scenes
themselves, in the order in which they were made.
-/

namespace TabularQuery

/-- A group for a key, before anything is folded into it. -/
def GroupingDeclaration.fresh (d : GroupingDeclaration) (key : Key) (s : Scene) : Group :=
  ⟨key, d.cursors.map s.row?, d.slots.map fun (_, aggregate) => aggregate.fresh⟩

namespace Group

/-- What expressions over a group look at: the rows that it keeps, and its accumulators. -/
def scene (cursors : List Nat) (group : Group) : Scene where
  row? c := ((cursors.zip group.rows).lookup c).join
  accumulators := group.accumulators

/-- Arguments are folded into the accumulator of a slot. -/
def fold (slot : Nat) (args : List Value) (group : Group) : Except Error Group :=
  match group.accumulators[slot]? with
  | none => .error (.slotUnknown slot)
  | some a => (fun a => { group with accumulators := group.accumulators.set slot a }) <$> a.accumulate args

theorem length_fold {slot : Nat} {args : List Value} {group group' : Group}
    (h : group.fold slot args = .ok group') : group'.accumulators.length = group.accumulators.length := by
  unfold fold at h
  split at h
  · cases h
  · obtain ⟨a, -, rfl⟩ := except_map_eq_ok.mp h
    exact List.length_set

/-- Changes the first group with the key of `fresh`; if there is none, `fresh` becomes the last group. -/
def change (fresh : Group) (f : Group → Except Error Group) : List Group → Except Error (List Group)
  | [] => (fun group => [group]) <$> f fresh
  | group :: rest =>
    if group.key.same fresh.key then (fun group => group :: rest) <$> f group
    else (group :: ·) <$> change fresh f rest

/-- The groups with one for the key of `fresh`, and the place of that one. -/
def enter (fresh : Group) (groups : List Group) : Nat × List Group :=
  match groups.findIdx? fun group => group.key.same fresh.key with
  | some i => (i, groups)
  | none => (groups.length, groups ++ [fresh])

theorem enter_cons (fresh group : Group) (rest : List Group) :
    enter fresh (group :: rest) = if group.key.same fresh.key then (0, group :: rest)
      else ((enter fresh rest).1 + 1, group :: (enter fresh rest).2) := by
  unfold enter
  rw [List.findIdx?_cons]
  by_cases hsame : group.key.same fresh.key = true
  · rw [if_pos hsame, if_pos hsame]
  · rw [if_neg hsame, if_neg hsame]
    cases rest.findIdx? fun group => group.key.same fresh.key <;> rfl

theorem enter_subset (fresh : Group) (groups : List Group) : (enter fresh groups).2 ⊆ fresh :: groups := by
  unfold enter
  split
  · exact List.subset_cons_self _ _
  · intro group hgroup
    simpa [or_comm] using hgroup

theorem change_eq (fresh : Group) (groups : List Group) :
    ∃ group, (enter fresh groups).2[(enter fresh groups).1]? = some group ∧ ∀ f,
      change fresh f groups = (fun g => (enter fresh groups).2.set (enter fresh groups).1 g) <$> f group := by
  induction groups with
  | nil => exact ⟨fresh, rfl, fun _ => rfl⟩
  | cons group rest ih =>
    rw [enter_cons]
    by_cases hsame : group.key.same fresh.key = true
    · refine ⟨group, by rw [if_pos hsame]; rfl, fun f => ?_⟩
      rw [change, if_pos hsame, if_pos hsame]
      rfl
    · obtain ⟨found, hfound, hchange⟩ := ih
      refine ⟨found, by rw [if_neg hsame]; exact hfound, fun f => ?_⟩
      rw [change, if_neg hsame, if_neg hsame, hchange]
      cases f found <;> rfl

theorem change_preserves {P : Group → Prop} {fresh : Group} {f : Group → Except Error Group}
    (hf : ∀ group group', P group → f group = .ok group' → P group') (hfresh : P fresh)
    {groups groups' : List Group} (hgroups : ∀ group ∈ groups, P group)
    (h : change fresh f groups = .ok groups') : ∀ group ∈ groups', P group := by
  induction groups generalizing groups' with
  | nil =>
    obtain ⟨group, hgroup, rfl⟩ := except_map_eq_ok.mp h
    intro group' hmem
    obtain rfl := List.mem_singleton.mp hmem
    exact hf fresh _ hfresh hgroup
  | cons group rest ih =>
    have hrest : ∀ group ∈ rest, P group := fun g hg => hgroups g (List.mem_cons_of_mem _ hg)
    rw [change] at h
    split at h
    · obtain ⟨group', hgroup', rfl⟩ := except_map_eq_ok.mp h
      intro g hg
      rcases List.mem_cons.mp hg with rfl | hg
      · exact hf group _ (hgroups group List.mem_cons_self) hgroup'
      · exact hrest g hg
    · obtain ⟨rest', hrest', rfl⟩ := except_map_eq_ok.mp h
      intro g hg
      rcases List.mem_cons.mp hg with rfl | hg
      · exact hgroups g List.mem_cons_self
      · exact ih hrest hrest' g hg

end Group

namespace Reader

/-- A scene is folded into all accumulators. -/
def foldAll (r : Reader) (s : Scene) : List AggregateSlot → Group → Except Error Group
  | [], group => .ok group
  | a :: rest, group => do
    let values ← r.arguments s a.accumulator.params a.args
    let group ← group.fold a.slot values
    r.foldAll s rest group

/-- A scene goes to the group of its key. -/
def gather (r : Reader) (q : BoundQuery) (g : Grouping) (s : Scene) (groups : List Group) :
    Except Error (Progress (List Group)) := do
  let values ← r.values s g.keys
  let fresh := (Generate.groupingDeclaration q g).fresh ⟨values, List.range g.keys.length⟩ s
  return .more (← Group.change fresh (r.foldAll s q.slots) groups)

theorem gather_eq (r : Reader) (q : BoundQuery) (g : Grouping) (s : Scene) (groups : List Group) :
    r.gather q g s groups = (r.values s g.keys >>= fun values =>
      Group.change ((Generate.groupingDeclaration q g).fresh ⟨values, List.range g.keys.length⟩ s)
        (r.foldAll s q.slots) groups >>= fun groups' => .ok (.more groups')) := rfl

/-- The scenes of groups that pass HAVING. -/
def groupVisits (r : Reader) (q : BoundQuery) (g : Grouping) (groups : List Group) : List (Except Error Scene) :=
  groups.flatMap fun group =>
    let s := group.scene (q.sources.map BoundSource.cursor)
    guarded (r.passes s g.having) [.ok s]

/-- A table to which the query is written, grouped if the query is. -/
def output (r : Reader) (q : BoundQuery) (events : List (Except Error Scene)) (t : Table) : Except Error Table :=
  match q.grouping with
  | none => r.written q events t
  | some g => do
    let gathered ← consume (r.gather q g) events []
    r.written q (r.groupVisits q g gathered.state) t

end Reader

/-! ### Groups that fit -/

section Fits

variable {F : Failures} {q : BoundQuery} {methods : BoundFunction → Prop} {group group' : Group} {s : Scene}

/-- The group keeps rows of a scene that fits, and has an accumulator for every slot. -/
structure Group.Fits (q : BoundQuery) (methods : BoundFunction → Prop) (group : Group) : Prop where
  rows : ∃ s : Scene, s.Fits (.ofSources q.sources methods []) ∧
    group.rows = (q.sources.map BoundSource.cursor).map s.row?
  states : group.accumulators.map Accumulator.aggregate = q.slots.map fun a => a.accumulator.aggregate

/-- Every clause of the grouped query is well-typed: keys and arguments without aggregates, the rest with
the slots in sight. -/
structure BoundQuery.Gathers (q : BoundQuery) (g : Grouping) (methods : BoundFunction → Prop) : Prop where
  keys : TypedExpr.AllWellTyped (.ofSources q.sources methods []) g.keys
  having : (Sight.ofSources q.sources methods (q.slots.map AggregateSlot.slot)).Tests g.having
  fields : TypedExpr.AllWellTyped (.ofSources q.sources methods (q.slots.map AggregateSlot.slot))
    (q.fields.map BoundField.expr)
  slots : ∀ (i : Nat) (a : AggregateSlot), q.slots[i]? = some a → a.slot = i
  args : ∀ a ∈ q.slots, TypedExpr.AllWellTyped (.ofSources q.sources methods []) a.args ∧
    ColumnType.AcceptsAll a.accumulator.params (a.args.map TypedExpr.type)

namespace Group

theorem Fits.length_accumulators (h : group.Fits q methods) :
    group.accumulators.length = q.slots.length := by
  simpa using congrArg List.length h.states

theorem fits_fresh (hs : s.Fits (.ofSources q.sources methods [])) (g : Grouping) (key : Key) :
    ((Generate.groupingDeclaration q g).fresh key s).Fits q methods where
  rows := ⟨s, hs, rfl⟩
  states := by
    simp [GroupingDeclaration.fresh, Generate.groupingDeclaration, Function.comp_def]

theorem Fits.fold (h : group.Fits q methods) {slot : Nat} {args : List Value}
    (hfold : group.fold slot args = .ok group') : group'.Fits q methods := by
  unfold Group.fold at hfold
  cases hslot : group.accumulators[slot]? with
  | none =>
    rw [hslot] at hfold
    cases hfold
  | some a =>
    rw [hslot] at hfold
    obtain ⟨a', ha', rfl⟩ := except_map_eq_ok.mp hfold
    refine ⟨h.rows, ?_⟩
    have hsame : (group.accumulators.map Accumulator.aggregate)[slot]? = some a'.aggregate := by
      rw [List.getElem?_map, hslot, Accumulator.aggregate_accumulate ha']
      rfl
    obtain ⟨hlt, hget⟩ := List.getElem?_eq_some_iff.mp hsame
    rw [List.map_set, ← hget, List.set_getElem_self]
    exact h.states

theorem Fits.foldAll (h : group.Fits q methods) {r : Reader} {slots : List AggregateSlot}
    (hfold : r.foldAll s slots group = .ok group') : group'.Fits q methods := by
  induction slots generalizing group with
  | nil =>
    cases hfold
    exact h
  | cons a slots ih =>
    obtain ⟨values, _, hfold⟩ := except_bind_eq_ok.mp hfold
    obtain ⟨group₁, hgroup₁, hfold⟩ := except_bind_eq_ok.mp hfold
    exact ih (h.fold hgroup₁) hfold

theorem lookup_zip_map {α : Type} (f : Nat → α) {cursors : List Nat} {c : Nat} (h : c ∈ cursors) :
    (cursors.zip (cursors.map f)).lookup c = some (f c) := by
  induction cursors with
  | nil => cases h
  | cons c' cursors ih =>
    rw [List.map_cons, List.zip_cons_cons, List.lookup_cons]
    by_cases hc : c = c'
    · simp [hc]
    · rw [beq_eq_false_iff_ne.mpr hc]
      exact ih ((List.mem_cons.mp h).resolve_left hc)

theorem row?_scene {cursors : List Nat} (hrows : group.rows = cursors.map s.row?) {c : Nat}
    (hc : c ∈ cursors) : (group.scene cursors).row? c = s.row? c := by
  simp only [scene, hrows, lookup_zip_map _ hc, Option.join_some]

theorem Fits.scene (h : group.Fits q methods) {slots : List Nat} (hslots : ∀ k ∈ slots, k < q.slots.length) :
    (group.scene (q.sources.map BoundSource.cursor)).Fits (.ofSources q.sources methods slots) := by
  obtain ⟨s, hs, hrows⟩ := h.rows
  refine ⟨fun c columns hmem => ?_, fun k hk => ?_, hs.methods⟩
  · obtain ⟨row, hrow, hfits⟩ := hs.rows c columns hmem
    obtain ⟨b, hb, hpair⟩ := List.mem_map.mp hmem
    cases hpair
    exact ⟨row, (row?_scene hrows (List.mem_map_of_mem hb)).trans hrow, hfits⟩
  · exact h.length_accumulators ▸ hslots k hk

end Group

namespace BoundQuery

variable {g : Grouping} {groups : List Group}

theorem Gathers.slots_lt (h : q.Gathers g methods) : ∀ k ∈ q.slots.map AggregateSlot.slot, k < q.slots.length := by
  intro k hk
  obtain ⟨a, ha, rfl⟩ := List.mem_map.mp hk
  obtain ⟨i, hi, hget⟩ := List.getElem_of_mem ha
  rw [h.slots i a (by rw [List.getElem?_eq_getElem hi, hget])]
  exact hi

theorem Gathers.tallies (h : q.Gathers g methods) (hgroup : group.Fits q methods) :
    (group.scene (q.sources.map BoundSource.cursor)).Tallies
      (.ofSources q.sources methods (q.slots.map AggregateSlot.slot)) q.slots := by
  intro k hk
  obtain ⟨a, ha, rfl⟩ := List.mem_map.mp hk
  obtain ⟨i, hi⟩ := List.getElem?_of_mem ha
  have hstate : (group.accumulators.map Accumulator.aggregate)[i]? = some a.accumulator.aggregate := by
    rw [hgroup.states, List.getElem?_map, hi]
    rfl
  rw [List.getElem?_map] at hstate
  obtain ⟨state, hget, hsame⟩ := Option.map_eq_some_iff.mp hstate
  rw [h.slots i a hi]
  exact ⟨a, state, hi, hget, hsame⟩

theorem fits_gather (hs : s.Fits (.ofSources q.sources methods []))
    (hgroups : ∀ group ∈ groups, group.Fits q methods) {r : Reader} {gathered : Progress (List Group)}
    (h : r.gather q g s groups = .ok gathered) : ∀ group ∈ gathered.state, group.Fits q methods := by
  obtain ⟨values, _, h⟩ := except_bind_eq_ok.mp h
  obtain ⟨groups', hchange, h⟩ := except_bind_eq_ok.mp h
  cases h
  exact Group.change_preserves (fun _ _ hfits hfold => hfits.foldAll hfold) (Group.fits_fresh hs g _) hgroups hchange

end BoundQuery

/-! ### Failures -/

theorem Group.keeps_fold (h : group.Fits q methods) {i : Nat} {a : AggregateSlot}
    (ha : q.slots[i]? = some a) (hregular : a.accumulator.Regular) {args : List Value}
    (hargs : args.map Value.type = a.accumulator.params) :
    Keeps F (Group.Fits q methods) (group.fold i args) where
  value _ hfold := h.fold hfold
  failure e he := by
    have hstate : (group.accumulators.map Accumulator.aggregate)[i]? = some a.accumulator.aggregate := by
      rw [h.states, List.getElem?_map, ha]
      rfl
    rw [List.getElem?_map] at hstate
    obtain ⟨state, hget, hsame⟩ := Option.map_eq_some_iff.mp hstate
    obtain ⟨after, hafter⟩ := hregular args state hargs hsame
    simp only [fold, hget, hafter] at he
    cases he

theorem Group.keeps_foldAll {g : Grouping} (hfails : q.FailsIn F) (hgathers : q.Gathers g methods)
    (hregular : ∀ a ∈ q.slots, a.accumulator.Regular) (hs : s.Fits (.ofSources q.sources methods []))
    {slots : List AggregateSlot} (hslots : slots ⊆ q.slots) (h : group.Fits q methods) :
    Keeps F (Group.Fits q methods) (Reader.exact.foldAll s slots group) := by
  induction slots generalizing group with
  | nil => exact .ok h
  | cons a slots ih =>
    obtain ⟨ha, hrest⟩ := List.cons_subset.mp hslots
    obtain ⟨hargs, haccepts⟩ := hgathers.args a ha
    obtain ⟨i, hi, hget⟩ := List.getElem_of_mem ha
    have hat : q.slots[i]? = some a := by rw [List.getElem?_eq_getElem hi, hget]
    have hvalues := TypedExpr.keeps_evalAll hs (Scene.tallies_of_nil rfl) a.args hargs (hfails.args a ha)
    have hwidened : Keeps F (fun values => values.map Value.type = a.accumulator.params)
        (Reader.exact.arguments s a.accumulator.params a.args) :=
      hvalues.map fun values htypes => Value.types_widen (by rwa [htypes])
    refine hwidened.bind fun values htypes => ?_
    rw [hgathers.slots i a hat]
    exact (keeps_fold h hat (hregular a ha) htypes).bind fun group' h' => ih hrest h'

theorem Group.keeps_change {P : Group → Prop} {fresh : Group} {f : Group → Except Error Group}
    (hf : ∀ group, P group → Keeps F P (f group)) (hfresh : P fresh) {groups : List Group}
    (hgroups : ∀ group ∈ groups, P group) :
    Keeps F (fun groups => ∀ group ∈ groups, P group) (change fresh f groups) where
  value _ h := change_preserves (fun group group' hP hf' => (hf group hP).value group' hf') hfresh hgroups h
  failure e he := by
    obtain ⟨group, hget, hchange⟩ := change_eq fresh groups
    have hP : P group := by
      have hmem : group ∈ fresh :: groups := enter_subset fresh groups (List.mem_of_getElem? hget)
      rcases List.mem_cons.mp hmem with rfl | hmem
      · exact hfresh
      · exact hgroups group hmem
    rw [hchange] at he
    exact ((hf group hP).map (J := fun _ => True) fun _ _ => trivial).failure e he

namespace BoundQuery

variable {g : Grouping} {groups : List Group}

theorem keeps_gather (hfails : q.FailsIn F) (hg : q.grouping = some g) (hgathers : q.Gathers g methods)
    (hregular : ∀ a ∈ q.slots, a.accumulator.Regular) (hs : s.Fits (.ofSources q.sources methods []))
    (hgroups : ∀ group ∈ groups, group.Fits q methods) :
    Keeps F (fun r => ∀ group ∈ r.state, group.Fits q methods) (Reader.exact.gather q g s groups) := by
  refine (TypedExpr.keeps_evalAll hs (Scene.tallies_of_nil rfl) g.keys hgathers.keys (hfails.keys g hg)).bind
    fun values _ => ?_
  have hfold : ∀ group : Group, group.Fits q methods → Keeps F (Group.Fits q methods) (Reader.exact.foldAll s q.slots group) :=
    fun group => Group.keeps_foldAll hfails hgathers hregular hs (List.Subset.refl _)
  exact (Group.keeps_change hfold (Group.fits_fresh hs g _) hgroups).bind fun groups' h => .ok h

theorem keeps_groupVisits (hfails : q.FailsIn F) (hg : q.grouping = some g) (hgathers : q.Gathers g methods)
    (hgroups : ∀ group ∈ groups, group.Fits q methods) :
    ∀ x ∈ Reader.exact.groupVisits q g groups,
      Keeps F (fun s => s.Fits (.ofSources q.sources methods (q.slots.map AggregateSlot.slot)) ∧
        s.Tallies (.ofSources q.sources methods (q.slots.map AggregateSlot.slot)) q.slots) x := by
  intro x hx
  obtain ⟨group, hgroup, hx⟩ := List.mem_flatMap.mp hx
  have hfits := (hgroups group hgroup).scene hgathers.slots_lt
  have htallies := hgathers.tallies (hgroups group hgroup)
  refine keeps_guarded (keeps_passes hfits htallies hgathers.having (hfails.having g hg)) (fun y hy => ?_) x hx
  obtain rfl := List.mem_singleton.mp hy
  exact .ok ⟨hfits, htallies⟩

/-- What the query makes of scenes that fit has no other failures. -/
theorem keeps_output (hfails : q.FailsIn F)
    (hflat : q.grouping = none → TypedExpr.AllWellTyped (.ofSources q.sources methods []) (q.fields.map BoundField.expr))
    (hgathers : ∀ g, q.grouping = some g → q.Gathers g methods)
    (hregular : ∀ a ∈ q.slots, a.accumulator.Regular) {events : List (Except Error Scene)}
    (hevents : ∀ x ∈ events, Keeps F (fun s => s.Fits (.ofSources q.sources methods [])) x) (t : Table) :
    Keeps F (fun _ => True) (Reader.exact.output q events t) := by
  unfold Reader.output
  cases hgrouping : q.grouping with
  | none =>
    refine keeps_written (hflat hgrouping) hfails (fun x hx => ?_) t
    exact (hevents x hx).mono fun _ hs => ⟨hs, Scene.tallies_of_nil rfl⟩
  | some g =>
    have hgathers := hgathers g hgrouping
    have hbody : ∀ (s : Scene) (groups : List Group), s.Fits (.ofSources q.sources methods []) →
        (∀ group ∈ groups, group.Fits q methods) →
        Keeps F (fun r => ∀ group ∈ r.state, group.Fits q methods) (Reader.exact.gather q g s groups) :=
      fun _ _ => keeps_gather hfails hgrouping hgathers hregular
    have hgathered := keeps_consume hbody hevents (List.forall_mem_nil _)
    refine hgathered.bind fun r hr => ?_
    exact keeps_written hgathers.fields hfails (keeps_groupVisits hfails hgrouping hgathers hr) t

end BoundQuery

end Fits

end TabularQuery
