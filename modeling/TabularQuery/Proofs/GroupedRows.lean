import TabularQuery.Proofs.Indexes
import TabularQuery.Proofs.SelectedRows

/-!
Grouped queries, from binding to the finished table. The tuples of rows that meet every condition fall
into groups, one for each key, in the order in which the keys first appear. A group is a scene: the rows
of its first tuple, and in every slot the state to which all its tuples were folded. Groups that pass
HAVING are counted off by SKIP and TAKE, and the fields are evaluated on what is left.
-/

namespace TabularQuery

/-! ### Groups in terms of lists -/

/-- Folds a scene into a state of the slot's accumulator. -/
def AggregateSlot.step (a : AggregateSlot) (s : Scene) (state : Accumulator) : Except Error Accumulator := do
  let values ← TypedExpr.evalAll s a.args
  state.accumulate (List.zipWith Value.widen a.accumulator.params values)

/-- The state of the slot's accumulator after some scenes, in order. -/
def AggregateSlot.folded (a : AggregateSlot) (scenes : List Scene) : Except Error Accumulator :=
  scenes.foldlM (fun state s => a.step s state) a.accumulator.aggregate.fresh

namespace Grouping

/-- The key of a scene; it has no values if one of them fails. -/
def key (g : Grouping) (s : Scene) : Key :=
  ⟨match TypedExpr.evalAll s g.keys with
    | .ok values => values
    | .error _ => [], List.range g.keys.length⟩

/-- The scenes that have the key of one among them. -/
def members (g : Grouping) (scenes : List Scene) (first : Scene) : List Scene :=
  scenes.filter fun s => (g.key first).same (g.key s)

theorem members_concat (g : Grouping) (scenes : List Scene) (s first : Scene) :
    g.members (scenes ++ [s]) first =
      g.members scenes first ++ if (g.key first).same (g.key s) then [s] else [] := by
  simp only [members, List.filter_append, List.filter_cons, List.filter_nil]

end Grouping

namespace BoundQuery

/-- The groups of scenes, in the order in which their keys first appear: each shows the rows of its first
scene, and the states of the slots after all its scenes. -/
def groupScenes (q : BoundQuery) (g : Grouping) (scenes : List Scene) : Except Error (List Scene) :=
  (Key.firstOfEach g.key scenes).mapM fun first =>
    (fun states => { first with accumulators := states }) <$>
      q.slots.mapM fun a => a.folded (g.members scenes first)

/-- The group of a scene as the machine keeps it. -/
def groupAt (q : BoundQuery) (g : Grouping) (scenes : List Scene) (first : Scene) : Except Error Group :=
  (fun states => ⟨g.key first, (q.sources.map BoundSource.cursor).map first.row?, states⟩) <$>
    q.slots.mapM fun a => a.folded (g.members scenes first)

end BoundQuery

/-! ### Gathering -/

theorem mapM_congr {α β : Type} {f f' : α → Except Error β} {xs : List α} (h : ∀ x ∈ xs, f x = f' x) :
    xs.mapM f = xs.mapM f' := by
  induction xs with
  | nil => rfl
  | cons x xs ih => rw [List.mapM_cons, List.mapM_cons, h x List.mem_cons_self, ih fun y hy => h y (List.mem_cons_of_mem _ hy)]

theorem AggregateSlot.folded_concat (a : AggregateSlot) (scenes : List Scene) (s : Scene) :
    a.folded (scenes ++ [s]) = a.folded scenes >>= a.step s := by
  simp [folded, List.foldlM_append]

/-- Where the states of all slots are known before and after a scene, folding the scene into the group
leads from the ones to the others. -/
theorem Group.foldAll_eq {members : List Scene} {s : Scene} {slots : List AggregateSlot} {key : Key}
    {rows : List (Option (List Value))} {done before after : List Accumulator}
    (hplaces : ∀ (i : Nat) (a : AggregateSlot), slots[i]? = some a → a.slot = done.length + i)
    (hbefore : List.Forall₂ (fun a state => a.folded members = .ok state) slots before)
    (hafter : List.Forall₂ (fun a state => a.folded (members ++ [s]) = .ok state) slots after) :
    Reader.exact.foldAll s slots ⟨key, rows, done ++ before⟩ = .ok ⟨key, rows, done ++ after⟩ := by
  induction hbefore generalizing done after with
  | nil =>
    cases hafter
    rfl
  | @cons a state slots before hstate _ ih =>
    obtain ⟨state', after', hstate', hrest, rfl⟩ := List.forall₂_cons_left_iff.mp hafter
    rw [a.folded_concat, hstate] at hstate'
    obtain ⟨values, hvalues, hstep⟩ := except_bind_eq_ok.mp (show a.step s state = .ok state' from hstate')
    have hslot : a.slot = done.length := hplaces 0 a rfl
    have hfold : fold a.slot (List.zipWith Value.widen a.accumulator.params values)
        ⟨key, rows, done ++ state :: before⟩ = .ok ⟨key, rows, (done ++ [state']) ++ before⟩ := by
      simp [fold, hslot, hstep]
    have hplaces' : ∀ (i : Nat) (b : AggregateSlot), slots[i]? = some b → b.slot = (done ++ [state']).length + i := by
      intro i b hb
      rw [hplaces (i + 1) b hb, List.length_append, List.length_singleton]
      omega
    have hargs : Reader.exact.arguments s a.accumulator.params a.args =
        .ok (List.zipWith Value.widen a.accumulator.params values) := by
      change _ <$> TypedExpr.evalAll s a.args = _
      rw [hvalues]
      rfl
    refine except_bind_eq_ok.mpr ⟨_, hargs, except_bind_eq_ok.mpr ⟨_, hfold, ?_⟩⟩
    rw [ih hplaces' hrest, List.append_assoc]
    rfl

theorem Group.change_new {fresh : Group} {f : Group → Except Error Group} {groups : List Group}
    (h : ∀ group ∈ groups, group.key.same fresh.key = false) :
    change fresh f groups = (fun group => groups ++ [group]) <$> f fresh := by
  induction groups with
  | nil => rfl
  | cons group rest ih =>
    have hgroup := h group List.mem_cons_self
    rw [change, if_neg (by rw [hgroup]; exact Bool.false_ne_true), ih fun g hg => h g (List.mem_cons_of_mem _ hg)]
    cases f fresh <;> rfl

namespace BoundQuery

variable {q : BoundQuery} {g : Grouping} {scenes : List Scene} {s first : Scene} {group group' : Group}

theorem groupAt_key (h : q.groupAt g scenes first = .ok group) : group.key = g.key first := by
  obtain ⟨states, -, rfl⟩ := except_map_eq_ok.mp h
  rfl

theorem groupAt_other (h : (g.key first).same (g.key s) = false) :
    q.groupAt g (scenes ++ [s]) first = q.groupAt g scenes first := by
  rw [groupAt, groupAt, g.members_concat, h, if_neg Bool.false_ne_true, List.append_nil]

theorem exists_groupAt (h : q.groupAt g (scenes ++ [s]) first = .ok group) :
    ∃ group', q.groupAt g scenes first = .ok group' := by
  cases hsame : (g.key first).same (g.key s) with
  | false => exact ⟨group, groupAt_other hsame ▸ h⟩
  | true =>
    rw [groupAt, g.members_concat, if_pos hsame] at h
    obtain ⟨states, hstates, -⟩ := except_map_eq_ok.mp h
    have hall : ∀ a ∈ q.slots, ∃ state, a.folded (g.members scenes first) = .ok state := by
      intro a ha
      obtain ⟨_, -, hstate⟩ := exists_of_forall₂ (mapM_eq_ok_iff.mp hstates) ha
      rw [a.folded_concat] at hstate
      obtain ⟨state, hbefore, -⟩ := except_bind_eq_ok.mp hstate
      exact ⟨state, hbefore⟩
    obtain ⟨before, hbefore, -⟩ := exists_mapM_ok hall
    exact ⟨_, except_map_eq_ok.mpr ⟨before, hbefore, rfl⟩⟩

/-- The slots are numbered in order. -/
def SlotsInOrder (q : BoundQuery) : Prop := ∀ (i : Nat) (a : AggregateSlot), q.slots[i]? = some a → a.slot = i

theorem foldAll_groupAt (hslots : q.SlotsInOrder) (hsame : (g.key first).same (g.key s) = true)
    (hbefore : q.groupAt g scenes first = .ok group) (hafter : q.groupAt g (scenes ++ [s]) first = .ok group') :
    Reader.exact.foldAll s q.slots group = .ok group' := by
  rw [groupAt, g.members_concat, if_pos hsame] at hafter
  obtain ⟨before, hstates, rfl⟩ := except_map_eq_ok.mp hbefore
  obtain ⟨after, hstates', rfl⟩ := except_map_eq_ok.mp hafter
  have hplaces : ∀ (i : Nat) (a : AggregateSlot), q.slots[i]? = some a → a.slot = ([] : List Accumulator).length + i := by
    intro i a ha
    rw [hslots i a ha, List.length_nil, Nat.zero_add]
  exact Group.foldAll_eq hplaces (mapM_eq_ok_iff.mp hstates) (mapM_eq_ok_iff.mp hstates')

theorem change_found (hslots : q.SlotsInOrder) {fresh : Group} (hfresh : fresh.key = g.key s) {firsts : List Scene}
    (hdistinct : firsts.Pairwise fun x y => (g.key x).same (g.key y) = false)
    (hfound : firsts.any (fun x => (g.key x).same (g.key s)) = true) {before after : List Group}
    (hbefore : firsts.mapM (q.groupAt g scenes) = .ok before)
    (hafter : firsts.mapM (q.groupAt g (scenes ++ [s])) = .ok after) :
    Group.change fresh (Reader.exact.foldAll s q.slots) before = .ok after := by
  induction firsts generalizing before after with
  | nil => cases hfound
  | cons first firsts ih =>
    obtain ⟨hnew, hdistinct⟩ := List.pairwise_cons.mp hdistinct
    obtain ⟨group, before', hgroup, hrest, rfl⟩ := List.forall₂_cons_left_iff.mp (mapM_eq_ok_iff.mp hbefore)
    obtain ⟨group', after', hgroup', hrest', rfl⟩ := List.forall₂_cons_left_iff.mp (mapM_eq_ok_iff.mp hafter)
    rw [← mapM_eq_ok_iff] at hrest hrest'
    rw [Group.change, hfresh, groupAt_key hgroup]
    by_cases hsame : (g.key first).same (g.key s) = true
    · have hothers : firsts.mapM (q.groupAt g (scenes ++ [s])) = firsts.mapM (q.groupAt g scenes) := by
        refine mapM_congr fun x hx => groupAt_other ?_
        rw [Key.same_comm, ← Key.same_congr hsame]
        exact hnew x hx
      rw [hothers, hrest] at hrest'
      rw [if_pos hsame, foldAll_groupAt hslots hsame hgroup hgroup', Except.ok.inj hrest']
      rfl
    · rw [List.any_cons, Bool.eq_false_iff.mpr hsame, Bool.false_or] at hfound
      rw [groupAt_other (Bool.eq_false_iff.mpr hsame), hgroup] at hgroup'
      rw [if_neg hsame, ih hdistinct hfound hrest hrest', Except.ok.inj hgroup']
      rfl

/-- A key that is new has a group into which nothing is folded yet. -/
theorem groupAt_fresh (h : scenes.any (fun x => (g.key x).same (g.key s)) = false) :
    q.groupAt g scenes s = .ok ((Generate.groupingDeclaration q g).fresh (g.key s) s) := by
  have hnone : g.members scenes s = [] := by
    refine List.filter_eq_nil_iff.mpr fun x hx => ?_
    rw [Key.same_comm]
    exact List.any_eq_false.mp h x hx
  have hstates : (q.slots.mapM fun a => a.folded []) = .ok (q.slots.map fun a => a.accumulator.aggregate.fresh) := by
    refine mapM_eq_ok_iff.mpr ?_
    rw [List.forall₂_map_right_iff, List.forall₂_same]
    exact fun _ _ => rfl
  rw [groupAt, hnone, hstates]
  simp [GroupingDeclaration.fresh, Generate.groupingDeclaration, Function.comp_def]

/-- Gathering scenes makes the groups of their keys. -/
theorem consume_gather (hslots : q.SlotsInOrder) {groups : List Group}
    (hkeys : ∀ s ∈ scenes, ∃ values, TypedExpr.evalAll s g.keys = .ok values)
    (hgroups : (Key.firstOfEach g.key scenes).mapM (q.groupAt g scenes) = .ok groups) :
    consume (Reader.exact.gather q g) (scenes.map .ok) [] = .ok (.more groups) := by
  induction scenes using List.reverseRecOn generalizing groups with
  | nil =>
    cases hgroups
    rfl
  | append_singleton scenes s ih =>
    obtain ⟨values, hvalues⟩ := hkeys s (by simp)
    have hkey : g.key s = ⟨values, List.range g.keys.length⟩ := by rw [Grouping.key, hvalues]
    -- The groups before the scene came.
    have hexist : ∀ first ∈ Key.firstOfEach g.key scenes, ∃ group, q.groupAt g scenes first = .ok group := by
      intro first hfirst
      have hmem : first ∈ Key.firstOfEach g.key (scenes ++ [s]) := by
        rw [Key.firstOfEach_concat]
        exact List.mem_append_left _ hfirst
      obtain ⟨group, -, hgroup⟩ := exists_of_forall₂ (mapM_eq_ok_iff.mp hgroups) hmem
      exact exists_groupAt hgroup
    obtain ⟨before, hbefore, hall⟩ := exists_mapM_ok hexist
    rw [List.map_append, consume_append, ih (fun x hx => hkeys x (List.mem_append_left _ hx)) hbefore]
    change consume (Reader.exact.gather q g) [.ok s] before = _
    rw [consume_singleton, Reader.gather_eq, Reader.values_exact, hvalues]
    refine except_bind_eq_ok.mpr ⟨_, rfl, except_bind_eq_ok.mpr ⟨groups, ?_, rfl⟩⟩
    rw [← hkey]
    rw [Key.firstOfEach_concat, ← Key.any_firstOfEach] at hgroups
    cases hfound : (Key.firstOfEach g.key scenes).any fun x => (g.key x).same (g.key s) with
    | true =>
      rw [hfound, if_pos rfl, List.append_nil] at hgroups
      exact change_found hslots rfl (Key.pairwise_firstOfEach g.key scenes) hfound hbefore hgroups
    | false =>
      have hnew : ∀ x ∈ Key.firstOfEach g.key scenes, (g.key x).same (g.key s) = false := by
        simpa using hfound
      have hothers : (Key.firstOfEach g.key scenes).mapM (q.groupAt g (scenes ++ [s])) = .ok before := by
        rw [← hbefore]
        exact mapM_congr fun x hx => groupAt_other (hnew x hx)
      rw [hfound, if_neg Bool.false_ne_true, List.mapM_append, hothers] at hgroups
      obtain ⟨_, hsame, hgroups⟩ := except_bind_eq_ok.mp hgroups
      obtain ⟨last, hlast, hgroups⟩ := except_bind_eq_ok.mp hgroups
      cases hsame
      cases hgroups
      obtain ⟨group, _, hgroup, hnil, rfl⟩ := List.forall₂_cons_left_iff.mp (mapM_eq_ok_iff.mp hlast)
      cases hnil
      rw [Key.any_firstOfEach] at hfound
      rw [Group.change_new, foldAll_groupAt hslots (Key.same_refl _) (groupAt_fresh hfound) hgroup]
      · rfl
      · intro group hmem
        obtain ⟨first, hfirst, hgroup⟩ := exists_of_forall₂ hall.flip hmem
        rw [groupAt_key hgroup]
        exact hnew first hfirst

/-! ### Groups as scenes -/

theorem row?_ofRows {sources : List BoundSource} {c : Nat} (hc : c ∉ sources.map BoundSource.cursor) (s : Scene)
    (tuple : List (List Value)) : (s.putAll sources tuple).row? c = s.row? c := by
  induction sources generalizing s tuple with
  | nil => rfl
  | cons b sources ih =>
    rw [List.map_cons, List.mem_cons, not_or] at hc
    cases tuple with
    | nil => rfl
    | cons row tuple => rw [Scene.putAll, ih hc.2, Scene.put_other _ _ _ _ hc.1]

theorem scene_groupAt (hfirst : ∀ c, c ∉ q.sources.map BoundSource.cursor → first.row? c = none)
    (h : q.groupAt g scenes first = .ok group) :
    (fun states => { first with accumulators := states }) <$>
        (q.slots.mapM fun a => a.folded (g.members scenes first)) =
      .ok (group.scene (q.sources.map BoundSource.cursor)) := by
  obtain ⟨states, hstates, rfl⟩ := except_map_eq_ok.mp h
  rw [hstates]
  refine congrArg Except.ok (congrArg (Scene.mk · states) (funext fun c => ?_))
  by_cases hc : c ∈ q.sources.map BoundSource.cursor
  · exact (Group.row?_scene rfl hc).symm
  · rw [hfirst c hc]
    have hlookup : ((q.sources.map BoundSource.cursor).zip
        ((q.sources.map BoundSource.cursor).map first.row?)).lookup c = none := by
      refine List.lookup_eq_none_iff.mpr fun x hx => ?_
      rw [bne_iff_ne]
      rintro rfl
      exact hc (List.of_mem_zip hx).1
    simp only [hlookup, Option.join_none]

theorem exists_groups {firsts : List Scene}
    (hfirsts : ∀ first ∈ firsts, ∀ c, c ∉ q.sources.map BoundSource.cursor → first.row? c = none) {groups : List Scene}
    (h : (firsts.mapM fun first => (fun states => { first with accumulators := states }) <$>
      q.slots.mapM fun a => a.folded (g.members scenes first)) = .ok groups) :
    ∃ kept, firsts.mapM (q.groupAt g scenes) = .ok kept ∧
      kept.map (Group.scene (q.sources.map BoundSource.cursor)) = groups := by
  induction firsts generalizing groups with
  | nil =>
    cases h
    exact ⟨[], rfl, rfl⟩
  | cons first firsts ih =>
    obtain ⟨s, rest, hs, hrest, rfl⟩ := List.forall₂_cons_left_iff.mp (mapM_eq_ok_iff.mp h)
    obtain ⟨states, hstates, -⟩ := except_map_eq_ok.mp hs
    have hgroup : q.groupAt g scenes first = .ok ⟨g.key first, (q.sources.map BoundSource.cursor).map first.row?, states⟩ :=
      except_map_eq_ok.mpr ⟨states, hstates, rfl⟩
    rw [scene_groupAt (hfirsts first List.mem_cons_self) hgroup] at hs
    obtain ⟨kept, hkept, rfl⟩ := ih (fun x hx => hfirsts x (List.mem_cons_of_mem _ hx)) (mapM_eq_ok_iff.mpr hrest)
    refine ⟨_ :: kept, mapM_eq_ok_iff.mpr (.cons hgroup (mapM_eq_ok_iff.mp hkept)), ?_⟩
    rw [List.map_cons, Except.ok.inj hs]

theorem groupVisits_eq {kept : List Group}
    (h : ∀ s ∈ kept.map (Group.scene (q.sources.map BoundSource.cursor)), ∃ b, s.test g.having = .ok b) :
    Reader.exact.groupVisits q g kept = ((kept.map (Group.scene (q.sources.map BoundSource.cursor))).filter
      fun s => s.holds g.having).map .ok := by
  induction kept with
  | nil => rfl
  | cons group kept ih =>
    obtain ⟨b, hb⟩ := h _ List.mem_cons_self
    have hrest := ih fun s hs => h s (List.mem_cons_of_mem _ hs)
    have hholds : (group.scene (q.sources.map BoundSource.cursor)).holds g.having = b := by rw [Scene.holds, hb]
    have hvisits : Reader.exact.groupVisits q g (group :: kept) =
        guarded (.ok b) [.ok (group.scene (q.sources.map BoundSource.cursor))] ++ Reader.exact.groupVisits q g kept := by
      rw [← hb]
      rfl
    rw [hvisits, hrest, List.map_cons, List.filter_cons, hholds]
    cases b <;> rfl

/-- Without failures, what a grouped query writes is its fields on the groups that are left. -/
theorem output_eq (hslots : q.SlotsInOrder) (hg : q.grouping = some g)
    (hscenes : ∀ s ∈ scenes, ∀ c, c ∉ q.sources.map BoundSource.cursor → s.row? c = none)
    (hkeys : ∀ s ∈ scenes, ∃ values, TypedExpr.evalAll s g.keys = .ok values) {groups : List Scene}
    (hgroups : q.groupScenes g scenes = .ok groups) (hhaving : ∀ s ∈ groups, ∃ b, s.test g.having = .ok b) (t : Table) :
    Reader.exact.output q (scenes.map .ok) t = (fun rows => rows.foldl Table.push t) <$>
      (slice q.skip q.take (groups.filter fun s => s.holds g.having)).mapM fun s =>
        TypedExpr.evalAll s (q.fields.map BoundField.expr) := by
  have hfirsts : ∀ first ∈ Key.firstOfEach g.key scenes, ∀ c, c ∉ q.sources.map BoundSource.cursor → first.row? c = none :=
    fun first hfirst => hscenes first (Key.firstOfEach_subset _ _ hfirst)
  obtain ⟨kept, hkept, rfl⟩ := exists_groups hfirsts hgroups
  rw [Reader.output, hg]
  change (consume (Reader.exact.gather q g) (scenes.map .ok) [] >>=
    fun r => Reader.exact.written q (Reader.exact.groupVisits q g r.state) t) = _
  rw [consume_gather hslots hkeys hkept]
  change Reader.exact.written q (Reader.exact.groupVisits q g kept) t = _
  rw [groupVisits_eq hhaving, Reader.written, consume_emit]

end BoundQuery

/-! ### Grouped queries -/

/-- The groups of a query are the ones that are written; without any, aggregates make all rows one group. -/
theorem Bind.query_grouping {env : Environment} {s s' : BindState} {x : Query} {q : BoundQuery} {g : Grouping}
    (h : Bind.query env x s = .ok q s') (hg : q.grouping = some g) :
    match x.groupBy with
    | some groupBy => ∃ s₁ s₂ s₃, Bind.exprs .groupKey groupBy.keys s₁ = .ok g.keys s₂ ∧
        Bind.optional .having groupBy.having s₂ = .ok g.having s₃
    | none => q.slots ≠ [] ∧ g = .single := by
  obtain ⟨_, _, _, _, _, grouping, _, _, _, slots, -, -, -, hgrouping, -, -, rfl⟩ := query_eq_ok_iff.mp h
  cases hx : x.groupBy with
  | none =>
    rw [hx] at hgrouping
    cases hgrouping
    cases slots with
    | nil => cases hg
    | cons a slots => exact ⟨List.cons_ne_nil a slots, (Option.some.inj hg).symm⟩
  | some groupBy =>
    rw [hx] at hgrouping
    obtain ⟨keys, s₂, hkeys, hgrouping⟩ := bind_eq_ok.mp hgrouping
    obtain ⟨having, _, hhaving, hgrouping⟩ := bind_eq_ok.mp hgrouping
    cases hgrouping
    cases hg
    exact ⟨_, s₂, _, hkeys, hhaving⟩

section Grouped

variable {env : Environment} {written : Query} {s s' : BindState} {q : BoundQuery} {grouping : Grouping}

/-- A query with groups, written or made up for its aggregates: its procedure ends, and its table holds a
row for each group that passes HAVING, less those that are skipped and not taken. Groups stand in the order in
which their keys first appear; the fields see the rows of a group's first tuple, and in every slot the state to
which all tuples of the group were folded, in order. -/
theorem grouped_query_rows (hbound : Bind.query env written s = .ok q s') (hgrouped : q.grouping = some grouping)
    {name : Option String} {g g' : GenerateState} {table : Nat} (hgen : Generate.query q name g = .ok table g')
    {ctx : RunContext} (hlimit : ctx.limit = 0) (hwithin : g'.Within ctx.program)
    (hcursors : s'.cursors ≤ ctx.program.cursorCount)
    (hmethods : ∀ b ∈ q.sources, ∀ f, b.catalog.Offers f → f.Sound) {m : Machine}
    (hready : m.Ready ctx.program) {rows : List (List (List Value))}
    (hrows : List.Forall₂
      (fun b rows => b.Delivers ctx.sources g.defined (m.tablesBelow g.tables.length) rows) q.sources rows)
    (hnever : NeverFails q.filter q.sources rows .empty)
    (hkeys : ∀ s ∈ q.passing rows, ∃ values, TypedExpr.evalAll s grouping.keys = .ok values)
    {groups : List Scene} (hgroups : q.groupScenes grouping (q.passing rows) = .ok groups)
    (hhaving : ∀ s ∈ groups, ∃ b, s.test grouping.having = .ok b)
    (hfields : ∀ s ∈ slice q.skip q.take (groups.filter fun s => s.holds grouping.having),
      ∃ values, TypedExpr.evalAll s (q.fields.map BoundField.expr) = .ok values) :
    (match written.groupBy with
      | some groupBy => ∃ s₁ s₂ s₃, Bind.exprs .groupKey groupBy.keys s₁ = .ok grouping.keys s₂ ∧
          Bind.optional .having groupBy.having s₂ = .ok grouping.having s₃
      | none => q.slots ≠ [] ∧ grouping = .single) ∧
    ∃ p final t enough, g'.procedures = g.procedures ++ [p] ∧
      (∀ fuel, enough ≤ fuel → Machine.runProcedure ctx fuel p m = .ok true final) ∧
      final.tables = m.tables.set table (some t) ∧ t.columns = q.fields.map BoundField.column ∧
      List.Forall₂ (fun s values => TypedExpr.evalAll s (q.fields.map BoundField.expr) = .ok values)
        (slice written.skip written.take (groups.filter fun s => s.holds grouping.having)) t.rows.toList ∧
      (q.passing rows = [] → t.rows.toList = []) := by
  obtain ⟨⟨entries, hquery⟩, hskip, htake, -⟩ := Bind.query_ok hbound
  obtain ⟨values, hvalues, hall⟩ := exists_mapM_ok hfields
  have hscenes : ∀ s ∈ q.passing rows, ∀ c, c ∉ q.sources.map BoundSource.cursor → s.row? c = none := by
    intro s hs c hc
    obtain ⟨tuple, -, rfl⟩ := List.mem_map.mp (List.mem_of_mem_filter hs)
    exact BoundQuery.row?_ofRows hc .empty tuple
  have houtput : ∀ t, Reader.exact.output q ((q.passing rows).map .ok) t = .ok (values.foldl Table.push t) := by
    intro t
    rw [BoundQuery.output_eq (fun i a ha => (hquery.slots i a ha).1) hgrouped hscenes hkeys hgroups hhaving, hvalues]
    rfl
  obtain ⟨p, final, t, enough, hp, hrun, htables, hcolumns, rfl⟩ := BoundQuery.runs_passing hbound hgen hlimit hwithin
    hcursors hmethods hready hrows hnever houtput
  refine ⟨Bind.query_grouping hbound hgrouped, p, final, t, enough, hp, hrun, htables, hcolumns, hskip ▸ htake ▸ hall,
    fun hnone => ?_⟩
  rw [hnone] at hgroups
  obtain rfl : [] = groups := Except.ok.inj hgroups
  rw [List.filter_nil, slice_nil] at hall
  exact List.forall₂_nil_left_iff.mp hall

/-- Rows with the keys 1, 2, 1 and 3, of which HAVING drops 2: the first group has two rows. -/
theorem grouped_query_rows_having :
    let rows : List (List Value) := [[.integer 1, .text "a"], [.integer 2, .text "b"], [.integer 1, .text "c"],
      [.integer 3, .text "d"]]
    let columns : List Column := [⟨"k", .integer⟩, ⟨"x", .text⟩]
    let schema : MemorySchema := ⟨"m", [("t", ⟨columns, rows⟩)], .standard⟩
    let k : Expr := .column none "k"
    let written : Query :=
      ⟨[.field k none, .field (.column none "x") none, .field (.call none "AggregateValues" [.column none "x"]) (some "all")],
        .schema ⟨"m", "t", []⟩ (some "a"), none, some ⟨[k], some (.binary .ne k (.literal (.integer 2)))⟩, none, some 5⟩
    let key : TypedExpr := .column 0 0 "k" .integer
    let text : TypedExpr := .column 0 1 "x" .text
    let source : BoundSource := ⟨0, "a", .schema schema.toSchema "m" "t" [], columns, none⟩
    let grouping : Grouping := ⟨[key], some (.binary .ne key (.literal (.integer 2)) .boolean), false⟩
    let q : BoundQuery := ⟨"Query1", [source], none, some grouping,
      [⟨"k", key⟩, ⟨"x", text⟩, ⟨"all", .aggregate 0 .text⟩], none, some 5,
      [⟨0, "AggregateValues(x)", ⟨"SetAggregateValues", [.text], .values⟩, [text]⟩]⟩
    let g : GenerateState := ⟨[], [], [], [], 1, 0, []⟩
    ∃ p final t enough, Bind.query ⟨⟨[("m", schema.toSchema)]⟩, .empty⟩ written .init =
        .ok q ⟨[], 1, 1, 0, 0, ["m"]⟩ ∧
      let program : Program := ⟨[p], [⟨"Query1", [⟨"k", .integer⟩, ⟨"x", .text⟩, ⟨"all", .text⟩]⟩],
        [⟨schema.toSchema, "m", "t", [], columns⟩], [Generate.groupingDeclaration q grouping], 1, 1, 0, []⟩
      Generate.query q none g = .ok 0 ⟨[p], program.tables, program.sources, program.groupings, 1, 1, []⟩ ∧
      (∀ fuel, enough ≤ fuel →
        Machine.runProcedure ⟨program, ⟨.empty, 1⟩, 0⟩ fuel p (.init program false) = .ok true final) ∧
      final.tables = [some t] ∧
      t.rows.toList = [[.integer 1, .text "a", .text "a,c"], [.integer 3, .text "d", .text "d"]] := by
  intro rows columns schema k written key text source grouping q g
  have hbound : Bind.query ⟨⟨[("m", schema.toSchema)]⟩, .empty⟩ written .init =
    .ok q ⟨[], 1, 1, 0, 0, ["m"]⟩ := rfl
  let opening : Instruction := { opcode := .openSource, p1 := 0, p2 := 0, comment := some "#m.t() a" }
  let p : Procedure := ⟨"Query1", (q.code ⟨0, none, some 0, 0, [opening]⟩).toArray⟩
  let program : Program := ⟨[p], [⟨"Query1", [⟨"k", .integer⟩, ⟨"x", .text⟩, ⟨"all", .text⟩]⟩],
    [⟨schema.toSchema, "m", "t", [], columns⟩], [Generate.groupingDeclaration q grouping], 1, 1, 0, []⟩
  let ctx : RunContext := ⟨program, ⟨.empty, 1⟩, 0⟩
  let g' : GenerateState := ⟨[p], program.tables, program.sources, program.groupings, 1, 1, []⟩
  have hgen : Generate.query q none g = .ok 0 g' := rfl
  have hwithin : g'.Within ctx.program :=
    ⟨List.prefix_rfl, List.prefix_rfl, List.prefix_rfl, List.prefix_rfl, Nat.le_refl _, Nat.le_refl _⟩
  have hdelivers : source.Delivers ctx.sources g.defined ((Machine.init program false).tablesBelow 0) rows :=
    ⟨fun feed h => schema.quiet_rows h, rfl⟩
  have hmethods : ∀ b ∈ q.sources, ∀ f, b.catalog.Offers f → f.Sound := by
    intro b hb f hf
    obtain rfl : b = source := List.mem_singleton.mp hb
    exact (Catalog.standard_regular hf).sound
  have hnever : NeverFails q.filter q.sources [rows] .empty := fun row _ => ⟨true, rfl, fun _ => ⟨true, rfl⟩⟩
  let scene (row : List Value) : Scene := Scene.ofRows [source] [row]
  let group (row : List Value) (texts : List String) : Scene := { scene row with accumulators := [.values texts] }
  have hpassing : q.passing [rows] = rows.map scene := rfl
  have hkeys : ∀ s ∈ q.passing [rows], ∃ values, TypedExpr.evalAll s grouping.keys = .ok values := by
    rw [hpassing]
    simp only [rows, List.forall_mem_map, List.forall_mem_cons]
    exact ⟨⟨_, rfl⟩, ⟨_, rfl⟩, ⟨_, rfl⟩, ⟨_, rfl⟩, List.forall_mem_nil _⟩
  let groups : List Scene :=
    [group [.integer 1, .text "a"] ["a", "c"], group [.integer 2, .text "b"] ["b"], group [.integer 3, .text "d"] ["d"]]
  have hgroups : q.groupScenes grouping (q.passing [rows]) = .ok groups := by
    rw [hpassing]
    rfl
  have hhaving : ∀ s ∈ groups, ∃ b, s.test grouping.having = .ok b := by
    simp only [groups, List.forall_mem_cons]
    exact ⟨⟨_, rfl⟩, ⟨_, rfl⟩, ⟨_, rfl⟩, List.forall_mem_nil _⟩
  have hslice : slice q.skip q.take (groups.filter fun s => s.holds grouping.having) =
      [group [.integer 1, .text "a"] ["a", "c"], group [.integer 3, .text "d"] ["d"]] := rfl
  have hfields : ∀ s ∈ slice q.skip q.take (groups.filter fun s => s.holds grouping.having),
      ∃ values, TypedExpr.evalAll s (q.fields.map BoundField.expr) = .ok values := by
    rw [hslice]
    simp only [List.forall_mem_cons]
    exact ⟨⟨_, rfl⟩, ⟨_, rfl⟩, List.forall_mem_nil _⟩
  obtain ⟨-, _, final, t, enough, hp, hrun, htables, -, hall, -⟩ :=
    grouped_query_rows hbound rfl hgen rfl hwithin (Nat.le_refl _) hmethods (Machine.ready_init program)
      (.cons hdelivers .nil) hnever hkeys hgroups hhaving hfields
  cases hp
  refine ⟨p, final, t, enough, hbound, hgen, hrun, htables, ?_⟩
  change List.Forall₂ _ [group [.integer 1, .text "a"] ["a", "c"], group [.integer 3, .text "d"] ["d"]] _ at hall
  generalize t.rows.toList = written at hall
  cases hall with
  | cons hfirst hrest =>
    cases hrest with
    | cons hsecond hnil =>
      cases hnil
      cases hfirst
      cases hsecond
      rfl

end Grouped

end TabularQuery
