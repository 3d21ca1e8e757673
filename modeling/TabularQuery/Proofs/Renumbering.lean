import TabularQuery.Proofs.Gathering

/-!
Queries under other cursor numbers. Two queries that differ in the numbers of their cursors, and whose
sources bring the same, write the same rows or fail alike, whatever functions return.
-/

namespace TabularQuery

/-! ### Outcomes that match -/

/-- The same failure, or values that are related. -/
inductive Matching (R : α → β → Prop) : Except Error α → Except Error β → Prop
  | error (e : Error) : Matching R (.error e) (.error e)
  | ok {a : α} {b : β} (h : R a b) : Matching R (.ok a) (.ok b)

namespace Matching

variable {α β α' β' : Type} {R R' : α → β → Prop} {x : Except Error α} {y : Except Error β}

theorem bind {S : α' → β' → Prop} {f : α → Except Error α'} {g : β → Except Error β'} (h : Matching R x y)
    (hf : ∀ a b, R a b → Matching S (f a) (g b)) : Matching S (x >>= f) (y >>= g) := by
  cases h with
  | error e => exact .error e
  | ok h => exact hf _ _ h

theorem map_eq {γ : Type} {f : α → γ} {g : β → γ} (h : Matching R x y) (hfg : ∀ a b, R a b → f a = g b) :
    f <$> x = g <$> y := by
  cases h with
  | error e => rfl
  | ok h => exact congrArg Except.ok (hfg _ _ h)

theorem map {S : α' → β' → Prop} {f : α → α'} {g : β → β'} (h : Matching R x y)
    (hfg : ∀ a b, R a b → S (f a) (g b)) : Matching S (f <$> x) (g <$> y) := by
  cases h with
  | error e => exact .error e
  | ok h => exact .ok (hfg _ _ h)

theorem map_right {S : α → β' → Prop} {g : β → β'} (h : Matching R x y) (hg : ∀ a b, R a b → S a (g b)) :
    Matching S x (g <$> y) := by
  cases h with
  | error e => exact .error e
  | ok h => exact .ok (hg _ _ h)

theorem refl {R : α → α → Prop} (hR : ∀ a, R a a) (x : Except Error α) : Matching R x x := by
  cases x with
  | error e => exact .error e
  | ok a => exact .ok (hR a)

end Matching

/-- Both want more or both are done, in related states. -/
inductive Progress.Matching (S : σ → τ → Prop) : Progress σ → Progress τ → Prop
  | more {s : σ} {t : τ} (h : S s t) : Progress.Matching S (.more s) (.more t)
  | done {s : σ} {t : τ} (h : S s t) : Progress.Matching S (.done s) (.done t)

theorem Progress.Matching.state {σ τ : Type} {S : σ → τ → Prop} {p : Progress σ} {p' : Progress τ}
    (h : Progress.Matching S p p') : S p.state p'.state := by
  cases h with
  | more h => exact h
  | done h => exact h

section Events

variable {α β σ τ : Type} {R : α → β → Prop} {S : σ → τ → Prop}

theorem consume_matching {body : α → σ → Except Error (Progress σ)} {body' : β → τ → Except Error (Progress τ)}
    (hbody : ∀ a b s t, R a b → S s t → Matching (Progress.Matching S) (body a s) (body' b t))
    {xs : List (Except Error α)} {ys : List (Except Error β)} (hevents : List.Forall₂ (Matching R) xs ys) {s : σ}
    {t : τ} (h : S s t) : Matching (Progress.Matching S) (consume body xs s) (consume body' ys t) := by
  induction hevents generalizing s t with
  | nil => exact .ok (.more h)
  | cons hx _ ih =>
    cases hx with
    | error e => exact .error e
    | ok hab =>
      refine (hbody _ _ s t hab h).bind fun p p' hp => ?_
      cases hp with
      | more h => exact ih h
      | done h => exact .ok (.done h)

theorem forall₂_guarded {test : Except Error Bool} {xs : List (Except Error α)} {ys : List (Except Error β)}
    (h : List.Forall₂ (Matching R) xs ys) : List.Forall₂ (Matching R) (guarded test xs) (guarded test ys) := by
  cases test with
  | error e => exact .cons (.error e) .nil
  | ok holds =>
    cases holds with
    | true => exact h
    | false => exact .nil

theorem forall₂_eachRow {rows : Delivery} {inside : List Value → List (Except Error α)}
    {inside' : List Value → List (Except Error β)}
    (h : ∀ row, .ok row ∈ rows → List.Forall₂ (Matching R) (inside row) (inside' row)) :
    List.Forall₂ (Matching R) (eachRow rows inside) (eachRow rows inside') := by
  induction rows with
  | nil => exact .nil
  | cons x rows ih =>
    refine List.rel_append ?_ (ih fun row hrow => h row (List.mem_cons_of_mem x hrow))
    cases x with
    | error e => exact .cons (.error e) .nil
    | ok row => exact h row List.mem_cons_self

end Events

/-! ### Scenes and readings -/

namespace Scene

variable {ρ : Nat → Nat} {g : Sight} {s t : Scene}

theorem renamed_empty (ρ : Nat → Nat) (methods : BoundFunction → Prop) :
    Scene.Renamed ρ ⟨[], [], methods⟩ .empty .empty :=
  ⟨nofun, nofun⟩

theorem Renamed.put (hρ : Function.Injective ρ) (h : Scene.Renamed ρ g s t) {b : BoundSource} (row : List Value) :
    Scene.Renamed ρ (g.add b) (s.put b.cursor row) (t.put (ρ b.cursor) row) where
  rows c columns hmem := by
    by_cases hc : c = b.cursor
    · rw [hc, put_same, put_same]
    · rw [put_other _ _ _ _ hc, put_other _ _ _ _ (hρ.ne hc)]
      rcases Sight.mem_add.mp hmem with hmem | hmem
      · exact h.rows c columns hmem
      · cases hmem
        exact absurd rfl hc
  slots := h.slots

/-- The scene fits, and the other one is the same under other numbers. -/
structure Mirrored (ρ : Nat → Nat) (g : Sight) (s t : Scene) : Prop where
  fits : s.Fits g.bare
  renamed : Scene.Renamed ρ g s t

end Scene

namespace Reader

variable {ρ : Nat → Nat} {g : Sight} {s t : Scene}

theorem passes_popped_mapCursors (h : Scene.Mirrored ρ g s t) {test : Option TypedExpr} (htest : g.Tests test) :
    popped.passes t (test.map (TypedExpr.mapCursors ρ)) = popped.passes s test := by
  cases test with
  | none => rfl
  | some e =>
    simp only [Option.map_some, passes, popped, TypedExpr.act_mapCursors h.renamed h.fits e (htest e rfl).1]

theorem arguments_popped_mapCursors (h : Scene.Mirrored ρ g s t) {es : List TypedExpr}
    (hes : TypedExpr.AllWellTyped g es) (types : List ColumnType) :
    popped.arguments t types (es.map (TypedExpr.mapCursors ρ)) = popped.arguments s types es := by
  rw [← TypedExpr.mapCursorsAll_eq]
  simp only [popped, TypedExpr.actAll_mapCursors h.renamed h.fits es hes]

theorem values_popped_mapCursors (h : Scene.Mirrored ρ g s t) {es : List TypedExpr}
    (hes : TypedExpr.AllWellTyped g es) :
    popped.values t (es.map (TypedExpr.mapCursors ρ)) = popped.values s es := by
  have htypes : (es.map (TypedExpr.mapCursors ρ)).map TypedExpr.type = es.map TypedExpr.type := by
    simp [Function.comp_def]
  have harguments := arguments_popped_mapCursors h hes (es.map TypedExpr.type)
  have hvalues : ∀ (u : Scene) (xs : List TypedExpr),
      popped.values u xs = popped.arguments u (xs.map TypedExpr.type) xs := fun _ _ => rfl
  rw [hvalues, hvalues, htypes, harguments]

end Reader

/-! ### Loops -/

/-- Which origins may stand for each other, as origins of rows with the given columns. -/
abbrev OriginRelation := List Column → SourceOrigin → SourceOrigin → Prop

/-- The same source under another cursor number, its condition over other numbers, and with an origin that
stands for its own. -/
structure BoundSource.Renumbered (ρ : Nat → Nat) (O : OriginRelation) (b b' : BoundSource) : Prop where
  cursor : b'.cursor = ρ b.cursor
  columns : b'.columns = b.columns
  on : b'.on = b.on.map (TypedExpr.mapCursors ρ)
  origin : O b.columns b.origin b'.origin

/-- Sources under other numbers that bring the same. -/
abbrev RenumberedSupplies (ρ : Nat → Nat) (O : OriginRelation)
    (supplies supplies' : List (BoundSource × Except Error Delivery)) : Prop :=
  List.Forall₂ (fun x y => x.1.Renumbered ρ O y.1 ∧ y.2 = x.2) supplies supplies'

/-- What is brought fits the columns of its source. -/
def FittingSupplies (supplies : List (BoundSource × Except Error Delivery)) : Prop :=
  ∀ x ∈ supplies, ∀ rows, x.2 = .ok rows → ∀ row, .ok row ∈ rows → RowFits x.1.columns row

/-- The loops pass the same scenes, but for the numbers. -/
theorem Reader.visits_renumbered {ρ : Nat → Nat} (hρ : Function.Injective ρ) {O : OriginRelation}
    {filter : Option TypedExpr} {supplies supplies' : List (BoundSource × Except Error Delivery)}
    (hsupplies : RenumberedSupplies ρ O supplies supplies') (hfits : FittingSupplies supplies) {g : Sight}
    (hnested : g.Nested filter (supplies.map Prod.fst)) {s t : Scene} (h : Scene.Mirrored ρ g s t) :
    List.Forall₂ (Matching (Scene.Mirrored ρ ((supplies.map Prod.fst).foldl Sight.add g)))
      (popped.visits filter supplies s)
      (popped.visits (filter.map (TypedExpr.mapCursors ρ)) supplies' t) := by
  induction hsupplies generalizing g s t with
  | nil =>
    rw [visits, visits, passes_popped_mapCursors h hnested]
    exact forall₂_guarded (.cons (.ok h) .nil)
  | @cons x y supplies supplies' hxy _ ih =>
    obtain ⟨b, brought⟩ := x
    obtain ⟨b', brought'⟩ := y
    obtain ⟨hlike, rfl⟩ : b.Renumbered ρ O b' ∧ brought' = brought := hxy
    obtain ⟨hnew, hon, hrest⟩ := hnested
    cases brought' with
    | error e => exact .cons (.error e) .nil
    | ok rows =>
      simp only [visits]
      refine forall₂_eachRow fun row hrow => ?_
      have hrowFits := hfits (b, .ok rows) List.mem_cons_self rows rfl row hrow
      rw [hlike.cursor, hlike.on]
      have hput : Scene.Mirrored ρ (g.add b) (s.put b.cursor row) (t.put (ρ b.cursor) row) :=
        ⟨h.fits.put hnew hrowFits, h.renamed.put hρ row⟩
      rw [passes_popped_mapCursors hput hon]
      exact forall₂_guarded (ih (fun x hx => hfits x (List.mem_cons_of_mem _ hx)) hrest hput)

/-! ### Rows that are written -/

/-- Tables with the same rows. -/
def Table.SameRows (t t' : Table) : Prop := t'.rows = t.rows

/-- The same counts, and tables with the same rows. -/
structure Tally.Matching (t t' : Tally) : Prop where
  skip : t'.skip = t.skip
  take : t'.take = t.take
  table : t.table.SameRows t'.table

namespace Reader

variable {ρ : Nat → Nat} {g : Sight} {s t : Scene}

theorem emit_matching {r : Reader} {fields fields' : List TypedExpr} (hvalues : r.values t fields' = r.values s fields)
    {tally tally' : Tally} (htally : tally.Matching tally') :
    Matching (Progress.Matching Tally.Matching) (r.emit fields s tally) (r.emit fields' t tally') := by
  obtain ⟨hskip, htake, htable⟩ := htally
  unfold emit
  rw [hskip, htake, hvalues]
  split
  · exact .ok (.more ⟨rfl, rfl, htable⟩)
  · split
    · exact .ok (.done ⟨hskip, htake, htable⟩)
    · refine (Matching.refl (R := Eq) (fun _ => rfl) (r.values s fields)).bind ?_
      rintro row _ rfl
      refine .ok (.more ⟨hskip, ?_, ?_⟩)
      · simp only [Tally.write, htake]
      · exact congrArg (Array.push · row) htable

theorem written_renumbered {q q' : BoundQuery} (hskip : q'.skip = q.skip) (htake : q'.take = q.take)
    (hexprs : q'.fields.map BoundField.expr = (q.fields.map BoundField.expr).map (TypedExpr.mapCursors ρ))
    (hfields : TypedExpr.AllWellTyped g (q.fields.map BoundField.expr)) {events events' : List (Except Error Scene)}
    (hevents : List.Forall₂ (Matching (Scene.Mirrored ρ g)) events events') {table table' : Table}
    (htable : table.SameRows table') :
    Matching Table.SameRows (popped.written q events table) (popped.written q' events' table') := by
  have htally : Tally.Matching ⟨q.skip, q.take, table⟩ ⟨q.skip, q.take, table'⟩ := ⟨rfl, rfl, htable⟩
  unfold written
  rw [hskip, htake, hexprs]
  refine (consume_matching ?_ hevents htally).map fun _ _ hprogress => hprogress.state.table
  exact fun _ _ _ _ h htally => emit_matching (values_popped_mapCursors h hfields) htally

theorem written_sameRows (r : Reader) (q : BoundQuery) (events : List (Except Error Scene)) {table table' : Table}
    (htable : table.SameRows table') :
    Matching Table.SameRows (r.written q events table) (r.written q events table') := by
  have htally : Tally.Matching ⟨q.skip, q.take, table⟩ ⟨q.skip, q.take, table'⟩ := ⟨rfl, rfl, htable⟩
  have hevents : List.Forall₂ (Matching Eq) events events :=
    List.forall₂_same.mpr fun x _ => Matching.refl (fun _ => rfl) x
  refine (consume_matching ?_ hevents htally).map fun _ _ hprogress => hprogress.state.table
  rintro s _ _ _ rfl htally
  exact emit_matching rfl htally

theorem output_sameRows (r : Reader) (q : BoundQuery) (events : List (Except Error Scene)) {table table' : Table}
    (htable : table.SameRows table') :
    Matching Table.SameRows (r.output q events table) (r.output q events table') := by
  unfold output
  cases q.grouping with
  | none => exact r.written_sameRows q events htable
  | some g =>
    refine (Matching.refl (R := Eq) (fun _ => rfl) (consume (r.gather q g) events [])).bind ?_
    rintro gathered _ rfl
    exact r.written_sameRows q _ htable

end Reader

/-! ### Groups -/

namespace AggregateSlot

/-- The slot with its arguments over other cursors. -/
def mapCursors (ρ : Nat → Nat) (a : AggregateSlot) : AggregateSlot :=
  { a with args := a.args.map (TypedExpr.mapCursors ρ) }

end AggregateSlot

def Grouping.mapCursors (ρ : Nat → Nat) (g : Grouping) : Grouping :=
  ⟨g.keys.map (TypedExpr.mapCursors ρ), g.having.map (TypedExpr.mapCursors ρ), g.implicit⟩

def BoundField.mapCursors (ρ : Nat → Nat) (f : BoundField) : BoundField := ⟨f.name, f.expr.mapCursors ρ⟩

@[simp] theorem BoundField.column_mapCursors (ρ : Nat → Nat) (f : BoundField) : (f.mapCursors ρ).column = f.column := by
  simp [column, type, mapCursors]

/-- The same query under other cursor numbers; its name does not matter. -/
structure BoundQuery.Renumbered (ρ : Nat → Nat) (O : OriginRelation) (q q' : BoundQuery) : Prop where
  sources : List.Forall₂ (BoundSource.Renumbered ρ O) q.sources q'.sources
  filter : q'.filter = q.filter.map (TypedExpr.mapCursors ρ)
  grouping : q'.grouping = q.grouping.map (Grouping.mapCursors ρ)
  fields : q'.fields = q.fields.map (BoundField.mapCursors ρ)
  skip : q'.skip = q.skip
  take : q'.take = q.take
  slots : q'.slots = q.slots.map (AggregateSlot.mapCursors ρ)

namespace BoundQuery.Renumbered

variable {ρ : Nat → Nat} {O : OriginRelation} {q q' : BoundQuery}

theorem cursors (h : q.Renumbered ρ O q') :
    q'.sources.map BoundSource.cursor = (q.sources.map BoundSource.cursor).map ρ := by
  have hsources := h.sources
  generalize q.sources = sources at hsources ⊢
  generalize q'.sources = sources' at hsources ⊢
  induction hsources with
  | nil => rfl
  | cons hb _ ih => rw [List.map_cons, List.map_cons, List.map_cons, hb.cursor, ih]

theorem exprs (h : q.Renumbered ρ O q') :
    q'.fields.map BoundField.expr = (q.fields.map BoundField.expr).map (TypedExpr.mapCursors ρ) := by
  rw [h.fields, List.map_map, List.map_map]
  rfl

end BoundQuery.Renumbered

namespace Reader

variable {ρ : Nat → Nat} {O : OriginRelation} {g : Sight} {s t : Scene}

theorem foldAll_renumbered (h : Scene.Mirrored ρ g s t) {slots : List AggregateSlot}
    (hargs : ∀ a ∈ slots, TypedExpr.AllWellTyped g a.args) (group : Group) :
    popped.foldAll t (slots.map (AggregateSlot.mapCursors ρ)) group = popped.foldAll s slots group := by
  induction slots generalizing group with
  | nil => rfl
  | cons a slots ih =>
    obtain ⟨ha, hrest⟩ := List.forall_mem_cons.mp hargs
    simp only [List.map_cons, foldAll, AggregateSlot.mapCursors, arguments_popped_mapCursors h ha]
    exact bind_congr fun values => bind_congr fun group' => ih hrest group'

theorem fresh_renumbered {q q' : BoundQuery} (hq : q.Renumbered ρ O q') (grouping : Grouping) (key : Key)
    (h : Scene.Mirrored ρ (.ofSources q.sources methods slots) s t) :
    (Generate.groupingDeclaration q' (grouping.mapCursors ρ)).fresh key t =
      (Generate.groupingDeclaration q grouping).fresh key s := by
  have hrows : (q'.sources.map BoundSource.cursor).map t.row? = (q.sources.map BoundSource.cursor).map s.row? := by
    rw [hq.cursors, List.map_map, List.map_inj_left]
    intro c hc
    obtain ⟨b, hb, rfl⟩ := List.mem_map.mp hc
    exact h.renamed.rows b.cursor b.columns (List.mem_map_of_mem hb)
  simp only [GroupingDeclaration.fresh, Generate.groupingDeclaration, hrows, hq.slots, List.map_map]
  rfl

theorem gather_renumbered {q q' : BoundQuery} (hq : q.Renumbered ρ O q') {grouping : Grouping}
    {methods : BoundFunction → Prop} (hgathers : q.Gathers grouping methods)
    (h : Scene.Mirrored ρ (.ofSources q.sources methods []) s t) (groups : List Group) :
    popped.gather q' (grouping.mapCursors ρ) t groups = popped.gather q grouping s groups := by
  have hkeys : popped.values t (grouping.mapCursors ρ).keys = popped.values s grouping.keys :=
    values_popped_mapCursors h hgathers.keys
  have hlength : (grouping.mapCursors ρ).keys.length = grouping.keys.length := List.length_map _
  have hfold : popped.foldAll t q'.slots = popped.foldAll s q.slots := by
    funext group
    rw [hq.slots, foldAll_renumbered h fun a ha => (hgathers.args a ha).1]
  rw [gather_eq, gather_eq, hkeys, hlength, hfold]
  simp only [fresh_renumbered hq grouping _ h]

end Reader

theorem lookup_zip_injective {α : Type} {ρ : Nat → Nat} (hρ : Function.Injective ρ) (cursors : List Nat) (xs : List α)
    (c : Nat) : ((cursors.map ρ).zip xs).lookup (ρ c) = (cursors.zip xs).lookup c := by
  induction cursors generalizing xs with
  | nil => rfl
  | cons d cursors ih =>
    cases xs with
    | nil => rfl
    | cons x xs =>
      rw [List.map_cons, List.zip_cons_cons, List.zip_cons_cons, List.lookup_cons, List.lookup_cons, ih]
      by_cases hc : c = d
      · simp [hc]
      · rw [beq_eq_false_iff_ne.mpr hc, beq_eq_false_iff_ne.mpr (hρ.ne hc)]

theorem Group.renamed_scene {ρ : Nat → Nat} (hρ : Function.Injective ρ) (g : Sight) (cursors : List Nat)
    (group : Group) : Scene.Renamed ρ g (group.scene cursors) (group.scene (cursors.map ρ)) where
  rows c _ _ := by simp only [scene, lookup_zip_injective hρ]
  slots _ _ := rfl

namespace Reader

variable {ρ : Nat → Nat} {O : OriginRelation} {q q' : BoundQuery} {methods : BoundFunction → Prop}

theorem groupVisits_renumbered (hρ : Function.Injective ρ) (hq : q.Renumbered ρ O q') {grouping : Grouping}
    (hgathers : q.Gathers grouping methods) {groups : List Group}
    (hgroups : ∀ group ∈ groups, group.Fits q fun _ => False) :
    List.Forall₂ (Matching (Scene.Mirrored ρ (.ofSources q.sources methods (q.slots.map AggregateSlot.slot))))
      (popped.groupVisits q grouping groups) (popped.groupVisits q' (grouping.mapCursors ρ) groups) := by
  induction groups with
  | nil => exact .nil
  | cons group groups ih =>
    obtain ⟨hgroup, hrest⟩ := List.forall_mem_cons.mp hgroups
    refine List.rel_append ?_ (ih hrest)
    rw [hq.cursors]
    have hmirrored : Scene.Mirrored ρ (.ofSources q.sources methods (q.slots.map AggregateSlot.slot))
        (group.scene (q.sources.map BoundSource.cursor))
        (group.scene ((q.sources.map BoundSource.cursor).map ρ)) :=
      ⟨hgroup.scene hgathers.slots_lt, Group.renamed_scene hρ _ _ group⟩
    have hhaving := passes_popped_mapCursors hmirrored hgathers.having
    simp only [Grouping.mapCursors, hhaving]
    exact forall₂_guarded (.cons (.ok hmirrored) .nil)

/-- A query under other numbers writes the same rows, or fails alike. -/
theorem output_renumbered (hρ : Function.Injective ρ) (hq : q.Renumbered ρ O q')
    (hflat : q.grouping = none → TypedExpr.AllWellTyped (.ofSources q.sources methods []) (q.fields.map BoundField.expr))
    (hgathers : ∀ g, q.grouping = some g → q.Gathers g methods) {events events' : List (Except Error Scene)}
    (hevents : List.Forall₂ (Matching (Scene.Mirrored ρ (.ofSources q.sources methods []))) events events')
    {table table' : Table} (htable : table.SameRows table') :
    Matching Table.SameRows (popped.output q events table) (popped.output q' events' table') := by
  unfold output
  rw [hq.grouping]
  cases hgrouping : q.grouping with
  | none => exact written_renumbered hq.skip hq.take hq.exprs (hflat hgrouping) hevents htable
  | some grouping =>
    have hgathers := hgathers grouping hgrouping
    have hbody : ∀ s t groups groups', Scene.Mirrored ρ (.ofSources q.sources methods []) s t →
        (groups = groups' ∧ ∀ group ∈ groups, group.Fits q fun _ => False) →
        Matching (Progress.Matching fun groups groups' => groups = groups' ∧ ∀ group ∈ groups, group.Fits q fun _ => False)
          (popped.gather q grouping s groups) (popped.gather q' (grouping.mapCursors ρ) t groups') := by
      rintro s t groups _ h ⟨rfl, hgroups⟩
      rw [gather_renumbered hq hgathers h]
      cases hgather : popped.gather q grouping s groups with
      | error e => exact .error e
      | ok p =>
        have hfits := BoundQuery.fits_gather h.fits hgroups hgather
        refine .ok ?_
        cases p with
        | more groups => exact .more ⟨rfl, hfits⟩
        | done groups => exact .done ⟨rfl, hfits⟩
    refine (consume_matching hbody hevents ⟨rfl, List.forall_mem_nil _⟩).bind fun p p' hp => ?_
    obtain ⟨hstate, hfits⟩ := hp.state
    rw [← hstate]
    exact written_renumbered hq.skip hq.take hq.exprs hgathers.fields (groupVisits_renumbered hρ hq hgathers hfits) htable

end Reader

end TabularQuery
