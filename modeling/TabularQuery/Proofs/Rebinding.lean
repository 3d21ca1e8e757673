import TabularQuery.Proofs.QueryBinding
import TabularQuery.Proofs.Renumbering

/-!
Binding an expression again. What can be bound over some sources can be bound over sources that have other
cursor numbers and are otherwise alike, and comes to the same but for the numbers.
-/

namespace TabularQuery

/-! ### Sources that are alike -/

/-- The same source under another cursor number. It may belong to another schema, as long as that offers the
same methods. -/
structure SourceEntry.Renumbered (ρ : Nat → Nat) (e e' : SourceEntry) : Prop where
  aliasName : e'.aliasName = e.aliasName
  cursor : e'.cursor = ρ e.cursor
  columns : e'.columns = e.columns
  catalog : e'.catalog = e.catalog

theorem SourceEntry.Renumbered.columnExpr {ρ : Nat → Nat} {e e' : SourceEntry} (h : e.Renumbered ρ e') (i : Nat)
    (c : Column) : e'.columnExpr i c = (e.columnExpr i c).mapCursors ρ := by
  rw [SourceEntry.columnExpr, h.cursor]
  rfl

theorem SourceEntry.Renumbered.column? {ρ : Nat → Nat} {e e' : SourceEntry} (h : e.Renumbered ρ e') (name : String) :
    e'.column? name = e.column? name := by
  rw [SourceEntry.column?, h.columns]
  rfl

/-- Catalogs are searched one after the other; which schemas they belong to is only passed on. -/
theorem map_findSome?_catalogs {β : Type} {f : Option String × Catalog → Option (Option String × β)}
    {g : Catalog → Option β} (hf : ∀ library c, (f (library, c)).map Prod.snd = g c)
    (cs : List (Option String × Catalog)) : (cs.findSome? f).map Prod.snd = (cs.map Prod.snd).findSome? g := by
  induction cs with
  | nil => rfl
  | cons c cs ih =>
    have hc := hf c.1 c.2
    rw [List.findSome?_cons, List.map_cons, List.findSome?_cons, ← hc]
    cases f c with
    | none => exact ih
    | some x => rfl

/-- What a catalog's aggregate for a call reads as, and its accumulator. -/
def Catalog.aggregateCall? (c : Catalog) (name : String) (types : List ColumnType) :
    Except Error (Option (ColumnType × AccumulatorMethod)) := do
  match ← c.resolveAggregate? name types.dropLast with
  | none => return none
  | some read => return some (read.result, ← c.resolveAccumulator (read.accumulator?.getD "") types)

theorem map_findSomeM?_catalogs {β : Type} {f : Option String × Catalog → Except Error (Option (Option String × β))}
    {g : Catalog → Except Error (Option β)} (hf : ∀ library c, Option.map Prod.snd <$> f (library, c) = g c)
    (cs : List (Option String × Catalog)) :
    Option.map Prod.snd <$> cs.findSomeM? f = (cs.map Prod.snd).findSomeM? g := by
  induction cs with
  | nil => rfl
  | cons c cs ih =>
    have hc := hf c.1 c.2
    rw [List.findSomeM?, List.map_cons, List.findSomeM?, ← hc, ← ih]
    cases f c with
    | error e => rfl
    | ok x => cases x <;> rfl

namespace SourceList

/-- The same sources, in the same order. -/
abbrev Renumbered (ρ : Nat → Nat) (l l' : SourceList) : Prop := List.Forall₂ (SourceEntry.Renumbered ρ) l l'

namespace Renumbered

variable {ρ : Nat → Nat} {l l' : SourceList}

theorem entry? (h : l.Renumbered ρ l') (aliasName : String) :
    Option.Rel (SourceEntry.Renumbered ρ) (l.entry? aliasName) (l'.entry? aliasName) := by
  unfold SourceList.entry?
  induction h with
  | nil => exact .none
  | @cons e e' _ _ he _ ih =>
    rw [List.find?_cons, List.find?_cons, he.aliasName]
    split
    · exact .some he
    · exact ih

theorem entry (h : l.Renumbered ρ l') {aliasName : String} {e' : SourceEntry} (he' : l'.entry aliasName = .ok e') :
    ∃ e, l.entry aliasName = .ok e ∧ e.Renumbered ρ e' := by
  have hrel := h.entry? aliasName
  unfold SourceList.entry at he' ⊢
  generalize l.entry? aliasName = found at hrel ⊢
  generalize l'.entry? aliasName = found' at hrel he'
  cases hrel with
  | none => cases he'
  | some he =>
    cases he'
    exact ⟨_, rfl, he⟩

theorem merge {r r' : SourceList} (h : l.Renumbered ρ l') (hr : r.Renumbered ρ r')
    (hmerge : l'.merge r' = .ok (l' ++ r')) : l.merge r = .ok (l ++ r) := by
  induction hr generalizing l l' with
  | nil => rw [List.append_nil]; rfl
  | @cons e e' r r' he _ ih =>
    have hrel := h.entry? e'.aliasName
    rw [SourceList.merge] at hmerge ⊢
    rw [he.aliasName] at hmerge hrel
    generalize l.entry? e.aliasName = found at hrel ⊢
    generalize l'.entry? e.aliasName = found' at hrel hmerge
    cases hrel with
    | some => cases hmerge
    | none =>
      rw [List.append_cons l e r]
      rw [List.append_cons l' e' r'] at hmerge
      exact ih (List.rel_append h (.cons he .nil)) hmerge

theorem catalogs (h : l.Renumbered ρ l') : l'.catalogs.map Prod.snd = l.catalogs.map Prod.snd := by
  have hmap : l'.map SourceEntry.catalog = l.map SourceEntry.catalog := by
    induction h with
    | nil => rfl
    | cons he _ ih => rw [List.map_cons, List.map_cons, he.catalog, ih]
  cases h with
  | nil => rfl
  | @cons e e' l l' =>
    rw [catalogs_eq (List.cons_ne_nil e l), catalogs_eq (List.cons_ne_nil e' l'), List.map_map, List.map_map]
    exact hmap

theorem columns (h : l.Renumbered ρ l') (name : String) :
    List.Forall₂ (fun x y => x.1.Renumbered ρ y.1 ∧ y.2 = x.2) (l.columns name) (l'.columns name) := by
  induction h with
  | nil => exact .nil
  | @cons e e' l l' he _ ih =>
    rw [SourceList.columns, SourceList.columns, List.filterMap_cons, List.filterMap_cons, he.column?]
    cases e.column? name with
    | none => exact ih
    | some found => exact .cons ⟨he, rfl⟩ ih

theorem property? (h : l.Renumbered ρ l') (name : String) :
    (l'.property? name).map Prod.snd = (l.property? name).map Prod.snd := by
  have hlook : ∀ cs : SourceList, (cs.property? name).map Prod.snd =
      (cs.catalogs.map Prod.snd).findSome? fun c => (c.resolveProperty? name).bind Method.bound? := by
    intro cs
    refine map_findSome?_catalogs (fun library c => ?_) cs.catalogs
    dsimp only
    cases c.resolveProperty? name with
    | none => rfl
    | some m =>
      cases hbound : m.bound? <;> simp [hbound]
  rw [hlook, hlook, h.catalogs]

theorem scalar? (h : l.Renumbered ρ l') (name : String) (types : List ColumnType) :
    Option.map Prod.snd <$> l'.scalar? name types = Option.map Prod.snd <$> l.scalar? name types := by
  have hlook : ∀ cs : SourceList, Option.map Prod.snd <$> cs.scalar? name types = (cs.catalogs.map Prod.snd).findSomeM?
      fun c => (fun found => found.bind Method.bound?) <$> c.resolveScalar? name types := by
    intro cs
    refine map_findSomeM?_catalogs (fun library c => ?_) cs.catalogs
    dsimp only
    cases c.resolveScalar? name types with
    | error e => rfl
    | ok found =>
      have hsnd : ((found.bind Method.bound?).map (library, ·)).map Prod.snd = found.bind Method.bound? := by
        cases found.bind Method.bound? <;> rfl
      exact congrArg Except.ok hsnd
  rw [hlook, hlook, h.catalogs]

theorem aggregate? (h : l.Renumbered ρ l') (name : String) (types : List ColumnType) :
    Option.map Prod.snd <$> l'.aggregate? name types = Option.map Prod.snd <$> l.aggregate? name types := by
  have hlook : ∀ cs : SourceList, Option.map Prod.snd <$> cs.aggregate? name types =
      if types.isEmpty then .ok none else (cs.catalogs.map Prod.snd).findSomeM? fun c => c.aggregateCall? name types := by
    intro cs
    unfold SourceList.aggregate?
    split
    · rfl
    · refine map_findSomeM?_catalogs (fun library c => ?_) cs.catalogs
      dsimp only [Catalog.aggregateCall?]
      cases c.resolveAggregate? name types.dropLast with
      | error e => rfl
      | ok found =>
        cases found with
        | none => rfl
        | some read =>
          change Option.map Prod.snd <$> (c.resolveAccumulator (read.accumulator?.getD "") types >>= fun a =>
            .ok (some (library, read.result, a))) = c.resolveAccumulator (read.accumulator?.getD "") types >>= fun a =>
              .ok (some (read.result, a))
          cases c.resolveAccumulator (read.accumulator?.getD "") types <;> rfl
  rw [hlook, hlook, h.catalogs]

end Renumbered

end SourceList

namespace TypedExpr

mutual

theorem hasAggregate_mapCursors (ρ : Nat → Nat) : ∀ e : TypedExpr, (e.mapCursors ρ).hasAggregate = e.hasAggregate
  | .literal _ | .column .. | .aggregate .. => rfl
  | .call _ args => anyAggregate_mapCursorsAll ρ args
  | .binary _ left right _ => by
    rw [mapCursors, hasAggregate, hasAggregate_mapCursors ρ left, hasAggregate_mapCursors ρ right, hasAggregate]
  | .unary _ operand _ => hasAggregate_mapCursors ρ operand

theorem anyAggregate_mapCursorsAll (ρ : Nat → Nat) :
    ∀ es : List TypedExpr, anyAggregate (mapCursorsAll ρ es) = anyAggregate es
  | [] => rfl
  | e :: es => by
    rw [mapCursorsAll, anyAggregate, hasAggregate_mapCursors ρ e, anyAggregate_mapCursorsAll ρ es, anyAggregate]

end

theorem anyAggregate_map_mapCursors (ρ : Nat → Nat) (es : List TypedExpr) :
    anyAggregate (es.map (mapCursors ρ)) = anyAggregate es := by
  rw [← mapCursorsAll_eq, anyAggregate_mapCursorsAll]

end TypedExpr

/-! ### Scopes that are alike -/

namespace ScopeStack

/-- What an expression can tell of scopes is alike: the sources in sight, and the aggregates so far. -/
structure Renumbered (ρ : Nat → Nat) (s s' : ScopeStack) : Prop where
  entries : s.entries.Renumbered ρ s'.entries
  slots : Matching (fun l l' => l' = l.map (AggregateSlot.mapCursors ρ)) s.slots s'.slots

theorem exists_addSlot {s : ScopeStack} {l : List AggregateSlot} (h : s.slots = .ok l) (a : AggregateSlot) :
    ∃ t, s.addSlot a = .ok t ∧ t.slots = .ok (l ++ [a]) := by
  induction s with
  | nil => cases h
  | cons f rest ih =>
    rw [slots] at h
    by_cases hkind : f.kind = .query
    · rw [if_pos hkind] at h
      cases h
      exact ⟨_, if_pos hkind, if_pos hkind⟩
    · rw [if_neg hkind] at h
      obtain ⟨t, ht, hslots⟩ := ih h
      refine ⟨f :: t, ?_, ?_⟩
      · rw [addSlot, if_neg hkind, ht]
        rfl
      · rw [slots, if_neg hkind, hslots]

theorem Renumbered.addSlot {ρ : Nat → Nat} {s s' t' : ScopeStack} {l : List AggregateSlot} {a : AggregateSlot}
    (h : s.Renumbered ρ s') (hl : s.slots = .ok l) (hl' : s'.slots = .ok (l.map (AggregateSlot.mapCursors ρ)))
    (ht' : s'.addSlot (a.mapCursors ρ) = .ok t') : ∃ t, s.addSlot a = .ok t ∧ t.Renumbered ρ t' := by
  obtain ⟨t, ht, hslots⟩ := exists_addSlot hl a
  obtain ⟨t₁, ht₁, hslots'⟩ := exists_addSlot hl' (a.mapCursors ρ)
  rw [ht'] at ht₁
  cases ht₁
  refine ⟨t, ht, ?_, ?_⟩
  · rw [entries_addSlot ht, entries_addSlot ht']
    exact h.entries
  · rw [hslots, hslots']
    exact .ok (by rw [List.map_append, List.map_singleton])

end ScopeStack

namespace Bind

/-- What the second step does over its scopes the first one does over scopes that are alike, and comes to a
value that is related. -/
def Follows (ρ : Nat → Nat) (x : Bind α) (x' : Bind β) (V : α → β → Prop) : Prop :=
  ∀ s s' b t', s.scopes.Renumbered ρ s'.scopes → x' s' = .ok b t' →
    ∃ a t, x s = .ok a t ∧ V a b ∧ t.scopes.Renumbered ρ t'.scopes

namespace Follows

variable {ρ : Nat → Nat} {α β γ δ : Type} {V : α → β → Prop} {W : γ → δ → Prop}

theorem bind {x : Bind α} {x' : Bind β} {f : α → Bind γ} {f' : β → Bind δ} (h : Follows ρ x x' V)
    (hf : ∀ a b, V a b → Follows ρ (f a) (f' b) W) : Follows ρ (x >>= f) (x' >>= f') W := by
  intro s s' d t' hs hrun
  obtain ⟨b, s₁', hx', hrun⟩ := bind_eq_ok.mp hrun
  obtain ⟨a, s₁, hx, hab, hs₁⟩ := h s s' b s₁' hs hx'
  obtain ⟨c, t, hfa, hcd, ht⟩ := hf a b hab s₁ s₁' d t' hs₁ hrun
  exact ⟨c, t, bind_eq_ok.mpr ⟨a, s₁, hx, hfa⟩, hcd, ht⟩

theorem pure {a : α} {b : β} (h : V a b) : Follows ρ (Pure.pure a) (Pure.pure b) V := by
  intro s s' _ _ hs hrun
  obtain ⟨rfl, rfl⟩ := pure_eq_ok.mp hrun
  exact ⟨a, s, rfl, h, hs⟩

theorem ofExcept {x : Except Error α} {x' : Except Error β} (h : ∀ b, x' = .ok b → ∃ a, x = .ok a ∧ V a b) :
    Follows ρ (MonadExcept.ofExcept x) (MonadExcept.ofExcept x') V := by
  intro s s' b t' hs hrun
  obtain ⟨hb, rfl⟩ := ofExcept_eq_ok.mp hrun
  obtain ⟨a, ha, hab⟩ := h b hb
  exact ⟨a, s, ofExcept_eq_ok.mpr ⟨ha, rfl⟩, hab, hs⟩

theorem throw {x : Bind α} {e : Error} : Follows ρ x (MonadExcept.throw e : Bind β) V := by
  intro s s' b t' _ hrun
  cases hrun

theorem noteLibraries (library library' : Option String) :
    Follows ρ (library.forM noteLibrary) (library'.forM noteLibrary) fun _ _ => True := by
  intro s s' _ t' hs hrun
  have hscopes' : t'.scopes = s'.scopes := by cases library' <;> cases hrun <;> rfl
  cases library with
  | none => exact ⟨_, s, rfl, trivial, hscopes' ▸ hs⟩
  | some name => exact ⟨_, _, rfl, trivial, hscopes' ▸ hs⟩

end Follows

/-! ### Expressions -/

theorem exists_of_map_eq {β : Type} {x x' : Except Error (Option (Option String × β))}
    (h : Option.map Prod.snd <$> x' = Option.map Prod.snd <$> x) {found' : Option (Option String × β)}
    (hfound' : x' = .ok found') : ∃ found, x = .ok found ∧ found'.map Prod.snd = found.map Prod.snd := by
  rw [hfound'] at h
  obtain ⟨found, hfound, hsame⟩ := except_map_eq_ok.mp h.symm
  exact ⟨found, hfound, hsame.symm⟩

section Expressions

variable {ρ : Nat → Nat} {clause : Clause}

theorem entries_follows : Follows ρ entries entries (SourceList.Renumbered ρ) := by
  intro s s' _ _ hs hrun
  obtain ⟨rfl, rfl⟩ : s'.scopes.entries = _ ∧ s' = _ := by simpa [entries] using hrun
  exact ⟨s.scopes.entries, s, rfl, hs.entries, hs⟩

theorem useFunction_follows (library library' : Option String) (f : BoundFunction) (args : List TypedExpr) :
    Follows ρ (useFunction library f args) (useFunction library' f (args.map (TypedExpr.mapCursors ρ)))
      fun e e' => e' = e.mapCursors ρ :=
  (Follows.noteLibraries library library').bind fun _ _ _ =>
    .pure (by rw [TypedExpr.mapCursors, TypedExpr.mapCursorsAll_eq])

theorem property_follows {l l' : SourceList} (h : l.Renumbered ρ l') {name : String} {e : Error} {x : Bind TypedExpr} :
    Follows ρ (match l.property? name with | some (library, f) => useFunction library f [] | none => x)
      (match l'.property? name with | some (library, f) => useFunction library f [] | none => MonadExcept.throw e)
      fun e e' => e' = e.mapCursors ρ := by
  have hproperty := h.property? name
  cases hfound' : l'.property? name with
  | none => exact .throw
  | some found' =>
    rw [hfound'] at hproperty
    obtain ⟨found, hfound, hsame⟩ := Option.map_eq_some_iff.mp hproperty.symm
    rw [hfound]
    obtain ⟨library, f⟩ := found
    obtain ⟨library', f'⟩ := found'
    cases hsame
    exact useFunction_follows library library' f []

theorem column_follows (aliasName : Option String) (name : String) :
    Follows ρ (column aliasName name) (column aliasName name) fun e e' => e' = e.mapCursors ρ := by
  refine entries_follows.bind fun l l' h => ?_
  cases aliasName with
  | some a =>
    refine Follows.bind (.ofExcept fun e' he' => h.entry he') fun e e' he => ?_
    rw [he.column?]
    cases e.column? name with
    | none => exact .throw
    | some found => exact .pure (he.columnExpr found.1 found.2)
  | none =>
    have hfound := h.columns name
    dsimp only
    generalize l.columns name = found at hfound ⊢
    generalize l'.columns name = found' at hfound ⊢
    cases hfound with
    | nil => exact property_follows h
    | @cons x y _ _ hxy hrest =>
      cases hrest with
      | nil =>
        obtain ⟨e, i, c⟩ := x
        obtain ⟨e', _, _⟩ := y
        obtain ⟨he, hsame⟩ := hxy
        cases hsame
        exact .pure (he.columnExpr i c)
      | cons => exact .throw

theorem slotFor_follows (text : String) (accumulator : AccumulatorMethod) (args : List TypedExpr) :
    Follows ρ (slotFor text accumulator args) (slotFor text accumulator (args.map (TypedExpr.mapCursors ρ))) Eq := by
  intro s s' n t' hs hrun
  replace hrun := eq_ok_of_bind hrun rfl
  obtain ⟨slots', hslots', hrun⟩ := ofExcept_bind_eq_ok.mp hrun
  obtain ⟨slots, hslots, rfl⟩ : ∃ l, s.scopes.slots = .ok l ∧ slots' = l.map (AggregateSlot.mapCursors ρ) := by
    have hmatching := hs.slots
    rw [hslots'] at hmatching
    cases hl : s.scopes.slots with
    | error e =>
      rw [hl] at hmatching
      cases hmatching
    | ok l =>
      rw [hl] at hmatching
      cases hmatching with
      | ok h => exact ⟨l, rfl, h⟩
  -- The same call has a slot already in both, or in neither.
  have hfind' : (slots.map (AggregateSlot.mapCursors ρ)).find? (fun a => a.text = text) =
      (slots.find? fun a => a.text = text).map (AggregateSlot.mapCursors ρ) := List.find?_map ..
  cases hfind : slots.find? fun a => a.text = text with
  | some a =>
    rw [hfind', hfind] at hrun
    obtain ⟨rfl, rfl⟩ := pure_eq_ok.mp hrun
    refine ⟨a.slot, s, bind_eq_ok.mpr ⟨s, s, rfl, bind_eq_ok.mpr ⟨slots, s, ofExcept_eq_ok.mpr ⟨hslots, rfl⟩, ?_⟩⟩, rfl, hs⟩
    rw [hfind]
    rfl
  | none =>
    rw [hfind', hfind] at hrun
    obtain ⟨scopes', hadd', hrun⟩ := ofExcept_bind_eq_ok.mp hrun
    replace hrun := eq_ok_of_bind hrun rfl
    obtain ⟨rfl, rfl⟩ := pure_eq_ok.mp hrun
    rw [List.length_map] at hadd' ⊢
    obtain ⟨scopes, hadd, hscopes⟩ := hs.addSlot (a := ⟨slots.length, text, accumulator, args⟩) hslots hslots' hadd'
    refine ⟨slots.length, { s with scopes },
      bind_eq_ok.mpr ⟨s, s, rfl, bind_eq_ok.mpr ⟨slots, s, ofExcept_eq_ok.mpr ⟨hslots, rfl⟩, ?_⟩⟩, rfl, hscopes⟩
    rw [hfind]
    exact bind_eq_ok.mpr ⟨scopes, s, ofExcept_eq_ok.mpr ⟨hadd, rfl⟩, rfl⟩

theorem candidates_follows (aliasName : Option String) :
    Follows ρ (candidates aliasName) (candidates aliasName) (SourceList.Renumbered ρ) := by
  refine entries_follows.bind fun l l' h => ?_
  cases aliasName with
  | none => exact .pure h
  | some a => exact Follows.bind (.ofExcept fun e' he' => h.entry he') fun e e' he => .pure (.cons he .nil)

theorem useAggregate_follows (text : String) (library library' : Option String) (ty : ColumnType)
    (accumulator : AccumulatorMethod) (args : List TypedExpr) :
    Follows ρ (useAggregate clause text library ty accumulator args)
      (useAggregate clause text library' ty accumulator (args.map (TypedExpr.mapCursors ρ)))
      fun e e' => e' = e.mapCursors ρ := by
  unfold useAggregate
  rw [TypedExpr.anyAggregate_map_mapCursors]
  cases clause.allowsAggregates with
  | false => exact .throw
  | true =>
    cases TypedExpr.anyAggregate args with
    | true => exact .throw
    | false =>
      refine (Follows.noteLibraries library library').bind fun _ _ _ => ?_
      refine (slotFor_follows text accumulator args).bind ?_
      rintro n _ rfl
      exact .pure rfl

theorem call_follows (text : String) (aliasName : Option String) (name : String) (args : List TypedExpr) :
    Follows ρ (call clause text aliasName name args)
      (call clause text aliasName name (args.map (TypedExpr.mapCursors ρ))) fun e e' => e' = e.mapCursors ρ := by
  have htypes : (args.map (TypedExpr.mapCursors ρ)).map TypedExpr.type = args.map TypedExpr.type := by
    simp [Function.comp_def]
  unfold call
  rw [htypes]
  refine (candidates_follows aliasName).bind fun l l' h => ?_
  -- What is found is the same but for the schema that it belongs to.
  refine Follows.bind (V := fun o o' => o'.map Prod.snd = o.map Prod.snd)
    (.ofExcept fun found' hfound' => exists_of_map_eq (h.aggregate? name _) hfound') fun found found' hfound => ?_
  cases found' with
  | some found' =>
    obtain ⟨found, rfl, hsame⟩ := Option.map_eq_some_iff.mp hfound.symm
    obtain ⟨library, ty, accumulator⟩ := found
    obtain ⟨library', _, _⟩ := found'
    cases hsame
    exact useAggregate_follows text library library' ty accumulator args
  | none =>
    obtain rfl := Option.map_eq_none_iff.mp hfound.symm
    refine Follows.bind (V := fun o o' => o'.map Prod.snd = o.map Prod.snd)
      (.ofExcept fun found' hfound' => exists_of_map_eq (h.scalar? name _) hfound') fun found found' hfound => ?_
    cases found' with
    | some found' =>
      obtain ⟨found, rfl, hsame⟩ := Option.map_eq_some_iff.mp hfound.symm
      obtain ⟨library, f⟩ := found
      obtain ⟨library', _⟩ := found'
      cases hsame
      exact useFunction_follows library library' f args
    | none =>
      obtain rfl := Option.map_eq_none_iff.mp hfound.symm
      dsimp only
      rw [List.isEmpty_map]
      cases args.isEmpty with
      | true => exact property_follows h
      | false => exact .throw

mutual

/-- An expression is bound to the same but for the numbers. -/
theorem expr_follows : ∀ x : Expr, Follows ρ (expr clause x) (expr clause x) fun e e' => e' = e.mapCursors ρ
  | .literal v => .pure rfl
  | .parens x => expr_follows x
  | .column aliasName name => column_follows aliasName name
  | .call aliasName name args => by
    refine (exprs_follows args).bind ?_
    rintro es _ rfl
    exact call_follows _ aliasName name es
  | .binary op left right => by
    refine (expr_follows left).bind ?_
    rintro l _ rfl
    refine (expr_follows right).bind ?_
    rintro r _ rfl
    rw [TypedExpr.type_mapCursors, TypedExpr.type_mapCursors]
    cases op.resultType? l.type r.type with
    | none => exact .throw
    | some ty => exact .pure rfl
  | .unary op operand => by
    refine (expr_follows operand).bind ?_
    rintro o _ rfl
    rw [TypedExpr.type_mapCursors]
    cases op.resultType? o.type with
    | none => exact .throw
    | some ty => exact .pure rfl
  | .inList operand items => by
    refine (expr_follows operand).bind ?_
    rintro o _ rfl
    refine (membership_follows items operand.text o none).bind ?_
    rintro test _ rfl
    cases test with
    | none => exact .throw
    | some test => exact .pure rfl

theorem exprs_follows : ∀ xs : List Expr, Follows ρ (exprs clause xs) (exprs clause xs)
    fun es es' => es' = es.map (TypedExpr.mapCursors ρ)
  | [] => .pure rfl
  | x :: xs => by
    refine (expr_follows x).bind ?_
    rintro e _ rfl
    refine (exprs_follows xs).bind ?_
    rintro es _ rfl
    exact .pure rfl

theorem membership_follows : ∀ (items : List Expr) (text : String) (operand : TypedExpr) (before : Option TypedExpr),
    Follows ρ (membership clause text operand before items)
      (membership clause text (operand.mapCursors ρ) (before.map (TypedExpr.mapCursors ρ)) items)
      fun test test' => test' = test.map (TypedExpr.mapCursors ρ)
  | [], _, _, _ => .pure rfl
  | item :: items, text, operand, before => by
    refine (expr_follows item).bind ?_
    rintro e _ rfl
    rw [TypedExpr.type_mapCursors, TypedExpr.type_mapCursors]
    by_cases hkind : e.type.kind = operand.type.kind
    · rw [if_neg (not_not_intro hkind), if_neg (not_not_intro hkind)]
      have hnext := membership_follows items text operand (some (match before with
        | some earlier => .binary .or earlier (.binary .eq operand e .boolean) .boolean
        | none => .binary .eq operand e .boolean))
      cases before <;> exact hnext
    · rw [if_pos hkind, if_pos hkind]
      exact .throw

end

theorem condition_follows (clause : Clause) (x : Expr) :
    Follows ρ (condition clause x) (condition clause x) fun e e' => e' = e.mapCursors ρ := by
  refine (expr_follows x).bind ?_
  rintro e _ rfl
  rw [TypedExpr.type_mapCursors]
  by_cases hboolean : e.type = .boolean
  · rw [if_neg (not_not_intro hboolean), if_neg (not_not_intro hboolean)]
    exact .pure rfl
  · rw [if_pos hboolean, if_pos hboolean]
    exact .throw

/-! ### Clauses -/

theorem optional_follows (clause : Clause) (x : Option Expr) :
    Follows ρ (optional clause x) (optional clause x) fun test test' => test' = test.map (TypedExpr.mapCursors ρ) := by
  cases x with
  | none => exact .pure rfl
  | some x =>
    refine (condition_follows clause x).bind ?_
    rintro e _ rfl
    exact .pure rfl

theorem grouping_follows (x : Option GroupBy) :
    Follows ρ (grouping x) (grouping x) fun g g' => g' = g.map (Grouping.mapCursors ρ) := by
  cases x with
  | none => exact .pure rfl
  | some x =>
    refine (exprs_follows x.keys).bind ?_
    rintro keys _ rfl
    refine (optional_follows .having x.having).bind ?_
    rintro having _ rfl
    exact .pure rfl

theorem starFields_renumbered {l l' : SourceList} (h : l.Renumbered ρ l') :
    starFields l' = (starFields l).map (BoundField.mapCursors ρ) := by
  unfold starFields
  rw [← h.length_eq]
  generalize l.length = n
  induction h with
  | nil => rfl
  | @cons e e' _ _ he _ ih =>
    rw [List.flatMap_cons, List.flatMap_cons, List.map_append, ih, List.map_map, he.columns, he.aliasName]
    congr 1
    refine List.map_congr_left fun ⟨c, i⟩ _ => ?_
    dsimp only
    rw [he.columnExpr]
    rfl

theorem selectItem_follows {l l' : SourceList} (h : l.Renumbered ρ l') (item : SelectItem) :
    Follows ρ (selectItem l item) (selectItem l' item) fun fs fs' => fs' = fs.map (BoundField.mapCursors ρ) := by
  cases item with
  | star => exact .pure (starFields_renumbered h)
  | field x aliasName =>
    refine (expr_follows x).bind ?_
    rintro e _ rfl
    exact .pure rfl

theorem selectItems_follows {l l' : SourceList} (h : l.Renumbered ρ l') (items : List SelectItem) :
    Follows ρ (selectItems l items) (selectItems l' items) fun fs fs' => fs' = fs.map (BoundField.mapCursors ρ) := by
  induction items with
  | nil => exact .pure rfl
  | cons item items ih =>
    refine (selectItem_follows h item).bind ?_
    rintro these _ rfl
    refine ih.bind ?_
    rintro rest _ rfl
    exact .pure List.map_append.symm

theorem fields_follows {l l' : SourceList} (h : l.Renumbered ρ l') (name name' : String) (items : List SelectItem) :
    Follows ρ (fields name l items) (fields name' l' items) fun fs fs' => fs' = fs.map (BoundField.mapCursors ρ) := by
  refine (selectItems_follows h items).bind ?_
  rintro fs _ rfl
  have hnames : (fs.map (BoundField.mapCursors ρ)).map BoundField.name = fs.map BoundField.name := by
    simp [BoundField.mapCursors, Function.comp_def]
  rw [hnames]
  cases Column.repeatedName? (fs.map BoundField.name) with
  | some name => exact .throw
  | none => exact .pure rfl

end Expressions

end Bind

end TabularQuery
