import Mathlib.Data.List.Duplicate
import TabularQuery.Proofs.Outcomes
import TabularQuery.Proofs.Resolution
import TabularQuery.Proofs.Rewriting
import TabularQuery.Query.Parse

/-!
Aliases of a FROM clause. Those that are given, and the names of defined tables that stand for absent ones, may be any
text; for the tables of schemas that are left without an alias one is made up from a count. Made-up aliases differ from
each other, so the aliases of a clause repeat only if given ones do or if a given one is spelled like one that is made up.
-/

namespace TabularQuery

/-! ### Aliases of a clause -/

/-- The aliases that are made up for `count` tables, if `n` were made up before. -/
def madeUpAliases (n count : Nat) : List String := (List.range' n count).map fun k => s!"t{k}"

theorem madeUpAliases_add (n count more : Nat) :
    madeUpAliases n (count + more) = madeUpAliases n count ++ madeUpAliases (n + count) more := by
  rw [madeUpAliases, ← List.range'_append_1, List.map_append]
  rfl

theorem madeUpAlias_injective : Function.Injective fun k : Nat => s!"t{k}" := by
  intro i j h
  have hdigits : Nat.toDigits 10 i = Nat.toDigits 10 j := by
    have htext : "t" ++ toString i = "t" ++ toString j := h
    have hlist := congrArg String.toList htext
    rw [String.toList_append, String.toList_append] at hlist
    simpa only [Nat.toString_eq_repr, Nat.toList_repr] using List.append_cancel_left hlist
  rw [← Nat.ofDigitChars_ten_toDigits (n := i), hdigits, Nat.ofDigitChars_ten_toDigits]

theorem nodup_madeUpAliases (n count : Nat) : (madeUpAliases n count).Nodup :=
  List.Nodup.map madeUpAlias_injective List.nodup_range'

namespace FromSource

variable (defined : String → Option DefinedTable)

/-- The aliases that are written, and the names that stand for absent ones. -/
def givenAliases : FromSource → List String
  | .schema _ aliasName => aliasName.toList
  | .named name aliasName => (aliasName <|> (defined name).map DefinedTable.name).toList
  | .join left right _ => left.givenAliases ++ right.givenAliases

/-- All aliases in order, if `n` were made up before. -/
def aliases : FromSource → (n : Nat) → List String
  | .schema _ aliasName, n => [aliasName.getD s!"t{n}"]
  | .named name aliasName, _ => (aliasName <|> (defined name).map DefinedTable.name).toList
  | .join left right _, n => left.aliases n ++ right.aliases (n + left.unnamed)

/-- The tables of schemas that the clause reads. -/
def schemaCalls : FromSource → List SchemaCall
  | .schema c _ => [c]
  | .named .. => []
  | .join left right _ => left.schemaCalls ++ right.schemaCalls

theorem aliases_perm (x : FromSource) (n : Nat) :
    (x.aliases defined n).Perm (x.givenAliases defined ++ madeUpAliases n x.unnamed) := by
  induction x generalizing n with
  | schema c aliasName => cases aliasName <;> exact .refl _
  | named name aliasName =>
    rw [unnamed, madeUpAliases, List.range'_zero, List.map_nil, List.append_nil]
    exact .refl _
  | join left right on ihl ihr =>
    have hl := fun a => (ihl n).count_eq a
    have hr := fun a => (ihr (n + left.unnamed)).count_eq a
    refine List.perm_iff_count.mpr fun a => ?_
    simp only [aliases, givenAliases, unnamed, madeUpAliases_add, List.count_append] at hl hr ⊢
    rw [hl, hr]
    omega

variable {defined} {x : FromSource} {n : Nat} {a : String}

/-- An alias that repeats is a made-up one if those that are given do not repeat. -/
theorem mem_of_duplicate (h : (x.aliases defined n).Duplicate a) (hgiven : (x.givenAliases defined).Nodup) :
    a ∈ x.givenAliases defined ∧ a ∈ madeUpAliases n x.unnamed := by
  rw [List.duplicate_iff_two_le_count, (x.aliases_perm defined n).count_eq, List.count_append] at h
  have honce := List.nodup_iff_count_le_one.mp hgiven a
  have honce' := List.nodup_iff_count_le_one.mp (nodup_madeUpAliases n x.unnamed) a
  exact ⟨List.count_pos_iff.mp (by omega), List.count_pos_iff.mp (by omega)⟩

end FromSource

namespace SourceList

variable {s t merged : SourceList} {a : String}

theorem aliases_append (s t : SourceList) : aliases (s ++ t) = s.aliases ++ t.aliases := List.map_append

theorem entry?_eq_none_iff : s.entry? a = none ↔ a ∉ s.aliases := by
  simp [ entry?, aliases]

theorem nodup_of_merge (h : s.merge t = .ok merged) (hs : s.aliases.Nodup) : merged.aliases.Nodup := by
  induction t generalizing s with
  | nil =>
    cases h
    exact hs
  | cons e t ih =>
    rw [merge] at h
    split at h
    · cases h
    · rename_i hnew
      refine ih h ?_
      rw [aliases_append]
      exact List.nodup_append_comm.mp (List.nodup_cons.mpr ⟨entry?_eq_none_iff.mp hnew, hs⟩)

theorem duplicate_of_merge (h : s.merge t = .error (.aliasTaken a)) : (aliases (s ++ t)).Duplicate a := by
  induction t generalizing s with
  | nil => cases h
  | cons e t ih =>
    rw [merge] at h
    split at h
    · rename_i hfound
      cases h
      have hmem : e.aliasName ∈ s.aliases := by
        by_contra hnot
        rw [entry?_eq_none_iff.mpr hnot] at hfound
        cases hfound
      rw [List.duplicate_iff_sublist, aliases_append]
      exact (List.singleton_sublist.mpr hmem).append (List.singleton_sublist.mpr List.mem_cons_self)
    · simpa using ih h

end SourceList

/-! ### Failures of binding -/

/-- All failures but that of an alias that repeats. -/
def Failures.unclashing : Failures where
  Has e := ∀ a, e ≠ .aliasTaken a
  ordinary := by
    rintro e h a rfl
    cases h

theorem Catalog.keeps_selectOverload {α : Type} (name : String) (params : α → List ColumnType) (candidates : List α)
    (args : List ColumnType) : Keeps .unclashing (fun _ => True) (selectOverload name params candidates args) := by
  unfold selectOverload
  split
  · exact .ok trivial
  · dsimp only
    split
    · exact .ok trivial
    · exact .ok trivial
    · exact .error nofun

theorem keeps_findSomeM? {α β : Type} {F : Failures} {f : α → Except Error (Option β)} {xs : List α}
    (h : ∀ x ∈ xs, Keeps F (fun _ => True) (f x)) : Keeps F (fun _ => True) (xs.findSomeM? f) := by
  induction xs with
  | nil => exact .ok trivial
  | cons x xs ih =>
    rw [List.findSomeM?]
    refine (h x List.mem_cons_self).bind fun found _ => ?_
    cases found with
    | some b => exact .ok trivial
    | none => exact ih fun y hy => h y (List.mem_cons_of_mem x hy)

theorem SourceList.keeps_scalar? (s : SourceList) (name : String) (types : List ColumnType) :
    Keeps .unclashing (fun _ => True) (s.scalar? name types) :=
  keeps_findSomeM? fun _ _ => (Catalog.keeps_selectOverload ..).bind fun _ _ => .ok trivial

theorem Catalog.keeps_resolveAccumulator (c : Catalog) (name : String) (args : List ColumnType) :
    Keeps .unclashing (fun _ => True) (c.resolveAccumulator name args) := by
  refine (Catalog.keeps_selectOverload ..).bind fun found _ => ?_
  cases found with
  | some a => exact .ok trivial
  | none => exact .error nofun

theorem SourceList.keeps_aggregate? (s : SourceList) (name : String) (types : List ColumnType) :
    Keeps .unclashing (fun _ => True) (s.aggregate? name types) := by
  unfold aggregate?
  split
  · exact .ok trivial
  · refine keeps_findSomeM? fun c _ => (Catalog.keeps_selectOverload ..).bind fun found _ => ?_
    cases found with
    | some read => exact (c.2.keeps_resolveAccumulator _ types).bind fun _ _ => .ok trivial
    | none => exact .ok trivial

namespace ScopeStack

theorem keeps_insert (s : ScopeStack) (name : String) (symbol : Symbol) :
    Keeps .unclashing (fun _ => True) (s.insert name symbol) := by
  unfold insert
  split
  · exact .error nofun
  · split
    · exact .error nofun
    · exact .ok trivial

theorem keeps_slots (s : ScopeStack) : Keeps .unclashing (fun _ => True) s.slots := by
  induction s with
  | nil => exact .error nofun
  | cons f rest ih =>
    rw [slots]
    split
    · exact .ok trivial
    · exact ih

theorem keeps_addSlot (s : ScopeStack) (slot : AggregateSlot) : Keeps .unclashing (fun _ => True) (s.addSlot slot) := by
  induction s with
  | nil => exact .error nofun
  | cons f rest ih =>
    rw [addSlot]
    split
    · exact .ok trivial
    · exact ih.bind fun _ _ => .ok trivial

theorem keeps_popQuery (s : ScopeStack) : Keeps .unclashing (fun _ => True) s.popQuery.1 := by
  cases s with
  | nil => exact .error fun a h => by cases h
  | cons f rest =>
    rw [popQuery]
    dsimp only
    split
    · exact .ok trivial
    · exact .error fun a h => by cases h

end ScopeStack

namespace Bind

/-- The action fails for other reasons than an alias that repeats. -/
structure Unclashing {α : Type} (x : Bind α) : Prop where
  ne_aliasTaken : ∀ s a s', x s ≠ .error (.aliasTaken a) s'

namespace Unclashing

variable {α β : Type}

theorem bind {x : Bind α} {f : α → Bind β} (hx : Unclashing x) (hf : ∀ b, Unclashing (f b)) : Unclashing (x >>= f) := by
  refine ⟨fun s a s' h => ?_⟩
  rcases bind_eq_error.mp h with h | ⟨b, s₁, -, h⟩
  · exact hx.ne_aliasTaken s a s' h
  · exact (hf b).ne_aliasTaken s₁ a s' h

theorem pure (b : α) : Unclashing (Pure.pure b) := ⟨nofun⟩

theorem throw {e : Error} (h : ∀ a, e ≠ .aliasTaken a) : Unclashing (MonadExcept.throw e : Bind α) := by
  refine ⟨?_⟩
  rintro s a s' ⟨⟩
  exact h a rfl

theorem ofExcept {r : Except Error α} {I : α → Prop} (h : Keeps .unclashing I r) :
    Unclashing (MonadExcept.ofExcept r : Bind α) := by
  refine ⟨fun s a s' hs => ?_⟩
  exact h.failure _ (ofExcept_eq_error.mp hs).1 a rfl

theorem noteLibraries (library : Option String) : Unclashing (library.forM noteLibrary) := by
  cases library <;> exact ⟨nofun⟩

end Unclashing

theorem unclashing_useFunction (library : Option String) (f : BoundFunction) (args : List TypedExpr) :
    Unclashing (useFunction library f args) :=
  (Unclashing.noteLibraries library).bind fun _ => .pure _

theorem unclashing_entry (visible : SourceList) (aliasName : String) :
    Unclashing (MonadExcept.ofExcept (visible.entry aliasName)) := by
  refine .ofExcept (I := fun _ => True) ?_
  unfold SourceList.entry
  split
  · exact .ok trivial
  · exact .error nofun

theorem unclashing_column (aliasName : Option String) (name : String) : Unclashing (column aliasName name) := by
  have hentries : Unclashing entries := ⟨nofun⟩
  refine hentries.bind fun visible => ?_
  cases aliasName with
  | some a =>
    refine (unclashing_entry visible a).bind fun e => ?_
    cases e.column? name with
    | some found => exact .pure _
    | none => exact .throw nofun
  | none =>
    dsimp only
    split
    · exact .pure _
    · split
      · exact unclashing_useFunction ..
      · exact .throw nofun
    · exact .throw nofun

theorem unclashing_slotFor (text : String) (accumulator : AccumulatorMethod) (args : List TypedExpr) :
    Unclashing (slotFor text accumulator args) := by
  have hget : Unclashing (get : Bind BindState) := ⟨nofun⟩
  refine hget.bind fun s => (Unclashing.ofExcept s.scopes.keeps_slots).bind fun slots => ?_
  split
  · exact .pure _
  · refine (Unclashing.ofExcept (s.scopes.keeps_addSlot _)).bind fun scopes => ?_
    have hset : Unclashing (set { s with scopes } : Bind PUnit) := ⟨nofun⟩
    exact hset.bind fun _ => .pure _

theorem unclashing_candidates (aliasName : Option String) : Unclashing (candidates aliasName) := by
  have hentries : Unclashing entries := ⟨nofun⟩
  refine hentries.bind fun visible => ?_
  cases aliasName with
  | some a => exact (unclashing_entry visible a).bind fun _ => .pure _
  | none => exact .pure _

theorem unclashing_useAggregate (clause : Clause) (text : String) (library : Option String) (ty : ColumnType)
    (accumulator : AccumulatorMethod) (args : List TypedExpr) :
    Unclashing (useAggregate clause text library ty accumulator args) := by
  unfold useAggregate
  cases clause.allowsAggregates with
  | false => exact .throw nofun
  | true =>
    cases TypedExpr.anyAggregate args with
    | true => exact .throw nofun
    | false =>
      exact (Unclashing.noteLibraries library).bind fun _ => (unclashing_slotFor ..).bind fun _ => .pure _

theorem unclashing_call (clause : Clause) (text : String) (aliasName : Option String) (name : String)
    (args : List TypedExpr) : Unclashing (call clause text aliasName name args) := by
  refine (unclashing_candidates aliasName).bind fun sources => ?_
  refine (Unclashing.ofExcept (sources.keeps_aggregate? name _)).bind fun aggregate => ?_
  cases aggregate with
  | some found => exact unclashing_useAggregate ..
  | none =>
    refine (Unclashing.ofExcept (sources.keeps_scalar? name _)).bind fun scalar => ?_
    cases scalar with
    | some found => exact unclashing_useFunction ..
    | none =>
      dsimp only
      split
      · exact unclashing_useFunction ..
      · exact .throw nofun

mutual

theorem unclashing_expr (clause : Clause) : ∀ x : Expr, Unclashing (expr clause x)
  | .literal v => .pure _
  | .parens x => unclashing_expr clause x
  | .column aliasName name => unclashing_column aliasName name
  | .call aliasName name args => (unclashing_exprs clause args).bind fun _ => unclashing_call ..
  | .binary op left right => by
    refine (unclashing_expr clause left).bind fun l => (unclashing_expr clause right).bind fun r => ?_
    cases op.resultType? l.type r.type with
    | some ty => exact .pure _
    | none => exact .throw nofun
  | .unary op operand => by
    refine (unclashing_expr clause operand).bind fun e => ?_
    cases op.resultType? e.type with
    | some ty => exact .pure _
    | none => exact .throw nofun
  | .inList operand items => by
    refine (unclashing_expr clause operand).bind fun e => ?_
    refine (unclashing_membership clause operand.text e none items).bind fun test => ?_
    cases test with
    | some test => exact .pure _
    | none => exact .throw nofun

theorem unclashing_exprs (clause : Clause) : ∀ xs : List Expr, Unclashing (exprs clause xs)
  | [] => .pure _
  | x :: xs => (unclashing_expr clause x).bind fun _ => (unclashing_exprs clause xs).bind fun _ => .pure _

theorem unclashing_membership (clause : Clause) (text : String) (operand : TypedExpr) :
    ∀ (before : Option TypedExpr) (items : List Expr), Unclashing (membership clause text operand before items)
  | _, [] => .pure _
  | before, item :: items => by
    refine (unclashing_expr clause item).bind fun e => ?_
    by_cases hkind : e.type.kind = operand.type.kind
    · simp only [ne_eq, hkind, not_true_eq_false, ↓reduceIte]
      exact unclashing_membership clause text operand _ items
    · simp only [ne_eq, hkind, not_false_eq_true, ↓reduceIte]
      exact .throw nofun

end

theorem unclashing_condition (clause : Clause) (x : Expr) : Unclashing (condition clause x) := by
  refine (unclashing_expr clause x).bind fun e => ?_
  split
  · exact .throw nofun
  · exact .pure _

theorem unclashing_optional (clause : Clause) (x : Option Expr) : Unclashing (optional clause x) := by
  cases x with
  | none => exact .pure _
  | some x => exact (unclashing_condition clause x).bind fun _ => .pure _

theorem unclashing_grouping (x : Option GroupBy) : Unclashing (grouping x) := by
  cases x with
  | none => exact .pure _
  | some g =>
    exact (unclashing_exprs .groupKey g.keys).bind fun _ => (unclashing_optional .having g.having).bind fun _ => .pure _

theorem unclashing_selectItems (visible : SourceList) (items : List SelectItem) :
    Unclashing (selectItems visible items) := by
  induction items with
  | nil => exact .pure _
  | cons item items ih =>
    have hitem : Unclashing (selectItem visible item) := by
      cases item with
      | star => exact .pure _
      | field x aliasName => exact (unclashing_expr .field x).bind fun _ => .pure _
    exact hitem.bind fun _ => ih.bind fun _ => .pure _

theorem unclashing_fields (name : String) (visible : SourceList) (items : List SelectItem) :
    Unclashing (fields name visible items) := by
  refine (unclashing_selectItems visible items).bind fun found => ?_
  split
  · exact .throw nofun
  · exact .pure _

theorem unclashing_insertSymbol (name : String) (symbol : Symbol) : Unclashing (insertSymbol name symbol) := by
  have hget : Unclashing (get : Bind BindState) := ⟨nofun⟩
  refine hget.bind fun s => (Unclashing.ofExcept (s.scopes.keeps_insert name symbol)).bind fun scopes => ?_
  exact ⟨nofun⟩

theorem unclashing_popQuery : Unclashing popQuery := by
  have hget : Unclashing (get : Bind BindState) := ⟨nofun⟩
  refine hget.bind fun s => ?_
  have hset : Unclashing (set { s with scopes := s.scopes.popQuery.2 } : Bind PUnit) := ⟨nofun⟩
  exact hset.bind fun _ => .ofExcept s.scopes.keeps_popQuery

/-! ### Binding of the clause -/

variable {env : Environment} {s s' : BindState}

/-- The aliases of the sources are those of the clause, all different. -/
theorem fromSource_aliases : ∀ (x : FromSource) (s s' : BindState) (bound : SourceList × List BoundSource),
    s.scopes.aggregates = [] → fromSource env x s = .ok bound s' →
    bound.1.aliases = x.aliases s.scopes.definedTable? s.aliases ∧ bound.1.aliases.Nodup ∧
      s'.aliases = s.aliases + x.unnamed
  | .schema c aliasName, s, s', bound, _, h => by
    obtain ⟨_, _, name, s₁, -, halias, rfl, _, rfl⟩ := schema_eq_ok h
    cases aliasName <;> cases halias <;> exact ⟨rfl, List.nodup_singleton _, rfl⟩
  | .named name aliasName, s, s', bound, _, h => by
    obtain ⟨t, htable, rfl, rfl⟩ := named_eq_ok h
    rw [FromSource.aliases, htable]
    cases aliasName <;> exact ⟨rfl, List.nodup_singleton _, rfl⟩
  | .join left right on, s, s', bound, haggregates, h => by
    obtain ⟨l, r, test, s₁, scopes₂, s₃, scopes₄, s₅, hleft, hshowLeft, hright, hmerge, hshowRight, htest, rfl, rfl⟩ :=
      join_eq_ok_iff.mp h
    obtain ⟨hl, hdistinct, hcount₁⟩ := fromSource_aliases left { s with scopes := s.scopes.push .join } s₁ l haggregates hleft
    obtain ⟨-, hscopes₁, -⟩ := fromSource_ok left { s with scopes := s.scopes.push .join } s₁ l haggregates hleft
    rw [hscopes₁] at hshowLeft
    have haggregates₂ : scopes₂.aggregates = [] := (ScopeStack.aggregates_insert hshowLeft).trans haggregates
    obtain ⟨hr, -, hcount₃⟩ := fromSource_aliases right { s₁ with scopes := scopes₂ } s₃ r haggregates₂ hright
    have hdefined : scopes₂.definedTable? = s.scopes.definedTable? :=
      funext fun name => ScopeStack.definedTable?_insert hshowLeft name
    obtain ⟨hext, -, -⟩ := condition_ok htest
    refine ⟨?_, SourceList.nodup_of_merge hmerge hdistinct, ?_⟩
    · dsimp only at hl hr hcount₁
      rw [SourceList.aliases_append, hl, hr, hdefined, hcount₁]
      rfl
    · dsimp only at hcount₁ hcount₃
      rw [FromSource.unnamed, ← Nat.add_assoc, ← hcount₁, ← hcount₃]
      exact hext.aliases

theorem fromSource_aliasTaken {a : String} : ∀ (x : FromSource) (s s' : BindState), s.scopes.aggregates = [] →
    fromSource env x s = .error (.aliasTaken a) s' →
    (x.aliases s.scopes.definedTable? s.aliases).Duplicate a ∨
      ∃ c ∈ x.schemaCalls, env.table c = .error (.aliasTaken a)
  | .schema c aliasName, s, s', _, h => by
    rcases bind_eq_error.mp h with htable | ⟨found, s₁, -, h⟩
    · exact .inr ⟨c, List.mem_singleton_self c, (ofExcept_eq_error.mp htable).1⟩
    · cases aliasName <;> cases h
  | .named name aliasName, s, s', _, h => by
    rcases bind_eq_error.mp h with hget | ⟨_, _, hget, h⟩
    · cases hget
    · cases hget
      cases htable : s.scopes.definedTable? name with
      | none | some t =>
        rw [htable] at h
        cases h
  | .join left right on, s, s', haggregates, h => by
    have hnone {α : Type} {x : Bind α} (hx : Unclashing x) {s₁ : BindState} {P : Prop}
        (hfails : x s₁ = .error (.aliasTaken a) s') : P := absurd hfails (hx.ne_aliasTaken s₁ a s')
    rcases bind_eq_error.mp h with hpush | ⟨_, _, hpush, h⟩
    · cases hpush
    cases hpush
    rcases bind_eq_error.mp h with hleft | ⟨l, s₁, hleft, h⟩
    · -- The left side fails.
      refine (fromSource_aliasTaken left { s with scopes := s.scopes.push .join } s' haggregates hleft).imp ?_ ?_
      · exact fun hdup => hdup.mono_sublist (List.sublist_append_left _ _)
      · exact fun ⟨c, hc, htable⟩ => ⟨c, List.mem_append_left _ hc, htable⟩
    obtain ⟨hl, -, hcount⟩ := fromSource_aliases left { s with scopes := s.scopes.push .join } s₁ l haggregates hleft
    obtain ⟨-, hscopes₁, -⟩ := fromSource_ok left { s with scopes := s.scopes.push .join } s₁ l haggregates hleft
    rcases bind_eq_error.mp h with hshow | ⟨_, s₂, hshow, h⟩
    · exact hnone (unclashing_insertSymbol _ _) hshow
    obtain ⟨scopes₂, hinsert, rfl⟩ := insertSymbol_eq_ok_iff.mp hshow
    rw [hscopes₁] at hinsert
    have haggregates₂ : scopes₂.aggregates = [] := (ScopeStack.aggregates_insert hinsert).trans haggregates
    have haliases : FromSource.aliases scopes₂.definedTable? right s₁.aliases =
        right.aliases s.scopes.definedTable? (s.aliases + left.unnamed) := by
      rw [funext (ScopeStack.definedTable?_insert hinsert), hcount]
      rfl
    rcases bind_eq_error.mp h with hright | ⟨r, s₃, hright, h⟩
    · -- The right side fails, in sight of the left one.
      refine (fromSource_aliasTaken right _ s' haggregates₂ hright).imp ?_ ?_
      · intro hdup
        exact (haliases ▸ hdup).mono_sublist (List.sublist_append_right _ _)
      · exact fun ⟨c, hc, htable⟩ => ⟨c, List.mem_append_right _ hc, htable⟩
    obtain ⟨hr, -, -⟩ := fromSource_aliases right { s₁ with scopes := scopes₂ } s₃ r haggregates₂ hright
    rcases bind_eq_error.mp h with hmerge | ⟨merged, s₄, -, h⟩
    · -- An alias of the right side stands on the left one, too.
      left
      have hdup := SourceList.duplicate_of_merge (ofExcept_eq_error.mp hmerge).1
      rw [SourceList.aliases_append, hl, hr, haliases] at hdup
      exact hdup
    rcases bind_eq_error.mp h with hshow | ⟨_, s₅, -, h⟩
    · exact hnone (unclashing_insertSymbol _ _) hshow
    rcases bind_eq_error.mp h with htest | ⟨test, s₆, -, h⟩
    · exact hnone (unclashing_condition _ _) htest
    · cases h

theorem query_aliasTaken {x : Query} {a : String} (h : query env x s = .error (.aliasTaken a) s') :
    (x.source.aliases s.scopes.definedTable? s.aliases).Duplicate a ∨
      ∃ c ∈ x.source.schemaCalls, env.table c = .error (.aliasTaken a) := by
  rcases bind_eq_error.mp h with hnumber | ⟨_, _, hnumber, h⟩
  · cases hnumber
  cases hnumber
  rcases bind_eq_error.mp h with hpush | ⟨_, _, hpush, h⟩
  · cases hpush
  cases hpush
  rcases bind_eq_error.mp h with hfrom | ⟨bound, s₂, -, h⟩
  · exact fromSource_aliasTaken x.source
      { s with queries := s.queries + 1, scopes := s.scopes.push .query } s' rfl hfrom
  · refine absurd h (Unclashing.ne_aliasTaken ?_ s₂ a s')
    refine (unclashing_insertSymbol _ _).bind fun _ => (unclashing_optional _ _).bind fun _ => ?_
    refine (unclashing_grouping _).bind fun _ => (unclashing_fields _ _ _).bind fun _ => ?_
    exact unclashing_popQuery.bind fun _ => .pure _

theorem query_aliases {x : Query} {q : BoundQuery} (h : query env x s = .ok q s') :
    q.sources.map BoundSource.aliasName = x.source.aliases s.scopes.definedTable? s.aliases ∧
      (q.sources.map BoundSource.aliasName).Nodup ∧ s'.aliases = s.aliases + x.source.unnamed := by
  obtain ⟨bound, s₂, scopes₃, filter, s₄, group, s₅, fields, s₆, slots, hfrom, hshow, hfilter, hgroup, hfields, hpop, rfl⟩ :=
    query_eq_ok_iff.mp h
  let s₁ : BindState := { s with queries := s.queries + 1, scopes := s.scopes.push .query }
  obtain ⟨haliases, hdistinct, hcount⟩ := fromSource_aliases x.source s₁ s₂ bound rfl hfrom
  obtain ⟨hentries, -⟩ := fromSource_resolves x.source s₁ s₂ bound rfl hfrom
  have hsources : bound.1.aliases = bound.2.map BoundSource.aliasName := by
    rw [hentries, SourceList.aliases, List.map_map]
    rfl
  rw [hsources] at haliases hdistinct
  -- The clauses after FROM need no more aliases.
  obtain ⟨-, hscopes₂, -⟩ := fromSource_ok x.source s₁ s₂ bound rfl hfrom
  rw [hscopes₂] at hshow
  have hl : scopes₃.entries = bound.1 := ScopeStack.entries_insert hshow
  obtain ⟨f, rest, hf, rfl⟩ := ScopeStack.insert_eq_ok hshow
  cases hf
  obtain ⟨slots', hframe, -, hcount₆⟩ := clauses_ok rfl rfl hl hfilter hgroup hfields
  rw [popQuery_apply rfl hframe] at hpop
  cases hpop
  exact ⟨haliases, hdistinct, hcount₆.trans hcount⟩

end Bind

/-- Made-up aliases differ from each other. A query is bound only if the given and the made-up aliases of its FROM clause
are all different, and these are then the aliases of its sources. If the given ones are and the query fails for an alias
all the same, that alias is both given and made up, unless it is a schema that reports it. -/
theorem alias_taken_if_made_up {env : Environment} {q : Query} {s : BindState} :
    let given := q.source.givenAliases s.scopes.definedTable?
    let madeUp := madeUpAliases s.aliases q.source.unnamed
    madeUp.Nodup ∧
    (∀ b s', Bind.query env q s = .ok b s' →
      b.sources.map BoundSource.aliasName = q.source.aliases s.scopes.definedTable? s.aliases ∧
      (b.sources.map BoundSource.aliasName).Perm (given ++ madeUp) ∧ (given ++ madeUp).Nodup ∧
      s'.aliases = s.aliases + q.source.unnamed) ∧
    ∀ a s', Bind.query env q s = .error (.aliasTaken a) s' → given.Nodup →
      (a ∈ given ∧ a ∈ madeUp) ∨ ∃ c ∈ q.source.schemaCalls, env.table c = .error (.aliasTaken a) := by
  intro given madeUp
  refine ⟨nodup_madeUpAliases _ _, fun b s' h => ?_, fun a s' h hgiven => ?_⟩
  · obtain ⟨haliases, hdistinct, hcount⟩ := Bind.query_aliases h
    have hperm : (b.sources.map BoundSource.aliasName).Perm (given ++ madeUp) :=
      haliases ▸ q.source.aliases_perm s.scopes.definedTable? s.aliases
    exact ⟨haliases, hperm, hperm.nodup_iff.mp hdistinct, hcount⟩
  · exact (Bind.query_aliasTaken h).imp (fun hdup => FromSource.mem_of_duplicate hdup hgiven) id

/-- Two tables without an alias around one with an alias and the defined table `c`: the aliases are `t0`, `a`, `c` and
`t1`. With `t1` in place of `a` the last made-up alias is taken. -/
theorem alias_taken_if_made_up_between :
    let schema : MemorySchema := ⟨"m", [("t", ⟨[⟨"n", .integer⟩], []⟩)], .standard⟩
    let env : Environment := ⟨⟨[("m", schema.toSchema)]⟩, .empty⟩
    let s : BindState := { BindState.init with scopes := [⟨.table, [("c", .defined ⟨"c", [⟨"k", .integer⟩]⟩)], []⟩] }
    let leaf : Option String → FromSource := .schema ⟨"m", "t", []⟩
    let always : Expr := .binary .eq (.literal (.integer 1)) (.literal (.integer 1))
    let written (aliasName : String) : Query := ⟨[.star], .join (.join (.join (leaf none) (leaf (some aliasName)) always)
      (.named "C" none) always) (leaf none) always, none, none, none, none⟩
    (∃ b s', Bind.query env (written "a") s = .ok b s' ∧ b.sources.map BoundSource.aliasName = ["t0", "a", "c", "t1"] ∧
      s'.aliases = 2) ∧
    ∃ s', Bind.query env (written "t1") s = .error (.aliasTaken "t1") s' ∧
      "t1" ∈ (written "t1").source.givenAliases s.scopes.definedTable? ∧ "t1" ∈ madeUpAliases 0 2 := by
  intro schema env s leaf always written
  obtain ⟨b, s', hb⟩ : ∃ b s', Bind.query env (written "a") s = .ok b s' := ⟨_, _, by cbv⟩
  obtain ⟨s'', hfails⟩ : ∃ s'', Bind.query env (written "t1") s = .error (.aliasTaken "t1") s'' := ⟨_, by cbv⟩
  obtain ⟨haliases, -, -, hcount⟩ := alias_taken_if_made_up.2.1 b s' hb
  have hspelled : (written "a").source.aliases s.scopes.definedTable? 0 = ["t0", "a", "c", "t1"] := by cbv
  refine ⟨⟨b, s', hb, haliases.trans hspelled, hcount⟩, s'', hfails, ?_⟩
  refine (alias_taken_if_made_up.2.2 "t1" s'' hfails (by decide)).resolve_right ?_
  rintro ⟨c, hc, htable⟩
  obtain rfl : c = ⟨"m", "t", []⟩ := by simpa [written, leaf, FromSource.schemaCalls] using hc
  cases htable

/-- The only alias that is written is refused as if it were written twice. -/
theorem made_up_alias_taken :
    let schema : MemorySchema := ⟨"m", [("t", ⟨[⟨"n", .integer⟩], [[.integer 1]]⟩)], .standard⟩
    let env : Environment := ⟨⟨[("m", schema.toSchema)]⟩, .empty⟩
    let written (aliasName : String) : Query := ⟨[.field (.literal (.integer 1)) (some "x")],
      .join (.schema ⟨"m", "t", []⟩ (some aliasName)) (.schema ⟨"m", "t", []⟩ none)
        (.binary .eq (.literal (.integer 1)) (.literal (.integer 1))), none, none, none, none⟩
    parse "select 1 as x from #m.t() t0 join #m.t() on 1 = 1" = .ok [.query [] (.query (written "t0"))] ∧
      (∀ defined, (written "t0").source.givenAliases defined = ["t0"]) ∧
      bind env [.query [] (.query (written "t0"))] = .error (.aliasTaken "t0") ∧
      env.Yields ⟨.empty, 1⟩ [.query [] (.query (written "u"))] (.ok ([⟨"x", .integer⟩], [[.integer 1]])) := by
  intro schema env written
  have henv : env.Quiet ⟨.empty, 1⟩ := Environment.quiet_of_memory _ schema _ _
  have hparse : parse "select 1 as x from #m.t() t0 join #m.t() on 1 = 1" = .ok [.query [] (.query (written "t0"))] := by
    rw [parse, tokenize_ofList]
    cbv
  exact ⟨hparse, fun _ => rfl, by cbv, (Environment.yields_ok_iff henv).mpr (by decide +kernel)⟩

end TabularQuery
