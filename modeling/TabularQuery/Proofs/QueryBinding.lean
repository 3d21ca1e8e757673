import TabularQuery.Proofs.ExprBinding
import TabularQuery.Proofs.LoopRun

/-!
Binding of queries. A FROM clause gives every source a cursor of its own and puts each join condition
where all that it looks at is in sight; the other clauses see every source. The scopes are afterwards
as they were before.
-/

namespace TabularQuery

/-! ### Scopes -/

namespace ScopeStack

variable {s s' : ScopeStack} {name : String} {l : SourceList}

theorem insert_eq_ok {symbol : Symbol} (h : s.insert name symbol = .ok s') :
    ∃ f rest, s = f :: rest ∧ s' = { f with symbols := f.symbols ++ [(name, symbol)] } :: rest := by
  unfold insert at h
  split at h
  · cases h
  · split at h
    · cases h
    · cases h
      exact ⟨_, _, rfl, rfl⟩

theorem entries_push_join (s : ScopeStack) : (s.push .join).entries = s.entries := by
  simp [push, entries, visible, visibleFrames, ScopeFrame.sourceLists]

theorem entries_push_query (s : ScopeStack) : (s.push .query).entries = [] := rfl

theorem entries_insert (h : s.insert name (.sources l) = .ok s') : s'.entries = s.entries ++ l := by
  obtain ⟨f, rest, rfl, rfl⟩ := insert_eq_ok h
  by_cases hkind : f.kind = .query <;>
    simp [entries, visible, visibleFrames, hkind, ScopeFrame.sourceLists]

theorem aggregates_push_join (s : ScopeStack) : (s.push .join).aggregates = s.aggregates := rfl

theorem aggregates_insert {symbol : Symbol} (h : s.insert name symbol = .ok s') :
    s'.aggregates = s.aggregates := by
  obtain ⟨f, rest, rfl, rfl⟩ := insert_eq_ok h
  by_cases hkind : f.kind = .query <;> simp [aggregates, slots, hkind]

theorem tail_insert {symbol : Symbol} (h : s.insert name symbol = .ok s') : s'.tail = s.tail := by
  obtain ⟨f, rest, rfl, rfl⟩ := insert_eq_ok h
  rfl

theorem definedTable?_push (s : ScopeStack) (kind : ScopeKind) (table : String) :
    (s.push kind).definedTable? table = s.definedTable? table := rfl

theorem definedTable?_insert (h : s.insert name (.sources l) = .ok s') (table : String) :
    s'.definedTable? table = s.definedTable? table := by
  obtain ⟨f, rest, rfl, rfl⟩ := insert_eq_ok h
  have hframe : ∀ key, ScopeFrame.defined? { f with symbols := f.symbols ++ [(name, .sources l)] } key =
      f.defined? key := by
    intro key
    simp only [ScopeFrame.defined?, ScopeFrame.lookup?, List.lookup_append, List.lookup_cons]
    cases f.symbols.lookup key with
    | some symbol => rfl
    | none => by_cases hkey : (key == name) = true <;> simp [hkey]
  simp only [definedTable?, List.findSome?_cons, hframe]

end ScopeStack

theorem SourceList.merge_eq_ok {s t merged : SourceList} (h : s.merge t = .ok merged) :
    merged = s ++ t := by
  induction t generalizing s with
  | nil =>
    cases h
    simp
  | cons e t ih =>
    rw [merge] at h
    split at h
    · cases h
    · simp [ih h]

theorem Sight.Tests.mono {g g' : Sight} {test : Option TypedExpr} (h : g.Tests test)
    (hwithin : g.Within g') : g'.Tests test :=
  fun e he => ⟨.mono hwithin e (h e he).1, (h e he).2⟩

/-! ### FROM clauses -/

/-- The catalog that expressions over the source may call from. -/
def BoundSource.catalog (b : BoundSource) : Catalog :=
  match b.origin with
  | .schema schema .. => schema.catalog
  | .table _ => .standard

theorem Registry.mem_of_schema {r : Registry} {name : String} {schema : Schema} (h : r.schema name = .ok schema) :
    (Text.lower name, schema) ∈ r.schemas := by
  unfold Registry.schema at h
  split at h
  · rename_i hlookup
    cases h
    obtain ⟨before, after, hschemas, -⟩ := List.lookup_eq_some_iff.mp hlookup
    simp [hschemas]
  · cases h

/-- The schema is registered and has the table, or the statement has defined it. -/
def BoundSource.Known (env : Environment) (scopes : ScopeStack) (b : BoundSource) : Prop :=
  match b.origin with
  | .schema schema _ method args => ∃ name, env.registry.schema name = .ok schema ∧
      schema.columns env.files method args = .ok b.columns
  | .table name => ∃ key t, scopes.definedTable? key = some t ∧ t.name = name ∧ t.columns = b.columns

/-- The entry stands for the source. -/
structure SourceEntry.Names (e : SourceEntry) (b : BoundSource) : Prop where
  cursor : e.cursor = b.cursor
  columns : e.columns = b.columns
  catalog : e.catalog = b.catalog

/-- Entries and sources of a FROM clause that is bound under some scopes, with cursors from `first`
on. A join condition sees what the scopes show and the sources up to its own. -/
structure FromBound (env : Environment) (scopes : ScopeStack) (first : Nat) (entries : SourceList)
    (sources : List BoundSource) : Prop where
  names : List.Forall₂ SourceEntry.Names entries sources
  cursors : sources.map BoundSource.cursor = List.range' first sources.length
  outermost : (sources.map BoundSource.on).head? = some none
  on : ∀ i b, sources[i]? = some b →
    (SourceList.sight (scopes.entries ++ entries.take (i + 1)) []).Tests b.on
  known : ∀ b ∈ sources, b.Known env scopes

theorem setLastCondition_concat (test : TypedExpr) (sources : List BoundSource) (b : BoundSource) :
    setLastCondition test (sources ++ [b]) = sources ++ [{ b with on := some test }] := by
  induction sources with
  | nil => rfl
  | cons s sources ih =>
    cases sources with
    | nil => rfl
    | cons s' sources => simpa [setLastCondition] using ih

theorem length_setLastCondition (test : TypedExpr) (sources : List BoundSource) :
    (setLastCondition test sources).length = sources.length := by
  obtain rfl | ⟨init, b, rfl⟩ := List.eq_nil_or_concat' sources
  · rfl
  · simp [setLastCondition_concat]

namespace FromBound

variable {env : Environment} {scopes scopes₁ scopes₂ : ScopeStack} {first : Nat}
variable {left right : SourceList} {leftSources rightSources : List BoundSource}

theorem single {e : SourceEntry} {b : BoundSource} (hnames : e.Names b) (hcursor : b.cursor = first)
    (hon : b.on = none) (hknown : b.Known env scopes) : FromBound env scopes first [e] [b] where
  names := .cons hnames .nil
  cursors := by simp [hcursor]
  outermost := by simp [hon]
  on i b' hb' := by
    obtain ⟨rfl, rfl⟩ : i = 0 ∧ b = b' := by cases i <;> simp_all
    intro x hx
    rw [hon] at hx
    cases hx
  known b' hb' := by
    obtain rfl := List.mem_singleton.mp hb'
    exact hknown

variable {entries : SourceList} {sources : List BoundSource}

theorem nonempty (h : FromBound env scopes first entries sources) : sources ≠ [] := by
  rintro rfl
  exact absurd h.outermost nofun

theorem entries_nonempty (h : FromBound env scopes first entries sources) : entries ≠ [] := by
  rintro rfl
  exact h.nonempty (List.forall₂_nil_left_iff.mp h.names)

theorem cursors_eq (h : FromBound env scopes first entries sources) :
    entries.map (fun e => (e.cursor, e.columns)) = sources.map fun b => (b.cursor, b.columns) := by
  have hnames := h.names
  clear h
  induction hnames with
  | nil => rfl
  | cons hb _ ih => rw [List.map_cons, List.map_cons, hb.cursor, hb.columns, ih]

/-- Both sides of a join, the right one bound in sight of the left one. -/
theorem append (hl : FromBound env scopes₁ first left leftSources)
    (hr : FromBound env scopes₂ (first + leftSources.length) right rightSources)
    (hleft : scopes₁.entries = scopes.entries) (hright : scopes₂.entries = scopes.entries ++ left)
    (hknown₁ : ∀ b ∈ leftSources, b.Known env scopes)
    (hknown₂ : ∀ b ∈ rightSources, b.Known env scopes) :
    FromBound env scopes first (left ++ right) (leftSources ++ rightSources) where
  names := List.rel_append hl.names hr.names
  cursors := by
    rw [List.map_append, hl.cursors, hr.cursors, List.length_append, List.range'_append_1]
  outermost := by rw [List.map_append, List.head?_append, hl.outermost, Option.some_or]
  on i b hb := by
    have hlen := hl.names.length_eq
    by_cases hi : i < leftSources.length
    · rw [List.getElem?_append_left hi] at hb
      have htake : (left ++ right).take (i + 1) = left.take (i + 1) := by
        rw [List.take_append_of_le_length (by omega)]
      rw [htake, ← hleft]
      exact hl.on i b hb
    · rw [List.getElem?_append_right (by omega)] at hb
      have htake : (left ++ right).take (i + 1) = left ++ right.take (i - leftSources.length + 1) := by
        rw [List.take_append, List.take_of_length_le (by omega)]
        congr 2
        omega
      rw [htake, ← List.append_assoc, ← hright]
      exact hr.on _ b hb
  known b hb := (List.mem_append.mp hb).elim (hknown₁ b) (hknown₂ b)

theorem setLast (h : FromBound env scopes first entries sources) (hlength : 2 ≤ sources.length) {test : TypedExpr}
    (htest : test.WellTyped (SourceList.sight (scopes.entries ++ entries) []))
    (hboolean : test.type = .boolean) :
    FromBound env scopes first entries (setLastCondition test sources) := by
  obtain hnil | ⟨init, b, rfl⟩ := List.eq_nil_or_concat' sources
  · exact absurd hnil h.nonempty
  · have hlen := h.names.length_eq
    have hinit := List.forall₂_take_append _ _ _ h.names
    have hlast := List.forall₂_drop_append _ _ _ h.names
    rw [setLastCondition_concat]
    refine ⟨?_, ?_, ?_, ?_, ?_⟩
    · rw [← List.take_append_drop init.length entries]
      refine List.rel_append hinit ?_
      cases hd : entries.drop init.length with
      | nil =>
        rw [hd] at hlast
        cases hlast
      | cons e rest =>
        rw [hd] at hlast
        cases hlast with
        | cons hnames hrest => exact .cons ⟨hnames.cursor, hnames.columns, hnames.catalog⟩ hrest
    · simpa using h.cursors
    · have houtermost := h.outermost
      cases init with
      | nil => exact absurd hlength (by simp)
      | cons b' init => exact houtermost
    · intro i b' hb'
      by_cases hi : i < init.length
      · rw [List.getElem?_append_left hi] at hb'
        exact h.on i b' (by rw [List.getElem?_append_left hi, hb'])
      · rw [List.getElem?_append_right (by omega)] at hb'
        obtain ⟨hzero, rfl⟩ : i - init.length = 0 ∧ { b with on := some test } = b' := by
          cases hd : i - init.length <;> simp_all
        rw [List.take_of_length_le (by rw [hlen, List.length_append, List.length_singleton]; omega)]
        intro x hx
        cases hx
        exact ⟨htest, hboolean⟩
    · intro b' hb'
      rcases List.mem_append.mp hb' with hb' | hb'
      · exact h.known b' (List.mem_append_left _ hb')
      · obtain rfl := List.mem_singleton.mp hb'
        exact h.known b (List.mem_append_right _ (List.mem_singleton_self b))

end FromBound

/-- A query that is bound under some scopes, with cursors from `first` on: `entries` are its sources, and
every clause is well-typed over them. -/
structure QueryBound (env : Environment) (scopes : ScopeStack) (first : Nat) (q : BoundQuery)
    (entries : SourceList) : Prop where
  sources : FromBound env (scopes.push .query) first entries q.sources
  filter : (entries.sight []).Tests q.filter
  keys : ∀ g, q.grouping = some g → TypedExpr.AllWellTyped (entries.sight []) g.keys
  having : ∀ g, q.grouping = some g → (entries.sight (q.slots.map AggregateSlot.slot)).Tests g.having
  fields : TypedExpr.AllWellTyped (entries.sight (q.slots.map AggregateSlot.slot))
    (q.fields.map BoundField.expr)
  names : Column.repeatedName? (q.fields.map BoundField.name) = none
  slots : ∀ (i : Nat) (a : AggregateSlot), q.slots[i]? = some a → a.slot = i ∧ a.WellTyped entries
  flat : q.grouping = none → q.slots = []

namespace Bind

open BindState

variable {env : Environment} {s s' : BindState}

variable {name : String} {symbol : Symbol} {u : PUnit} {bound : SourceList × List BoundSource} {left right : FromSource}
variable {on : Expr} {items : List SelectItem} {f : ScopeFrame} {rest : ScopeStack}
variable {slots : List AggregateSlot} {x : Query} {q : BoundQuery}

theorem insertSymbol_eq_ok_iff :
    insertSymbol name symbol s = .ok u s' ↔ ∃ scopes, s.scopes.insert name symbol = .ok scopes ∧ s' = { s with scopes } := by
  constructor
  · intro h
    replace h := eq_ok_of_bind h rfl
    obtain ⟨scopes, hinsert, h⟩ := ofExcept_bind_eq_ok.mp h
    cases h
    exact ⟨scopes, hinsert, rfl⟩
  · rintro ⟨scopes, hinsert, rfl⟩
    exact bind_eq_ok.mpr ⟨s, s, rfl, bind_eq_ok.mpr ⟨scopes, s, ofExcept_eq_ok.mpr ⟨hinsert, rfl⟩, rfl⟩⟩

theorem alias_ok {aliasName : Option String}
    (h : aliasName.getDM nextAlias s = .ok name s') :
    s'.scopes = s.scopes ∧ s'.cursors = s.cursors := by
  cases aliasName <;> cases h <;> exact ⟨rfl, rfl⟩

theorem known_of_definedTable? {scopes scopes' : ScopeStack} {b : BoundSource}
    (h : ∀ name, scopes.definedTable? name = scopes'.definedTable? name)
    (hb : b.Known env scopes) : b.Known env scopes' := by
  unfold BoundSource.Known at hb ⊢
  split
  · rename_i horigin
    simpa only [horigin] using hb
  · rename_i horigin
    simp only [horigin, h] at hb
    exact hb

/-- A source that is a schema call is under its alias, which may be made up, with a cursor of its own. -/
theorem schema_eq_ok {c : SchemaCall} {aliasName : Option String} (h : fromSource env (.schema c aliasName) s = .ok bound s') :
    ∃ schema columns name s₁, env.table c = .ok (schema, columns) ∧ aliasName.getDM nextAlias s = .ok name s₁ ∧
      bound = ([⟨name, s₁.cursors, columns, some (Text.lower c.schema, schema)⟩],
        [⟨s₁.cursors, name, .schema schema (Text.lower c.schema) c.method c.args, columns, none⟩]) ∧
      ∃ libraries, s' = { s₁ with cursors := s₁.cursors + 1, libraries } := by
  obtain ⟨⟨schema, columns⟩, htable, h⟩ := ofExcept_bind_eq_ok.mp h
  obtain ⟨name, s₁, halias, h⟩ := bind_eq_ok.mp h
  cases h
  exact ⟨schema, columns, name, s₁, htable, halias, rfl, _, rfl⟩

theorem named_eq_ok {aliasName : Option String} (h : fromSource env (.named name aliasName) s = .ok bound s') :
    ∃ t, s.scopes.definedTable? name = some t ∧ s' = { s with cursors := s.cursors + 1 } ∧
      bound = ([⟨aliasName.getD t.name, s.cursors, t.columns, none⟩],
        [⟨s.cursors, aliasName.getD t.name, .table t.name, t.columns, none⟩]) := by
  replace h := eq_ok_of_bind h rfl
  cases htable : s.scopes.definedTable? name with
  | none =>
    rw [htable] at h
    cases h
  | some t =>
    rw [htable] at h
    cases h
    exact ⟨t, rfl, rfl, rfl⟩

/-- The steps of a join: the left side, the right side in sight of it, and the condition in sight of
both. -/
theorem join_eq_ok_iff :
    fromSource env (.join left right on) s = .ok bound s' ↔ ∃ l r test s₁ scopes₂ s₃ scopes₄ s₅,
      fromSource env left { s with scopes := s.scopes.push .join } = .ok l s₁ ∧
      s₁.scopes.insert "left" (.sources l.1) = .ok scopes₂ ∧
      fromSource env right { s₁ with scopes := scopes₂ } = .ok r s₃ ∧
      l.1.merge r.1 = .ok (l.1 ++ r.1) ∧
      s₃.scopes.insert "right" (.sources r.1) = .ok scopes₄ ∧
      condition .on on { s₃ with scopes := scopes₄ } = .ok test s₅ ∧
      bound = (l.1 ++ r.1, setLastCondition test (l.2 ++ r.2)) ∧
      s' = { s₅ with scopes := s₅.scopes.tail } := by
  constructor
  · intro h
    replace h := eq_ok_of_bind h rfl
    obtain ⟨l, s₁, hleft, h⟩ := bind_eq_ok.mp h
    obtain ⟨_, s₂, hshowLeft, h⟩ := bind_eq_ok.mp h
    obtain ⟨r, s₃, hright, h⟩ := bind_eq_ok.mp h
    obtain ⟨merged, hmerge, h⟩ := ofExcept_bind_eq_ok.mp h
    obtain rfl := SourceList.merge_eq_ok hmerge
    obtain ⟨_, s₄, hshowRight, h⟩ := bind_eq_ok.mp h
    obtain ⟨test, s₅, htest, h⟩ := bind_eq_ok.mp h
    replace h := eq_ok_of_bind h rfl
    obtain ⟨rfl, rfl⟩ := pure_eq_ok.mp h
    obtain ⟨scopes₂, hinsertLeft, hs₂⟩ := insertSymbol_eq_ok_iff.mp hshowLeft
    obtain ⟨scopes₄, hinsertRight, hs₄⟩ := insertSymbol_eq_ok_iff.mp hshowRight
    subst hs₂ hs₄
    exact ⟨l, r, test, s₁, scopes₂, s₃, scopes₄, s₅, hleft, hinsertLeft, hright, hmerge, hinsertRight, htest, rfl, rfl⟩
  · rintro ⟨l, r, test, s₁, scopes₂, s₃, scopes₄, s₅, hleft, hinsertLeft, hright, hmerge, hinsertRight, htest, rfl, rfl⟩
    refine bind_eq_ok.mpr ⟨_, _, rfl, bind_eq_ok.mpr ⟨l, s₁, hleft, ?_⟩⟩
    refine bind_eq_ok.mpr ⟨⟨⟩, _, insertSymbol_eq_ok_iff.mpr ⟨scopes₂, hinsertLeft, rfl⟩, ?_⟩
    refine bind_eq_ok.mpr ⟨r, s₃, hright, bind_eq_ok.mpr ⟨_, s₃, ofExcept_eq_ok.mpr ⟨hmerge, rfl⟩, ?_⟩⟩
    refine bind_eq_ok.mpr ⟨⟨⟩, _, insertSymbol_eq_ok_iff.mpr ⟨scopes₄, hinsertRight, rfl⟩, ?_⟩
    exact bind_eq_ok.mpr ⟨test, s₅, htest, rfl⟩

theorem fromSource_ok : ∀ (x : FromSource) (s s' : BindState) (bound : SourceList × List BoundSource),
    s.scopes.aggregates = [] → fromSource env x s = .ok bound s' →
    FromBound env s.scopes s.cursors bound.1 bound.2 ∧ s'.scopes = s.scopes ∧
      s'.cursors = s.cursors + bound.2.length
  | .schema c aliasName, s, s', bound, _, h => by
    obtain ⟨schema, columns, name, s₁, htable, halias, rfl, libraries, rfl⟩ := schema_eq_ok h
    obtain ⟨hscopes, hcursors⟩ := alias_ok halias
    obtain ⟨found, hfound, hcolumns⟩ := except_bind_eq_ok.mp htable
    obtain ⟨columns', hcolumns, hpair⟩ := except_bind_eq_ok.mp hcolumns
    cases hpair
    rw [← hcursors]
    exact ⟨.single ⟨rfl, rfl, rfl⟩ rfl rfl ⟨c.schema, hfound, hcolumns⟩, hscopes, rfl⟩
  | .named name aliasName, s, s', bound, _, h => by
    obtain ⟨t, htable, rfl, rfl⟩ := named_eq_ok h
    exact ⟨.single ⟨rfl, rfl, rfl⟩ rfl rfl ⟨name, t, htable, rfl, rfl⟩, rfl, rfl⟩
  | .join left right on, s, s', bound, haggregates, h => by
    obtain ⟨l, r, test, s₁, scopes₂, s₃, scopes₄, s₅, hleft, hshowLeft, hright, -, hshowRight, htest, rfl, rfl⟩ :=
      join_eq_ok_iff.mp h
    -- The left side is bound with nothing new in sight, the right side in sight of the left one.
    obtain ⟨hl, hscopes₁, hcursors₁⟩ := fromSource_ok left { s with scopes := s.scopes.push .join } s₁ l
      haggregates hleft
    rw [hscopes₁] at hshowLeft
    have hentries₂ : scopes₂.entries = s.scopes.entries ++ l.1 := by
      rw [ScopeStack.entries_insert hshowLeft, ScopeStack.entries_push_join]
    have haggregates₂ : scopes₂.aggregates = [] := by
      rw [ScopeStack.aggregates_insert hshowLeft, ScopeStack.aggregates_push_join, haggregates]
    obtain ⟨hr, hscopes₃, hcursors₃⟩ := fromSource_ok right _ s₃ r haggregates₂ hright
    -- The condition sees both sides.
    rw [hscopes₃] at hshowRight
    have hentries₄ : scopes₄.entries = s.scopes.entries ++ (l.1 ++ r.1) := by
      rw [ScopeStack.entries_insert hshowRight, hentries₂, List.append_assoc]
    have haggregates₄ : scopes₄.aggregates = [] := by
      rw [ScopeStack.aggregates_insert hshowRight, haggregates₂]
    obtain ⟨hext, hwell, hboolean⟩ := condition_ok htest
    have hscopes₅ : s₅.scopes = scopes₄ := hext.scopes_eq rfl
    rw [BindState.sight, hscopes₅, hentries₄, haggregates₄] at hwell
    have hdefined₂ : ∀ name, scopes₂.definedTable? name = s.scopes.definedTable? name := by
      intro name
      rw [ScopeStack.definedTable?_insert hshowLeft, ScopeStack.definedTable?_push]
    simp only [hcursors₁] at hr
    have hboth := hl.append hr (ScopeStack.entries_push_join _) hentries₂
      (fun b hb => known_of_definedTable? (ScopeStack.definedTable?_push s.scopes .join) (hl.known b hb))
      (fun b hb => known_of_definedTable? hdefined₂ (hr.known b hb))
    have hlength : 2 ≤ (l.2 ++ r.2).length := by
      have hlpos := List.length_pos_iff.mpr hl.nonempty
      have hrpos := List.length_pos_iff.mpr hr.nonempty
      rw [List.length_append]
      omega
    refine ⟨hboth.setLast hlength hwell hboolean, ?_, ?_⟩
    · simp only [hscopes₅, ScopeStack.tail_insert hshowRight, ScopeStack.tail_insert hshowLeft]
      rfl
    · simp only [length_setLastCondition, List.length_append, hext.cursors, hcursors₃, hcursors₁,
        Nat.add_assoc]

/-! ### The other clauses -/

theorem optional_ok {clause : Clause} {x : Option Expr} {test : Option TypedExpr}
    (h : optional clause x s = .ok test s') : s.Extends clause s' ∧ s'.sight.Tests test := by
  cases x with
  | none =>
    obtain ⟨rfl, rfl⟩ := pure_eq_ok.mp h
    refine ⟨.refl, ?_⟩
    rintro e ⟨⟩
  | some x =>
    obtain ⟨e, he, rfl⟩ := bind_pure_eq_ok.mp h
    obtain ⟨hext, hwell, hboolean⟩ := condition_ok he
    refine ⟨hext, ?_⟩
    rintro e' ⟨⟩
    exact ⟨hwell, hboolean⟩

theorem grouping_ok {x : Option GroupBy} {g : Option Grouping} (h : grouping x s = .ok g s') :
    ∃ s₁, s.Extends .groupKey s₁ ∧ s₁.Extends .having s' ∧ ∀ g', g = some g' →
      TypedExpr.AllWellTyped s₁.sight g'.keys ∧ s'.sight.Tests g'.having := by
  cases x with
  | none =>
    obtain ⟨rfl, rfl⟩ := pure_eq_ok.mp h
    exact ⟨s, .refl, .refl, nofun⟩
  | some x =>
    obtain ⟨keys, s₁, hkeys, h⟩ := bind_eq_ok.mp h
    obtain ⟨having, hhaving, rfl⟩ := bind_pure_eq_ok.mp h
    obtain ⟨hext, hwell⟩ := exprs_ok _ _ _ _ hkeys
    obtain ⟨hext₁, htests⟩ := optional_ok hhaving
    refine ⟨s₁, hext, hext₁, ?_⟩
    rintro g' ⟨⟩
    exact ⟨hwell, htests⟩

theorem selectItem_ok {item : SelectItem} {fields : List BoundField}
    (h : selectItem s.scopes.entries item s = .ok fields s') :
    s.Extends .field s' ∧ TypedExpr.AllWellTyped s'.sight (fields.map BoundField.expr) := by
  cases item with
  | star =>
    obtain ⟨rfl, rfl⟩ := pure_eq_ok.mp h
    refine ⟨.refl, TypedExpr.allWellTyped_iff.mpr fun e he => ?_⟩
    obtain ⟨f, hf, rfl⟩ := List.mem_map.mp he
    exact starFields_wellTyped hf _
  | field x aliasName =>
    obtain ⟨e, he, rfl⟩ := bind_pure_eq_ok.mp h
    obtain ⟨hext, hwell⟩ := expr_ok _ _ _ _ he
    exact ⟨hext, hwell, trivial⟩

theorem selectItems_ok {fields : List BoundField} (h : selectItems s.scopes.entries items s = .ok fields s') :
    s.Extends .field s' ∧ TypedExpr.AllWellTyped s'.sight (fields.map BoundField.expr) := by
  induction items generalizing s s' fields with
  | nil =>
    obtain ⟨rfl, rfl⟩ := pure_eq_ok.mp h
    exact ⟨.refl, trivial⟩
  | cons item items ih =>
    obtain ⟨these, s₁, hthese, h⟩ := bind_eq_ok.mp h
    obtain ⟨rest, hrest, rfl⟩ := bind_pure_eq_ok.mp h
    obtain ⟨hext, hwell⟩ := selectItem_ok hthese
    rw [← hext.entries] at hrest
    obtain ⟨hext₁, hwell₁⟩ := ih hrest
    refine ⟨hext.trans hext₁, TypedExpr.allWellTyped_iff.mpr fun e he => ?_⟩
    rw [List.map_append, List.mem_append] at he
    rcases he with he | he
    · exact .mono hext₁.sight e (TypedExpr.allWellTyped_iff.mp hwell e he)
    · exact TypedExpr.allWellTyped_iff.mp hwell₁ e he

theorem fields_ok {bound : List BoundField}
    (h : fields name s.scopes.entries items s = .ok bound s') :
    s.Extends .field s' ∧ TypedExpr.AllWellTyped s'.sight (bound.map BoundField.expr) ∧
      Column.repeatedName? (bound.map BoundField.name) = none := by
  obtain ⟨found, s₁, hfound, h⟩ := bind_eq_ok.mp h
  obtain ⟨hext, hwell⟩ := selectItems_ok hfound
  cases hrepeated : Column.repeatedName? (found.map BoundField.name) with
  | some name =>
    rw [hrepeated] at h
    cases h
  | none =>
    rw [hrepeated] at h
    obtain ⟨rfl, rfl⟩ := pure_eq_ok.mp h
    exact ⟨hext, hwell, hrepeated⟩

theorem popQuery_apply (hkind : f.kind = .query) (hscopes : s.scopes = f :: rest) :
    popQuery s = .ok f.slots { s with scopes := rest } := by
  have hpop : s.scopes.popQuery = (.ok f.slots, rest) := by
    rw [hscopes, ScopeStack.popQuery, if_pos hkind]
  refine bind_eq_ok.mpr ⟨s, s, rfl, ?_⟩
  rw [hpop]
  rfl

theorem popQuery_ok (hkind : f.kind = .query)
    (hscopes : s.scopes = f :: rest) (h : popQuery s = .ok slots s') :
    slots = f.slots ∧ s'.scopes = rest ∧ s'.cursors = s.cursors := by
  rw [popQuery_apply hkind hscopes] at h
  cases h
  exact ⟨rfl, rfl, rfl⟩

theorem slots_eq_nil {grouping : Option Grouping}
    (h : (if grouping.isNone && !slots.isEmpty then some Grouping.single else grouping) = none) :
    slots = [] := by
  cases slots with
  | nil => rfl
  | cons a slots => cases grouping <;> cases h

/-- The steps of a query: its sources, which its name then shows, and the clauses in sight of them. -/
theorem query_eq_ok_iff : query env x s = .ok q s' ↔
    ∃ bound s₂ scopes₃ filter s₄ group s₅ bound' s₆ slots,
      fromSource env x.source { s with queries := s.queries + 1, scopes := s.scopes.push .query } = .ok bound s₂ ∧
      s₂.scopes.insert s!"Query{s.queries + 1}" (.sources bound.1) = .ok scopes₃ ∧
      optional .filter x.filter { s₂ with scopes := scopes₃ } = .ok filter s₄ ∧
      grouping x.groupBy s₄ = .ok group s₅ ∧
      fields s!"Query{s.queries + 1}" bound.1 x.fields s₅ = .ok bound' s₆ ∧ popQuery s₆ = .ok slots s' ∧
      q = ⟨s!"Query{s.queries + 1}", bound.2, filter,
        if group.isNone && !slots.isEmpty then some Grouping.single else group, bound', x.skip, x.take, slots⟩ := by
  constructor
  · intro h
    replace h := eq_ok_of_bind h rfl
    replace h := eq_ok_of_bind h rfl
    obtain ⟨bound, s₂, hfrom, h⟩ := bind_eq_ok.mp h
    obtain ⟨_, s₃, hinsert, h⟩ := bind_eq_ok.mp h
    obtain ⟨scopes₃, hshow, rfl⟩ := insertSymbol_eq_ok_iff.mp hinsert
    obtain ⟨filter, s₄, hfilter, h⟩ := bind_eq_ok.mp h
    obtain ⟨group, s₅, hgrouping, h⟩ := bind_eq_ok.mp h
    obtain ⟨bound', s₆, hfields, h⟩ := bind_eq_ok.mp h
    obtain ⟨slots, hpop, rfl⟩ := bind_pure_eq_ok.mp h
    exact ⟨bound, s₂, scopes₃, filter, s₄, group, s₅, bound', s₆, slots, hfrom, hshow, hfilter, hgrouping, hfields, hpop, rfl⟩
  · rintro ⟨bound, s₂, scopes₃, filter, s₄, group, s₅, bound', s₆, slots, hfrom, hshow, hfilter, hgrouping, hfields, hpop, rfl⟩
    refine bind_eq_ok.mpr ⟨_, _, rfl, bind_eq_ok.mpr ⟨_, _, rfl, bind_eq_ok.mpr ⟨bound, s₂, hfrom, ?_⟩⟩⟩
    refine bind_eq_ok.mpr ⟨⟨⟩, _, insertSymbol_eq_ok_iff.mpr ⟨scopes₃, hshow, rfl⟩, ?_⟩
    refine bind_eq_ok.mpr ⟨filter, s₄, hfilter, bind_eq_ok.mpr ⟨group, s₅, hgrouping, ?_⟩⟩
    exact bind_eq_ok.mpr ⟨bound', s₆, hfields, bind_eq_ok.mpr ⟨slots, s', hpop, rfl⟩⟩

/-- A query is well-typed over its sources, and its scope is gone afterwards. -/
theorem query_ok (h : query env x s = .ok q s') :
    (∃ entries, QueryBound env s.scopes s.cursors q entries) ∧ q.skip = x.skip ∧ q.take = x.take ∧
      s'.scopes = s.scopes ∧ s'.cursors = s.cursors + q.sources.length := by
  obtain ⟨⟨entries, sources⟩, s₂, scopes₃, filter, s₄, grouping, s₆, fields, s₇, slots, hfrom, hshow, hfilter, hgrouping,
    hfields, hpop, rfl⟩ := query_eq_ok_iff.mp h
  generalize hs₃ : { s₂ with scopes := scopes₃ } = s₃ at hfilter
  replace hs₃ := hs₃.symm
  obtain ⟨hbound, hscopes₂, hcursors₂⟩ := fromSource_ok x.source _ s₂ (entries, sources) rfl hfrom
  -- From here on the frame of the query shows its sources, and only its slots change.
  rw [hscopes₂] at hshow
  obtain ⟨f, rest, hpushed, hscopes₃⟩ := ScopeStack.insert_eq_ok hshow
  obtain ⟨rfl, rfl⟩ := List.cons.inj hpushed
  have hentries₃ : s₃.scopes.entries = entries := by
    rw [hs₃, ScopeStack.entries_insert hshow, ScopeStack.entries_push_query, List.nil_append]
  have haggregates₃ : s₃.scopes.aggregates = [] := by rw [hs₃, hscopes₃]; rfl
  obtain ⟨hext₄, htests⟩ := optional_ok hfilter
  obtain ⟨s₅, hext₅, hext₆, hgroup⟩ := grouping_ok hgrouping
  have hentries₆ : s₆.scopes.entries = entries := by
    rw [hext₆.entries, hext₅.entries, hext₄.entries, hentries₃]
  rw [← hentries₆] at hfields
  obtain ⟨hext₇, hwell, hnames⟩ := fields_ok hfields
  have hscopes₅ : s₅.scopes = s₃.scopes := (hext₅.scopes_eq rfl).trans (hext₄.scopes_eq rfl)
  obtain ⟨more₆, hframe₆⟩ := hext₆.queryFrame rfl (hscopes₅.trans (by rw [hs₃, hscopes₃]))
  obtain ⟨more₇, hframe₇⟩ := hext₇.queryFrame rfl hframe₆
  obtain ⟨hslots, hscopes₈, hcursors₈⟩ := popQuery_ok rfl hframe₇ hpop
  have hsight₄ : s₄.sight = entries.sight [] := by
    rw [BindState.sight, hext₄.scopes_eq rfl, hentries₃, haggregates₃, List.map_nil]
  have hsight₅ : s₅.sight = entries.sight [] := by
    rw [BindState.sight, hscopes₅, hentries₃, haggregates₃, List.map_nil]
  have haggregates₇ : s₇.scopes.aggregates = slots := by
    rw [hframe₇, hslots]
    rfl
  have hsight₇ : s₇.sight = entries.sight (slots.map AggregateSlot.slot) := by
    rw [BindState.sight, hext₇.entries, hentries₆, haggregates₇]
  have horder₇ : s₇.SlotsInOrder := by
    refine hext₇.slotsInOrder (hext₆.slotsInOrder ?_)
    intro i a ha
    rw [hscopes₅, haggregates₃] at ha
    cases ha
  have hgroups : ∀ g, (if grouping.isNone && !slots.isEmpty then some Grouping.single else grouping) =
      some g → TypedExpr.AllWellTyped (entries.sight []) g.keys ∧
        (entries.sight (slots.map AggregateSlot.slot)).Tests g.having := by
    intro g hg
    split at hg
    · cases hg
      refine ⟨⟨trivial, trivial⟩, ?_⟩
      rintro e ⟨⟩
    · obtain ⟨hkeys, hhaving⟩ := hgroup g hg
      exact ⟨hsight₅ ▸ hkeys, hsight₇ ▸ hhaving.mono hext₇.sight⟩
  refine ⟨⟨entries, hbound, hsight₄ ▸ htests, fun g hg => (hgroups g hg).1, fun g hg => (hgroups g hg).2,
    hsight₇ ▸ hwell, hnames, ?_, ?_⟩, rfl, rfl, hscopes₈, ?_⟩
  · intro i a ha
    have hslot := horder₇ i a (by rw [haggregates₇]; exact ha)
    rwa [hext₇.entries, hentries₆] at hslot
  · exact slots_eq_nil
  · rw [hcursors₈, hext₇.cursors, hext₆.cursors, hext₅.cursors, hext₄.cursors, hs₃]
    exact hcursors₂

end Bind

theorem Bind.query_source {env : Environment} {s s' : BindState} {x : Query} {q : BoundQuery}
    (h : Bind.query env x s = .ok q s') :
    ∃ entries s₁ s₂, fromSource env x.source s₁ = .ok (entries, q.sources) s₂ := by
  obtain ⟨bound, s₂, _, _, _, _, _, _, _, _, hfrom, -, -, -, -, -, rfl⟩ := query_eq_ok_iff.mp h
  exact ⟨bound.1, _, s₂, hfrom⟩

/-! ### Loops of a bound query -/

/-- Conditions that see the sources up to their own stand in nested loops. -/
theorem Sight.nested_of_on {sources : List BoundSource} {methods : BoundFunction → Prop}
    {filter : Option TypedExpr} (hnodup : (sources.map BoundSource.cursor).Nodup)
    (hon : ∀ i b, sources[i]? = some b → (ofSources (sources.take (i + 1)) methods []).Tests b.on)
    (hfilter : (ofSources sources methods []).Tests filter) :
    ∀ rest before, before ++ rest = sources → (ofSources before methods []).Nested filter rest := by
  intro rest
  induction rest with
  | nil =>
    intro before hsplit
    rw [List.append_nil] at hsplit
    exact hsplit ▸ hfilter
  | cons b rest ih =>
    intro before hsplit
    have hb : sources[before.length]? = some b := by
      rw [← hsplit, List.getElem?_append_right (Nat.le_refl _), Nat.sub_self]
      rfl
    have htake : sources.take (before.length + 1) = before ++ [b] := by
      rw [← hsplit, List.take_append, List.take_of_length_le (by omega)]
      simp
    refine ⟨?_, ?_, ?_⟩
    · intro x hx hsame
      obtain ⟨b', hb', rfl⟩ := List.mem_map.mp hx
      rw [← hsplit, List.map_append, List.nodup_append] at hnodup
      exact hnodup.2.2 _ (List.mem_map_of_mem hb') _ (by simp) hsame
    · rw [add_ofSources, ← htake]
      exact hon _ b hb
    · rw [add_ofSources]
      exact ih (before ++ [b]) (by simpa using hsplit)

namespace QueryBound

variable {env : Environment} {scopes : ScopeStack} {first : Nat} {q : BoundQuery} {entries : SourceList}

theorem sight_eq (h : QueryBound env scopes first q entries) (slots : List Nat) :
    entries.sight slots = Sight.ofSources q.sources entries.Offers slots := by
  rw [SourceList.sight, h.sources.cursors_eq, Sight.ofSources]

theorem catalogs (h : QueryBound env scopes first q entries) {c : Option String × Catalog}
    (hc : c ∈ entries.catalogs) : ∃ b ∈ q.sources, b.catalog = c.2 := by
  rw [SourceList.catalogs_eq h.sources.entries_nonempty] at hc
  obtain ⟨e, he, rfl⟩ := List.mem_map.mp hc
  obtain ⟨b, hb, hnames⟩ := exists_of_forall₂ h.sources.names he
  exact ⟨b, hb, hnames.catalog.symm⟩

theorem offers (h : QueryBound env scopes first q entries) {f : BoundFunction} (hf : entries.Offers f) :
    ∃ b ∈ q.sources, b.catalog.Offers f := by
  obtain ⟨c, hc, hf⟩ := hf
  obtain ⟨b, hb, hcatalog⟩ := h.catalogs hc
  exact ⟨b, hb, hcatalog ▸ hf⟩

theorem accumulates (h : QueryBound env scopes first q entries) {a : AccumulatorMethod}
    (ha : entries.Accumulates a) : ∃ b ∈ q.sources, a ∈ b.catalog.accumulators := by
  obtain ⟨c, hc, ha⟩ := ha
  obtain ⟨b, hb, hcatalog⟩ := h.catalogs hc
  exact ⟨b, hb, hcatalog ▸ ha⟩

theorem nested (h : QueryBound env scopes first q entries) :
    Sight.Nested q.filter ⟨[], [], entries.Offers⟩ q.sources := by
  have hnodup : (q.sources.map BoundSource.cursor).Nodup := by
    rw [h.sources.cursors]
    exact List.nodup_range'
  have hfilter := h.filter
  rw [h.sight_eq] at hfilter
  refine Sight.nested_of_on hnodup ?_ hfilter q.sources [] rfl
  intro i b hb
  refine (h.sources.on i b hb).mono ⟨?_, List.Subset.refl _, ?_⟩
  · rw [ScopeStack.entries_push_query, List.nil_append, SourceList.sight, Sight.ofSources, List.map_take,
      List.map_take, h.sources.cursors_eq]
    exact List.Subset.refl _
  · rintro f ⟨c, hc, hf⟩
    refine ⟨c, SourceList.catalogs_subset ?_ (List.take_subset _ _) hc, hf⟩
    have hlt := (List.getElem?_eq_some_iff.mp hb).1
    have hlen := h.sources.names.length_eq
    intro hnil
    have := congrArg List.length hnil
    simp only [List.length_take, List.length_nil] at this
    omega

end QueryBound

end TabularQuery
