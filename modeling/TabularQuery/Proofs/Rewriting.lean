import TabularQuery.Proofs.Meaning
import TabularQuery.Proofs.Rebinding

/-!
Queries that are written in another way. Aliases that would be made up may be spelled out, and something else
may stand for the name of a defined table. If a query can be bound, so it can when it is rewritten, from a
state with other numbers; what comes of it differs in the numbers of cursors and in the origins that were
replaced.
-/

namespace TabularQuery

/-! ### Rewriting -/

/-- Another way to write FROM clauses: whether aliases that would be made up are spelled out, and what stands
for the name of a defined table. -/
structure Rewriting where
  spells : Bool
  named : (name : String) → (aliasName : Option String) → FromSource

namespace Rewriting

/-- Everything stays as it is written. -/
def keep : Rewriting := ⟨false, .named⟩

/-- The alias of a schema's table, if `n` were made up before it. -/
def aliasAt (w : Rewriting) (n : Nat) (aliasName : Option String) : Option String :=
  if w.spells then some (aliasName.getD s!"t{n}") else aliasName

end Rewriting

namespace FromSource

/-- The number of aliases that have to be made up. -/
def unnamed : FromSource → Nat
  | .schema _ aliasName => if aliasName.isNone then 1 else 0
  | .named .. => 0
  | .join left right _ => left.unnamed + right.unnamed

/-- The clause in another way, if `n` aliases were made up before it. -/
def rewrite (w : Rewriting) : FromSource → (n : Nat) → FromSource
  | .schema c aliasName, n => .schema c (w.aliasAt n aliasName)
  | .named name aliasName, _ => w.named name aliasName
  | .join left right on, n => .join (left.rewrite w n) (right.rewrite w (n + left.unnamed)) on

@[simp] theorem rewrite_keep (x : FromSource) (n : Nat) : x.rewrite .keep n = x := by
  induction x generalizing n with
  | schema => rfl
  | named => rfl
  | join left right on ihl ihr => rw [rewrite, ihl, ihr]

end FromSource

def Query.rewrite (w : Rewriting) (q : Query) (n : Nat) : Query := { q with source := q.source.rewrite w n }

namespace SetExpr

def unnamed : SetExpr → Nat
  | .query q => q.source.unnamed
  | .operation _ _ left right => left.unnamed + right.unnamed

def rewrite (w : Rewriting) : SetExpr → (n : Nat) → SetExpr
  | .query q, n => .query (q.rewrite w n)
  | .operation op keys left right, n => .operation op keys (left.rewrite w n) (right.rewrite w (n + left.unnamed))

@[simp] theorem rewrite_keep (x : SetExpr) (n : Nat) : x.rewrite .keep n = x := by
  induction x generalizing n with
  | query q => rw [rewrite, Query.rewrite, FromSource.rewrite_keep]
  | operation op keys left right ihl ihr => rw [rewrite, ihl, ihr]

end SetExpr

/-- What stands for a defined table is bound as its name would be, but for its origin, and schemas are found
where they were. Here `d` are the tables that are defined around the text as rewritten, and `d'` those around
the text itself. -/
structure Rewriting.Serves (w : Rewriting) (O : OriginRelation) (env env' : Environment)
    (d d' : String → Option DefinedTable) : Prop where
  schemas : ∀ c r, env'.table c = .ok r → env.table c = .ok r
  origins : ∀ columns schema name method args,
    O columns (.schema schema name method args) (.schema schema name method args)
  named : ∀ name aliasName t, d' name = some t → ∃ origin schema,
    (∀ a c columns, SourceEntry.catalog ⟨a, c, columns, schema⟩ = .standard) ∧ O t.columns origin (.table t.name) ∧
      ∀ s : BindState, s.scopes.definedTable? = d → ∃ libraries, Bind.fromSource env (w.named name aliasName) s =
        .ok ([⟨aliasName.getD t.name, s.cursors, t.columns, schema⟩],
          [⟨s.cursors, aliasName.getD t.name, origin, t.columns, none⟩]) { s with cursors := s.cursors + 1, libraries }

/-! ### Scopes -/

namespace ScopeStack

variable {ρ : Nat → Nat} {s s' t t' : ScopeStack}

theorem slots_insert {name : String} {symbol : Symbol} (h : s.insert name symbol = .ok t) : t.slots = s.slots := by
  obtain ⟨f, rest, rfl, rfl⟩ := insert_eq_ok h
  rfl

theorem Renumbered.push_join (h : s.Renumbered ρ s') : (s.push .join).Renumbered ρ (s'.push .join) where
  entries := by
    rw [entries_push_join, entries_push_join]
    exact h.entries
  slots := h.slots

theorem renumbered_push_query (ρ : Nat → Nat) (s s' : ScopeStack) : (s.push .query).Renumbered ρ (s'.push .query) :=
  ⟨.nil, .ok rfl⟩

theorem Renumbered.insert {name name' : String} {l l' : SourceList} (h : s.Renumbered ρ s') (hl : l.Renumbered ρ l')
    (ht : s.insert name (.sources l) = .ok t) (ht' : s'.insert name' (.sources l') = .ok t') : t.Renumbered ρ t' where
  entries := by
    rw [entries_insert ht, entries_insert ht']
    exact List.rel_append h.entries hl
  slots := by
    rw [slots_insert ht, slots_insert ht']
    exact h.slots

end ScopeStack

theorem forall₂_setLastCondition {ρ : Nat → Nat} {O : OriginRelation} {bs bs' : List BoundSource}
    (h : List.Forall₂ (BoundSource.Renumbered ρ O) bs bs') (test : TypedExpr) :
    List.Forall₂ (BoundSource.Renumbered ρ O) (setLastCondition test bs) (setLastCondition (test.mapCursors ρ) bs') := by
  induction h with
  | nil => exact .nil
  | @cons b b' bs bs' hb hrest ih =>
    cases hrest with
    | nil => exact .cons ⟨hb.cursor, hb.columns, rfl, hb.origin⟩ .nil
    | cons => exact .cons hb ih

/-! ### FROM clauses -/

/-- States from which text is bound in the same way: cursors are counted from another number on, aliases from the
same unless they are spelled out, and each state has its defined tables. -/
structure BindState.Aligned (w : Rewriting) (k : Nat) (d d' : String → Option DefinedTable) (s s' : BindState) :
    Prop where
  cursors : s'.cursors = s.cursors + k
  aliases : w.spells = false → s'.aliases = s.aliases
  defined : s.scopes.definedTable? = d
  defined' : s'.scopes.definedTable? = d'

namespace Bind

variable {w : Rewriting} {O : OriginRelation} {env env' : Environment} {d d' : String → Option DefinedTable} {k : Nat}
variable {s s' s₁' : BindState}

theorem alias_follows {aliasName : Option String} {name : String} (haliases : w.spells = false → s'.aliases = s.aliases)
    (h : aliasName.getDM nextAlias s' = .ok name s₁') :
    ∃ s₁, (w.aliasAt s'.aliases aliasName).getDM nextAlias s = .ok name s₁ ∧ s₁.scopes = s.scopes ∧
      s₁.cursors = s.cursors ∧ s₁'.aliases = s'.aliases + (if aliasName.isNone then 1 else 0) ∧
      (w.spells = false → s₁'.aliases = s₁.aliases) := by
  unfold Rewriting.aliasAt
  cases hspells : w.spells with
  | true =>
    cases aliasName with
    | none | some a =>
      cases h
      exact ⟨s, rfl, rfl, rfl, rfl, nofun⟩
  | false =>
    have hsame := haliases hspells
    cases aliasName with
    | none =>
      cases h
      refine ⟨{ s with aliases := s.aliases + 1 }, ?_, rfl, rfl, rfl, fun _ => congrArg (· + 1) hsame⟩
      rw [hsame]
      rfl
    | some a =>
      cases h
      exact ⟨s, rfl, rfl, rfl, rfl, fun _ => hsame⟩

theorem fromSource_follows (hw : w.Serves O env env' d d') {x : FromSource} {bound' : SourceList × List BoundSource}
    (hs : s.Aligned w k d d' s') (hscopes : s.scopes.Renumbered (· + k) s'.scopes)
    (haggregates : s.scopes.aggregates = []) (haggregates' : s'.scopes.aggregates = [])
    (h : fromSource env' x s' = .ok bound' s₁') :
    ∃ bound s₁, fromSource env (x.rewrite w s'.aliases) s = .ok bound s₁ ∧ bound.1.Renumbered (· + k) bound'.1 ∧
      List.Forall₂ (BoundSource.Renumbered (· + k) O) bound.2 bound'.2 ∧ s₁'.aliases = s'.aliases + x.unnamed ∧
      (w.spells = false → s₁'.aliases = s₁.aliases) := by
  induction x generalizing s s' s₁' bound' with
  | schema c aliasName =>
    obtain ⟨schema, columns, name, s₂', htable, halias', rfl, libraries', rfl⟩ := schema_eq_ok h
    obtain ⟨-, hcursors'⟩ := alias_ok halias'
    obtain ⟨s₂, halias, -, hcursors, hcount, hsame⟩ := alias_follows hs.aliases halias'
    refine ⟨_, _, bind_eq_ok.mpr ⟨_, s, ofExcept_eq_ok.mpr ⟨hw.schemas c _ htable, rfl⟩, bind_eq_ok.mpr
      ⟨name, s₂, halias, rfl⟩⟩, .cons ⟨rfl, ?_, rfl, rfl⟩ .nil, .cons ⟨?_, rfl, rfl, hw.origins ..⟩ .nil, hcount, hsame⟩
    all_goals exact hcursors'.trans (hs.cursors.trans (congrArg (· + k) hcursors.symm))
  | named name aliasName =>
    obtain ⟨t, htable, rfl, rfl⟩ := named_eq_ok h
    obtain ⟨origin, schema, hcatalog, horigin, hbound⟩ := hw.named name aliasName t (hs.defined' ▸ htable)
    obtain ⟨libraries, hbound⟩ := hbound s hs.defined
    exact ⟨_, _, hbound, .cons ⟨rfl, hs.cursors, rfl, (hcatalog ..).symm⟩ .nil, .cons ⟨hs.cursors, rfl, rfl, horigin⟩ .nil,
      rfl, hs.aliases⟩
  | join left right on ihl ihr =>
    obtain ⟨l', r', test', s₁', scopes₂', s₃', scopes₄', s₅', hleft', hshowLeft', hright', hmerge', hshowRight', htest', rfl,
      rfl⟩ := join_eq_ok_iff.mp h
    -- The left side, with nothing new in sight.
    have hpushed := hscopes.push_join
    have hs₀ : BindState.Aligned w k d d' { s with scopes := s.scopes.push .join } { s' with scopes := s'.scopes.push .join } :=
      ⟨hs.cursors, hs.aliases, hs.defined, hs.defined'⟩
    obtain ⟨l, s₁, hleft, hlentries, hlsources, hcount₁, hsame₁⟩ := ihl hs₀ hpushed haggregates haggregates' hleft'
    obtain ⟨-, hscopes₁, hcursors₁⟩ := fromSource_ok _ { s with scopes := s.scopes.push .join } _ _ haggregates hleft
    obtain ⟨-, hscopes₁', hcursors₁'⟩ := fromSource_ok _ { s' with scopes := s'.scopes.push .join } _ _ haggregates' hleft'
    rw [hscopes₁'] at hshowLeft'
    obtain ⟨scopes₂, hshowLeft⟩ : ∃ scopes₂, (s.scopes.push .join).insert "left" (.sources l.1) = .ok scopes₂ := ⟨_, rfl⟩
    -- The right side, in sight of the left one.
    have hs₂ : BindState.Aligned w k d d' { s₁ with scopes := scopes₂ } { s₁' with scopes := scopes₂' } := by
      refine ⟨?_, hsame₁, ?_, ?_⟩
      · have hlength := hlsources.length_eq
        have hcursors := hs.cursors
        dsimp only at hcursors₁ hcursors₁' ⊢
        omega
      · exact funext fun name => (ScopeStack.definedTable?_insert hshowLeft name).trans (congrFun hs.defined name)
      · exact funext fun name => (ScopeStack.definedTable?_insert hshowLeft' name).trans (congrFun hs.defined' name)
    have haggregates₂ : scopes₂.aggregates = [] := (ScopeStack.aggregates_insert hshowLeft).trans haggregates
    have haggregates₂' : scopes₂'.aggregates = [] := (ScopeStack.aggregates_insert hshowLeft').trans haggregates'
    have hscopes₂ := hpushed.insert hlentries hshowLeft hshowLeft'
    obtain ⟨r, s₃, hright, hrentries, hrsources, hcount₃, hsame₃⟩ := ihr hs₂ hscopes₂ haggregates₂ haggregates₂' hright'
    obtain ⟨-, hscopes₃, -⟩ := fromSource_ok _ { s₁ with scopes := scopes₂ } _ _ haggregates₂ hright
    obtain ⟨-, hscopes₃', -⟩ := fromSource_ok _ { s₁' with scopes := scopes₂' } _ _ haggregates₂' hright'
    rw [hscopes₃'] at hshowRight'
    obtain ⟨scopes₄, hshowRight⟩ : ∃ scopes₄, scopes₂.insert "right" (.sources r.1) = .ok scopes₄ := by
      cases hshowLeft
      exact ⟨_, rfl⟩
    -- The condition, in sight of both.
    have hscopes₄ := hscopes₂.insert hrentries hshowRight hshowRight'
    obtain ⟨test, s₅, htest, rfl, -⟩ := condition_follows .on on { s₃ with scopes := scopes₄ } _ _ _ hscopes₄ htest'
    obtain ⟨hext, -, -⟩ := condition_ok htest
    obtain ⟨hext', -, -⟩ := condition_ok htest'
    refine ⟨(l.1 ++ r.1, setLastCondition test (l.2 ++ r.2)), { s₅ with scopes := s₅.scopes.tail },
      join_eq_ok_iff.mpr ⟨l, r, test, s₁, scopes₂, s₃, scopes₄, s₅, hleft, ?_, ?_, hlentries.merge hrentries hmerge', ?_, htest,
        rfl, rfl⟩, List.rel_append hlentries hrentries, forall₂_setLastCondition (List.rel_append hlsources hrsources) test,
      ?_, ?_⟩
    · rw [hscopes₁]
      exact hshowLeft
    · dsimp only at hcount₁
      rw [← hcount₁]
      exact hright
    · rw [hscopes₃]
      exact hshowRight
    · dsimp only at hcount₁ hcount₃
      rw [FromSource.unnamed, ← Nat.add_assoc, ← hcount₁, ← hcount₃]
      exact hext'.aliases
    · intro hspells
      exact hext'.aliases.trans ((hsame₃ hspells).trans hext.aliases.symm)

/-! ### Queries -/

theorem exists_insert_query (scopes : ScopeStack) (n : Nat) (l : SourceList) :
    ∃ t, (scopes.push .query).insert s!"Query{n}" (.sources l) = .ok t := by
  have hname : "Query" ++ toString n ≠ ScopeFrame.slotsName := by
    intro h
    have hhead := congrArg (fun text : String => text.toList.head?) h
    simp [ScopeFrame.slotsName] at hhead
  have hfree : ScopeFrame.isTaken ⟨.query, [], []⟩ ("Query" ++ toString n) = false := by
    simpa [ScopeFrame.isTaken, ScopeFrame.lookup?] using hname
  change ∃ t, (scopes.push .query).insert ("Query" ++ toString n) (.sources l) = .ok t
  simp only [ScopeStack.push, ScopeStack.insert, hfree]
  exact ⟨_, rfl⟩

theorem clauses_ok {x : Query} {name : String} {filter : Option TypedExpr} {group : Option Grouping}
    {bound : List BoundField} {s₄ s₅ s₆ : BindState} {f : ScopeFrame} {rest : ScopeStack} {l : SourceList}
    (hkind : f.kind = .query) (hscopes : s.scopes = f :: rest) (hl : s.scopes.entries = l)
    (hfilter : optional .filter x.filter s = .ok filter s₄) (hgroup : grouping x.groupBy s₄ = .ok group s₅)
    (hfields : fields name l x.fields s₅ = .ok bound s₆) :
    ∃ slots, s₆.scopes = { f with slots } :: rest ∧ s₆.cursors = s.cursors ∧ s₆.aliases = s.aliases := by
  obtain ⟨hext₄, -⟩ := optional_ok hfilter
  obtain ⟨s₁, hext₁, hext₅, -⟩ := grouping_ok hgroup
  have hentries : s₅.scopes.entries = l := by rw [hext₅.entries, hext₁.entries, hext₄.entries, hl]
  rw [← hentries] at hfields
  obtain ⟨hext₆, -⟩ := fields_ok hfields
  have hscopes₁ : s₁.scopes = f :: rest := (hext₁.scopes_eq rfl).trans ((hext₄.scopes_eq rfl).trans hscopes)
  obtain ⟨more, hframe₅⟩ := hext₅.queryFrame hkind hscopes₁
  have hkind₅ : ({ f with slots := f.slots ++ more } : ScopeFrame).kind = .query := hkind
  obtain ⟨more', hframe₆⟩ := hext₆.queryFrame hkind₅ hframe₅
  refine ⟨_, hframe₆, ?_, ?_⟩
  · rw [hext₆.cursors, hext₅.cursors, hext₁.cursors, hext₄.cursors]
  · rw [hext₆.aliases, hext₅.aliases, hext₁.aliases, hext₄.aliases]

/-- A query that is rewritten is bound to the same but for the numbers. -/
theorem query_follows (hw : w.Serves O env env' d d') {x : Query} {b' : BoundQuery} (hs : s.Aligned w k d d' s')
    (h : query env' x s' = .ok b' s₁') :
    ∃ b s₁, query env (x.rewrite w s'.aliases) s = .ok b s₁ ∧ b.Renumbered (· + k) O b' ∧ s₁.Aligned w k d d' s₁' ∧
      s₁'.aliases = s'.aliases + x.source.unnamed := by
  obtain ⟨bound', s₂', scopes₃', filter', s₄', group', s₅', fields', s₆', slots', hfrom', hshow', hfilter', hgroup', hfields',
    hpop', rfl⟩ := query_eq_ok_iff.mp h
  have hs₁ : BindState.Aligned w k d d' { s with queries := s.queries + 1, scopes := s.scopes.push .query }
      { s' with queries := s'.queries + 1, scopes := s'.scopes.push .query } :=
    ⟨hs.cursors, hs.aliases, hs.defined, hs.defined'⟩
  have hpushed := ScopeStack.renumbered_push_query (· + k) s.scopes s'.scopes
  obtain ⟨bound, s₂, hfrom, hentries, hsources, hcount, hsame⟩ := fromSource_follows hw hs₁ hpushed rfl rfl hfrom'
  obtain ⟨-, hscopes₂, hcursors₂⟩ := fromSource_ok _ _ _ _ rfl hfrom
  obtain ⟨-, hscopes₂', hcursors₂'⟩ := fromSource_ok _ _ _ _ rfl hfrom'
  rw [hscopes₂'] at hshow'
  obtain ⟨scopes₃, hshow⟩ := exists_insert_query s.scopes (s.queries + 1) bound.1
  have hscopes₃ := hpushed.insert hentries hshow hshow'
  obtain ⟨filter, s₄, hfilter, rfl, hscopes₄⟩ :=
    optional_follows .filter x.filter { s₂ with scopes := scopes₃ } _ _ _ hscopes₃ hfilter'
  obtain ⟨group, s₅, hgroup, rfl, hscopes₅⟩ := grouping_follows x.groupBy s₄ _ _ _ hscopes₄ hgroup'
  obtain ⟨fs, s₆, hfields, rfl, hscopes₆⟩ :=
    fields_follows hentries s!"Query{s.queries + 1}" _ x.fields s₅ _ _ _ hscopes₅ hfields'
  have hl : scopes₃.entries = bound.1 := ScopeStack.entries_insert hshow
  have hl' : scopes₃'.entries = bound'.1 := ScopeStack.entries_insert hshow'
  -- The frames of both queries have the same aggregates, and then they are gone.
  obtain ⟨f, rest, hf, rfl⟩ := ScopeStack.insert_eq_ok hshow
  cases hf
  obtain ⟨f', rest', hf', rfl⟩ := ScopeStack.insert_eq_ok hshow'
  cases hf'
  obtain ⟨slots, hframe, hcursors₆, haliases₆⟩ := clauses_ok rfl rfl hl hfilter hgroup hfields
  obtain ⟨slots'', hframe', hcursors₆', haliases₆'⟩ := clauses_ok rfl rfl hl' hfilter' hgroup' hfields'
  have hpop := popQuery_apply rfl hframe
  rw [popQuery_apply rfl hframe'] at hpop'
  cases hpop'
  have hslots : slots'' = slots.map (AggregateSlot.mapCursors (· + k)) := by
    have hmatching := hscopes₆.slots
    rw [hframe, hframe'] at hmatching
    cases hmatching with
    | ok h => exact h
  refine ⟨_, _, query_eq_ok_iff.mpr ⟨bound, s₂, _, filter, s₄, group, s₅, fs, s₆, slots, hfrom, hscopes₂ ▸ hshow, hfilter, hgroup,
    hfields, hpop, rfl⟩, ⟨hsources, rfl, ?_, rfl, rfl, rfl, hslots⟩, ⟨?_, ?_, hs.defined, hs.defined'⟩, ?_⟩
  · cases group with
    | some group => rfl
    | none =>
      rw [hslots]
      cases slots <;> rfl
  · have hlength := hsources.length_eq
    have hcursors := hs.cursors
    dsimp only at hcursors₂ hcursors₂' hcursors₆ hcursors₆' ⊢
    omega
  · exact fun hspells => haliases₆'.trans ((hsame hspells).trans haliases₆.symm)
  · exact haliases₆'.trans hcount

/-! ### Sets -/

theorem checkShapes_renumbered {ρ : Nat → Nat} {l l' r r' : BoundSet} (hl : l.Renumbered ρ O l') (hr : r.Renumbered ρ O r')
    (op : SetOperator) : checkShapes op l' r' = checkShapes op l r := by
  have htypes : ∀ {s s' : BoundSet}, s.Renumbered ρ O s' → s'.fields.map BoundField.type = s.fields.map BoundField.type := by
    intro s s' h
    simp [h.fields, Function.comp_def, BoundField.type, BoundField.mapCursors]
  unfold checkShapes
  rw [htypes hl, htypes hr]

/-- Keys are found at the same places; only a message would name another query. -/
theorem keyColumns_renumbered {ρ : Nat → Nat} {l l' : BoundSet} (hl : l.Renumbered ρ O l') {names : List String}
    {keys : List Nat} (h : keyColumns l' names = .ok keys) : keyColumns l names = .ok keys := by
  induction names generalizing keys with
  | nil => exact h
  | cons name names ih =>
    have hfound : l'.fields.findIdx? (fun f => f.name = name) = l.fields.findIdx? fun f => f.name = name := by
      rw [hl.fields, List.findIdx?_map]
      rfl
    rw [keyColumns, hfound] at h
    rw [keyColumns]
    cases hi : l.fields.findIdx? fun f => f.name = name with
    | none =>
      rw [hi] at h
      cases h
    | some i =>
      rw [hi] at h
      obtain ⟨rest, hrest, h⟩ := except_bind_eq_ok.mp h
      exact except_bind_eq_ok.mpr ⟨rest, ih hrest, h⟩

/-- A set that is rewritten is bound to the same but for the numbers. -/
theorem setExpr_follows (hw : w.Serves O env env' d d') {x : SetExpr} {b' : BoundSet} (hs : s.Aligned w k d d' s')
    (h : setExpr env' x s' = .ok b' s₁') :
    ∃ b s₁, setExpr env (x.rewrite w s'.aliases) s = .ok b s₁ ∧ b.Renumbered (· + k) O b' ∧ s₁.Aligned w k d d' s₁' ∧
      s₁'.aliases = s'.aliases + x.unnamed := by
  induction x generalizing s s' s₁' b' with
  | query x =>
    obtain ⟨q', hquery', rfl⟩ := bind_pure_eq_ok.mp h
    obtain ⟨q, s₂, hquery, hrenumbered, hs₂, hcount⟩ := query_follows hw hs hquery'
    exact ⟨.query q, s₂, bind_eq_ok.mpr ⟨q, s₂, hquery, rfl⟩, .query hrenumbered, hs₂, hcount⟩
  | operation op names x y ihx ihy =>
    obtain ⟨l', r', keys, s₂', s₃', hl', hr', hshapes', hkeys', rfl, rfl⟩ := setExpr_operation_eq_ok_iff.mp h
    obtain ⟨l, s₂, hl, hlrenumbered, hs₂, hcount₂⟩ := ihx hs hl'
    obtain ⟨r, s₃, hr, hrrenumbered, hs₃, hcount₃⟩ := ihy hs₂ hr'
    rw [hcount₂] at hr hcount₃
    have hshapes := (checkShapes_renumbered hlrenumbered hrrenumbered op).symm.trans hshapes'
    refine ⟨_, _, setExpr_operation_eq_ok_iff.mpr ⟨l, r, keys, s₂, s₃, hl, hr, hshapes, keyColumns_renumbered hlrenumbered hkeys',
      rfl, rfl⟩, .operation hlrenumbered hrrenumbered, ⟨hs₃.cursors, hs₃.aliases, hs₃.defined, hs₃.defined'⟩, ?_⟩
    rw [SetExpr.unnamed, ← Nat.add_assoc]
    exact hcount₃

end Bind

end TabularQuery
