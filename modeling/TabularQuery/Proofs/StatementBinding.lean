import TabularQuery.Proofs.QueryBinding

/-!
Binding of set operations, WITH lists and statements. Operands have columns of the same types, keys are
columns, and every body sees the tables that were defined before it. A statement leaves no scope behind.
-/

namespace TabularQuery

/-! ### Set operations -/

namespace BoundSet

def queries : BoundSet → List BoundQuery
  | .query q => [q]
  | .operation _ _ _ _ left right => left.queries ++ right.queries

/-- The queries of the set are bound under the scopes, with cursors below `limit`; operands have the same
column types, and keys are positions of columns. -/
def Bound (env : Environment) (scopes : ScopeStack) (limit : Nat) : BoundSet → Prop
  | .query q => ∃ first entries, QueryBound env scopes first q entries ∧ first + q.sources.length ≤ limit
  | .operation _ _ _ keys left right => left.Bound env scopes limit ∧ right.Bound env scopes limit ∧
      left.fields.map BoundField.type = right.fields.map BoundField.type ∧ ∀ k ∈ keys, k < left.fields.length

variable {env : Environment} {scopes : ScopeStack} {limit limit' : Nat}

theorem Bound.mono {s : BoundSet} (h : s.Bound env scopes limit) (hle : limit ≤ limit') :
    s.Bound env scopes limit' := by
  induction s with
  | query q =>
    obtain ⟨first, entries, hquery, hlt⟩ := h
    exact ⟨first, entries, hquery, Nat.le_trans hlt hle⟩
  | operation op name keyId keys left right ihl ihr =>
    obtain ⟨hl, hr, htypes, hkeys⟩ := h
    exact ⟨ihl hl, ihr hr, htypes, hkeys⟩

theorem Bound.names {s : BoundSet} (h : s.Bound env scopes limit) :
    Column.repeatedName? (s.columns.map Column.name) = none := by
  induction s with
  | query q =>
    obtain ⟨first, entries, hquery, -⟩ := h
    rw [columns, List.map_map]
    exact hquery.names
  | operation op name keyId keys left right ihl ihr => exact ihl h.1

end BoundSet

namespace Bind

variable {env : Environment} {s s' : BindState}

theorem mismatch?_eq_none {n : Nat} {as bs : List ColumnType} (hlen : as.length = bs.length)
    (h : mismatch? n as bs = none) : as = bs := by
  induction as generalizing n bs with
  | nil => exact (List.length_eq_zero_iff.mp hlen.symm).symm
  | cons a as ih =>
    cases bs with
    | nil => cases hlen
    | cons b bs =>
      rw [mismatch?] at h
      split at h
      · rename_i hab
        rw [hab, ih (Nat.succ.inj hlen) h]
      · cases h

variable {op : SetOperator} {left b : BoundSet} {names : List String} {x : SetExpr}

theorem checkShapes_eq_ok {right : BoundSet} {u : Unit}
    (h : checkShapes op left right = .ok u) :
    left.fields.map BoundField.type = right.fields.map BoundField.type := by
  unfold checkShapes at h
  by_cases hlen : (left.fields.map BoundField.type).length = (right.fields.map BoundField.type).length
  · rw [if_neg (not_not_intro hlen)] at h
    split at h
    · cases h
    · rename_i hnone
      exact mismatch?_eq_none hlen hnone
  · rw [if_pos hlen] at h
    cases h

theorem keyColumns_eq_ok {keys : List Nat}
    (h : keyColumns left names = .ok keys) : ∀ k ∈ keys, k < left.fields.length := by
  induction names generalizing keys with
  | nil =>
    cases h
    exact nofun
  | cons name names ih =>
    rw [keyColumns] at h
    split at h
    · rename_i i hi
      obtain ⟨rest, hrest, h⟩ := except_bind_eq_ok.mp h
      cases h
      intro k hk
      rcases List.mem_cons.mp hk with rfl | hk
      · exact (List.findIdx?_eq_some_iff_getElem.mp hi).1
      · exact ih hrest k hk
    · cases h

theorem setExpr_operation_eq_ok_iff {y : SetExpr} :
    setExpr env (.operation op names x y) s = .ok b s' ↔
      ∃ left right keys s₁ s₂, setExpr env x s = .ok left s₁ ∧ setExpr env y s₁ = .ok right s₂ ∧
        checkShapes op left right = .ok () ∧ keyColumns left names = .ok keys ∧
        b = .operation op s!"{left.name}_{op.name}_{right.name}" s₂.setKeys keys left right ∧
        s' = { s₂ with setKeys := s₂.setKeys + 1 } := by
  constructor
  · intro h
    obtain ⟨left, s₁, hleft, h⟩ := bind_eq_ok.mp h
    obtain ⟨right, s₂, hright, h⟩ := bind_eq_ok.mp h
    obtain ⟨_, hshapes, h⟩ := ofExcept_bind_eq_ok.mp h
    obtain ⟨keys, hkeys, h⟩ := ofExcept_bind_eq_ok.mp h
    replace h := eq_ok_of_bind h rfl
    obtain ⟨rfl, rfl⟩ := pure_eq_ok.mp h
    exact ⟨left, right, keys, s₁, _, hleft, hright, hshapes, hkeys, rfl, rfl⟩
  · rintro ⟨left, right, keys, s₁, s₂, hleft, hright, hshapes, hkeys, rfl, rfl⟩
    refine bind_eq_ok.mpr ⟨left, s₁, hleft, bind_eq_ok.mpr ⟨right, s₂, hright, ?_⟩⟩
    refine bind_eq_ok.mpr ⟨(), s₂, ofExcept_eq_ok.mpr ⟨hshapes, rfl⟩, ?_⟩
    exact bind_eq_ok.mpr ⟨keys, s₂, ofExcept_eq_ok.mpr ⟨hkeys, rfl⟩, rfl⟩

theorem setExpr_ok (h : setExpr env x s = .ok b s') :
    b.Bound env s.scopes s'.cursors ∧ s'.scopes = s.scopes ∧ s.cursors ≤ s'.cursors := by
  induction x generalizing s s' b with
  | query q =>
    obtain ⟨bound, hquery, rfl⟩ := bind_pure_eq_ok.mp h
    obtain ⟨⟨entries, hbound⟩, -, -, hscopes, hcursors⟩ := query_ok hquery
    exact ⟨⟨s.cursors, entries, hbound, Nat.le_of_eq hcursors.symm⟩, hscopes, by omega⟩
  | operation op names left right ihl ihr =>
    obtain ⟨l, r, keys, s₁, s₂, hl, hr, hshapes, hkeys, rfl, rfl⟩ := setExpr_operation_eq_ok_iff.mp h
    obtain ⟨hlbound, hlscopes, hlcursors⟩ := ihl hl
    obtain ⟨hrbound, hrscopes, hrcursors⟩ := ihr hr
    rw [hlscopes] at hrbound hrscopes
    exact ⟨⟨hlbound.mono hrcursors, hrbound, checkShapes_eq_ok hshapes, keyColumns_eq_ok hkeys⟩, hrscopes,
      Nat.le_trans hlcursors hrcursors⟩

end Bind

/-! ### Statements -/

theorem ScopeStack.definedTable?_insert_defined {s s' : ScopeStack} {name : String} {t : DefinedTable}
    (h : s.insert name (.defined t) = .ok s') (key : String) :
    s'.definedTable? key = if Text.lower key = name then some t else s.definedTable? key := by
  cases s with
  | nil => cases h
  | cons f rest =>
    rw [insert] at h
    split at h
    · cases h
    · rename_i htaken
      cases h
      have hfree : f.lookup? name = none := by
        simp only [ScopeFrame.isTaken, Bool.or_eq_true, not_or, Option.isSome_iff_ne_none, ne_eq,
          not_not] at htaken
        exact htaken.1
      have hframe : ScopeFrame.defined? { f with symbols := f.symbols ++ [(name, .defined t)] } (Text.lower key) =
          if Text.lower key = name then some t else f.defined? (Text.lower key) := by
        simp only [ScopeFrame.lookup?] at hfree
        simp only [ScopeFrame.defined?, ScopeFrame.lookup?, List.lookup_append]
        by_cases hkey : Text.lower key = name
        · rw [if_pos hkey, hkey, hfree]
          simp
        · rw [if_neg hkey, List.lookup_cons, beq_eq_false_iff_ne.mpr hkey]
          cases f.symbols.lookup (Text.lower key) <;> rfl
      simp only [definedTable?, List.findSome?_cons, hframe]
      by_cases hkey : Text.lower key = name
      · rw [if_pos hkey, if_pos hkey]
      · rw [if_neg hkey, if_neg hkey]

/-- The tables of a WITH list are bound one after the other, each under the scopes that show those before
it; `after` are the scopes that show them all. -/
def TablesBound (env : Environment) (limit : Nat) : ScopeStack → List BoundTable → (after : ScopeStack) → Prop
  | scopes, [], after => scopes = after
  | scopes, t :: rest, after => t.body.Bound env scopes limit ∧ ∃ scopes₁,
      scopes.insert (Text.lower t.name) (.defined ⟨t.name, t.body.columns⟩) = .ok scopes₁ ∧
        TablesBound env limit scopes₁ rest after

variable {env : Environment} {limit limit' : Nat}

theorem TablesBound.mono {scopes after : ScopeStack}
    {tables : List BoundTable} (h : TablesBound env limit scopes tables after) (hle : limit ≤ limit') :
    TablesBound env limit' scopes tables after := by
  induction tables generalizing scopes with
  | nil => exact h
  | cons t rest ih =>
    obtain ⟨hbody, scopes₁, hinsert, hrest⟩ := h
    exact ⟨hbody.mono hle, scopes₁, hinsert, ih hrest⟩

/-- The queries of a statement: those of its WITH list and then those of its body. -/
def BoundStatement.queries : BoundStatement → List BoundQuery
  | .query tables body => (tables.flatMap fun t => t.body.queries) ++ body.queries
  | .describe .. => []

def BoundProgram.queries (p : BoundProgram) : List BoundQuery := p.statements.flatMap BoundStatement.queries

/-- A statement on its own: no table is defined before it. -/
def BoundStatement.Bound (env : Environment) (limit : Nat) : BoundStatement → Prop
  | .query tables body => ∃ after, TablesBound env limit (ScopeStack.push [] .table) tables after ∧
      body.Bound env after limit
  | .describe .. => True

theorem BoundStatement.Bound.mono {x : BoundStatement}
    (h : x.Bound env limit) (hle : limit ≤ limit') : x.Bound env limit' := by
  cases x with
  | query tables body =>
    obtain ⟨after, htables, hbody⟩ := h
    exact ⟨after, htables.mono hle, hbody.mono hle⟩
  | describe => trivial

namespace Bind

variable {env : Environment} {s s' : BindState}

variable {xs : List NamedTable} {tables : List BoundTable} {b : BoundStatement}

theorem namedTables_cons_eq_ok_iff {x : NamedTable} :
    namedTables env (x :: xs) s = .ok tables s' ↔ ∃ body s₁ scopes rest, setExpr env x.body s = .ok body s₁ ∧
      s₁.scopes.insert (Text.lower x.name) (.defined ⟨x.name, body.columns⟩) = .ok scopes ∧
      namedTables env xs { s₁ with scopes } = .ok rest s' ∧ tables = ⟨x.name, body⟩ :: rest := by
  constructor
  · intro h
    obtain ⟨body, s₁, hbody, h⟩ := bind_eq_ok.mp h
    obtain ⟨_, s₂, hnamed, h⟩ := bind_eq_ok.mp h
    obtain ⟨scopes, hinsert, rfl⟩ := insertSymbol_eq_ok_iff.mp hnamed
    obtain ⟨rest, hrest, rfl⟩ := bind_pure_eq_ok.mp h
    exact ⟨body, s₁, scopes, rest, hbody, hinsert, hrest, rfl⟩
  · rintro ⟨body, s₁, scopes, rest, hbody, hinsert, hrest, rfl⟩
    refine bind_eq_ok.mpr ⟨body, s₁, hbody, bind_eq_ok.mpr ⟨⟨⟩, _, insertSymbol_eq_ok_iff.mpr ⟨scopes, hinsert, rfl⟩, ?_⟩⟩
    exact bind_eq_ok.mpr ⟨rest, s', hrest, rfl⟩

theorem namedTables_ok (h : namedTables env xs s = .ok tables s') :
    TablesBound env s'.cursors s.scopes tables s'.scopes ∧ s'.scopes.tail = s.scopes.tail ∧
      s.cursors ≤ s'.cursors := by
  induction xs generalizing s tables with
  | nil =>
    obtain ⟨rfl, rfl⟩ := pure_eq_ok.mp h
    exact ⟨rfl, rfl, Nat.le_refl _⟩
  | cons x xs ih =>
    obtain ⟨body, s₁, scopes, rest, hbody, hinsert, hrest, rfl⟩ := namedTables_cons_eq_ok_iff.mp h
    obtain ⟨hbound, hscopes, hcursors⟩ := setExpr_ok hbody
    obtain ⟨htables, htail, hle⟩ := ih hrest
    rw [hscopes] at hinsert
    refine ⟨⟨hbound.mono hle, scopes, hinsert, htables⟩, ?_, Nat.le_trans hcursors hle⟩
    rw [htail]
    exact ScopeStack.tail_insert hinsert

theorem statement_query_eq_ok_iff {x : SetExpr} :
    statement env (.query xs x) s = .ok b s' ↔ ∃ tables s₁ body s₂,
      namedTables env xs { s with setKeys := 0, aliases := 0, scopes := s.scopes.push .table } = .ok tables s₁ ∧
      setExpr env x s₁ = .ok body s₂ ∧ b = .query tables body ∧ s' = { s₂ with scopes := s₂.scopes.tail } := by
  constructor
  · intro h
    replace h := eq_ok_of_bind h rfl
    replace h := eq_ok_of_bind h rfl
    obtain ⟨tables, s₂, htables, h⟩ := bind_eq_ok.mp h
    obtain ⟨body, s₃, hbody, h⟩ := bind_eq_ok.mp h
    cases h
    exact ⟨tables, s₂, body, s₃, htables, hbody, rfl, rfl⟩
  · rintro ⟨tables, s₁, body, s₂, htables, hbody, rfl, rfl⟩
    refine bind_eq_ok.mpr ⟨_, _, rfl, bind_eq_ok.mpr ⟨_, _, rfl, ?_⟩⟩
    exact bind_eq_ok.mpr ⟨tables, s₁, htables, bind_eq_ok.mpr ⟨body, s₂, hbody, rfl⟩⟩

theorem statement_describe_eq_ok_iff {c : SchemaCall} :
    statement env (.describe c) s = .ok b s' ↔ ∃ schema columns, env.table c = .ok (schema, columns) ∧
      b = .describe s!"Desc{s.queries + 1}" c.text columns ∧
      s' = { s with setKeys := 0, aliases := 0, libraries := insertName (Text.lower c.schema) s.libraries,
                    queries := s.queries + 1 } := by
  constructor
  · intro h
    replace h := eq_ok_of_bind h rfl
    obtain ⟨⟨schema, columns⟩, htable, h⟩ := ofExcept_bind_eq_ok.mp h
    cases h
    exact ⟨schema, columns, htable, rfl, rfl⟩
  · rintro ⟨schema, columns, htable, rfl, rfl⟩
    refine bind_eq_ok.mpr ⟨_, _, rfl, ?_⟩
    exact bind_eq_ok.mpr ⟨(schema, columns), _, ofExcept_eq_ok.mpr ⟨htable, rfl⟩, rfl⟩

theorem statement_ok {x : Statement} (hscopes : s.scopes = [])
    (h : statement env x s = .ok b s') :
    b.Bound env s'.cursors ∧ s'.scopes = [] ∧ s.cursors ≤ s'.cursors := by
  cases x with
  | query xs x =>
    obtain ⟨tables, s₁, body, s₂, htables, hbody, rfl, rfl⟩ := statement_query_eq_ok_iff.mp h
    obtain ⟨htables, htail, hle⟩ := namedTables_ok htables
    obtain ⟨hbound, hsame, hle'⟩ := setExpr_ok hbody
    rw [hscopes] at htables htail
    exact ⟨⟨s₁.scopes, htables.mono hle', hbound⟩, (congrArg List.tail hsame).trans htail, Nat.le_trans hle hle'⟩
  | describe c =>
    obtain ⟨schema, columns, -, rfl, rfl⟩ := statement_describe_eq_ok_iff.mp h
    exact ⟨trivial, hscopes, Nat.le_refl _⟩

theorem statements_ok {xs : List Statement} {bs : List BoundStatement} (hscopes : s.scopes = [])
    (h : statements env xs s = .ok bs s') :
    (∀ b ∈ bs, b.Bound env s'.cursors) ∧ s.cursors ≤ s'.cursors := by
  induction xs generalizing s bs with
  | nil =>
    obtain ⟨rfl, rfl⟩ := pure_eq_ok.mp h
    exact ⟨nofun, Nat.le_refl _⟩
  | cons x xs ih =>
    obtain ⟨b, s₁, hb, h⟩ := bind_eq_ok.mp h
    obtain ⟨rest, hrest, rfl⟩ := bind_pure_eq_ok.mp h
    obtain ⟨hbound, hscopes₁, hle⟩ := statement_ok hscopes hb
    obtain ⟨hall, hle'⟩ := ih hscopes₁ hrest
    exact ⟨List.forall_mem_cons.mpr ⟨hbound.mono hle', hall⟩, Nat.le_trans hle hle'⟩

end Bind

/-- Every statement of a bound program is well-formed, with cursors below the program's count. -/
theorem bind_ok {xs : List Statement} {p : BoundProgram} (h : bind env xs = .ok p) :
    ∀ b ∈ p.statements, b.Bound env p.cursorCount := by
  unfold bind at h
  split at h
  · rename_i hstatements
    cases h
    exact (Bind.statements_ok rfl hstatements).1
  · cases h

end TabularQuery
