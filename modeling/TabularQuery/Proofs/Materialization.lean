import TabularQuery.Proofs.MemoryTables
import TabularQuery.Proofs.Outcomes
import TabularQuery.Proofs.Rewriting

/-!
The tables of a WITH list as tables in memory. Each body is executed on its own and what it comes to is put
into memory, where later bodies read it; then the statement comes to what its last body comes to when that
reads memory, too. A made-up alias is numbered over the whole statement, so a part that is executed on its own
has to spell it out.
-/

namespace TabularQuery

/-! ### References -/

/-- Names of defined tables. -/
def FromSource.references : FromSource → List String
  | .schema .. => []
  | .named name _ => [name]
  | .join left right _ => left.references ++ right.references

def SetExpr.references : SetExpr → List String
  | .query q => q.source.references
  | .operation _ _ left right => left.references ++ right.references

namespace Bind

variable {env : Environment} {s s' : BindState}

theorem fromSource_references {x : FromSource} {bound : SourceList × List BoundSource}
    (haggregates : s.scopes.aggregates = []) (h : fromSource env x s = .ok bound s') :
    ∀ name ∈ x.references, (s.scopes.definedTable? name).isSome := by
  induction x generalizing s s' bound with
  | schema => nofun
  | named name aliasName =>
    obtain ⟨t, htable, -⟩ := named_eq_ok h
    intro key hkey
    rw [List.mem_singleton.mp hkey, htable]
    rfl
  | join left right on ihl ihr =>
    obtain ⟨l, r, test, s₁, scopes₂, s₃, scopes₄, s₅, hleft, hshow, hright, -⟩ := join_eq_ok_iff.mp h
    have haggregates₀ : ({ s with scopes := s.scopes.push .join } : BindState).scopes.aggregates = [] := haggregates
    obtain ⟨-, hscopes₁, -⟩ := fromSource_ok _ _ _ _ haggregates₀ hleft
    rw [hscopes₁] at hshow
    have haggregates₂ : scopes₂.aggregates = [] := (ScopeStack.aggregates_insert hshow).trans haggregates
    intro name hname
    rcases List.mem_append.mp hname with hname | hname
    · exact ihl haggregates₀ hleft name hname
    · have hdefined := ihr haggregates₂ hright name hname
      rwa [ScopeStack.definedTable?_insert hshow] at hdefined

theorem setExpr_references {x : SetExpr} {b : BoundSet} (h : setExpr env x s = .ok b s') :
    ∀ name ∈ x.references, (s.scopes.definedTable? name).isSome := by
  induction x generalizing s s' b with
  | query q =>
    obtain ⟨bound, s₁, hquery, -⟩ := bind_eq_ok.mp h
    obtain ⟨_, _, _, _, _, _, _, _, _, _, hfrom, -⟩ := query_eq_ok_iff.mp hquery
    have haggregates : ({ s with queries := s.queries + 1, scopes := s.scopes.push .query } : BindState).scopes.aggregates = [] :=
      rfl
    have hdefined := fromSource_references haggregates hfrom
    exact hdefined
  | operation op keys left right ihl ihr =>
    obtain ⟨l, r, _, s₁, s₂, hl, hr, -⟩ := setExpr_operation_eq_ok_iff.mp h
    intro name hname
    rcases List.mem_append.mp hname with hname | hname
    · exact ihl hl name hname
    · rw [← (setExpr_ok hl).2.1]
      exact ihr hr name hname

end Bind

/-! ### One more schema -/

namespace Environment

/-- The environment with tables in memory as one more schema. -/
def withMemory (env : Environment) (schema : String) (m : MemorySchema) : Environment :=
  { env with registry := env.registry.register schema m.toSchema }

variable {env : Environment} {schema : String} {m : MemorySchema}

theorem schema_withMemory (env : Environment) (schema : String) (m : MemorySchema) (name : String) :
    (env.withMemory schema m).registry.schema name =
      if Text.lower name = Text.lower schema then .ok m.toSchema else env.registry.schema name :=
  env.registry.schema_register schema m.toSchema name

/-- Under a name that was not in use, it hides no other schema. -/
theorem table_withMemory_of_ok (hfresh : env.registry.schema schema = .error (.schemaUnknown schema)) {c : SchemaCall}
    {r : Schema × List Column} (h : env.table c = .ok r) : (env.withMemory schema m).table c = .ok r := by
  obtain ⟨s, hs, h⟩ := except_bind_eq_ok.mp h
  have hother : ¬ Text.lower c.schema = Text.lower schema := by
    intro hsame
    unfold Registry.schema at hs hfresh
    rw [hsame] at hs
    cases hlookup : env.registry.schemas.lookup (Text.lower schema) with
    | none =>
      rw [hlookup] at hs
      cases hs
    | some found =>
      rw [hlookup] at hfresh
      cases hfresh
  refine except_bind_eq_ok.mpr ⟨s, ?_, h⟩
  rw [schema_withMemory, if_neg hother, hs]

theorem table_withMemory {name : String} {columns : List Column} {rows : List (List Value)}
    (h : m.tables.lookup (Text.lower name) = some ⟨columns, rows⟩) (args : List Value) :
    (env.withMemory schema m).table ⟨schema, name, args⟩ = .ok (m.toSchema, columns) := by
  refine except_bind_eq_ok.mpr ⟨m.toSchema, ?_, ?_⟩
  · rw [schema_withMemory, if_pos rfl]
  · rw [m.columns_of_lookup h]
    rfl

theorem Quiet.withMemory {context : SourceContext} (h : env.Quiet context) : (env.withMemory schema m).Quiet context := by
  intro name s hs method args feed hfeed
  rw [schema_withMemory] at hs
  split at hs
  · cases hs
    exact m.quiet_rows hfeed
  · exact h name s hs method args feed hfeed

end Environment

/-! ### Reading memory -/

/-- Where a declared name is written, in either case, the table of that name in memory is read, under the same
alias. -/
def Rewriting.fromMemory (spells : Bool) (schema : String) (declared : List String) : Rewriting where
  spells := spells
  named name aliasName :=
    match declared.find? fun c => Text.lower c = Text.lower name with
    | some c => .schema ⟨schema, c, []⟩ (some (aliasName.getD c))
    | none => .named name aliasName

/-- The tables that the scopes show are those with a declared name, and memory has their columns and rows. -/
structure MemorySchema.Mirrors (m : MemorySchema) (declared : List String) (scopes : ScopeStack) (tables : NamedRows) :
    Prop where
  alone : scopes.tail = []
  catalog : m.catalog = .standard
  declared : ∀ name, declared.find? (fun c => Text.lower c = Text.lower name) =
    (scopes.definedTable? name).map DefinedTable.name
  stored : ∀ name t, scopes.definedTable? name = some t → ∃ rows, tables.lookup (Text.lower t.name) = some rows ∧
    m.tables.lookup (Text.lower t.name) = some ⟨t.columns, rows⟩ ∧ (t.columns.map Column.name).Nodup ∧
      ∀ row ∈ rows, RowFits t.columns row

theorem ScopeStack.definedTable?_of_insert {s s' : ScopeStack} {name : String} {symbol : Symbol} (halone : s.tail = [])
    (h : s.insert (Text.lower name) symbol = .ok s') : s.definedTable? name = none := by
  cases s with
  | nil => rfl
  | cons f rest =>
    obtain rfl : rest = [] := halone
    rw [insert] at h
    split at h
    · cases h
    · rename_i htaken
      simp only [ScopeFrame.isTaken, Bool.or_eq_true, not_or, Option.isSome_iff_ne_none, ne_eq, not_not] at htaken
      simp only [definedTable?, List.findSome?_cons, ScopeFrame.defined?, htaken.1, List.findSome?_nil]

namespace MemorySchema.Mirrors

variable {env : Environment} {context : SourceContext} {schema : String} {spells : Bool} {m : MemorySchema}
variable {declared : List String} {scopes scopes₁ : ScopeStack} {tables : NamedRows}

theorem lower_name (h : m.Mirrors declared scopes tables) {name : String} {t : DefinedTable}
    (ht : scopes.definedTable? name = some t) : Text.lower t.name = Text.lower name := by
  have hfind := h.declared name
  rw [ht] at hfind
  simpa using List.find?_some hfind

theorem define (h : m.Mirrors declared scopes tables) {name : String} {columns : List Column} {rows : List (List Value)}
    (hinsert : scopes.insert (Text.lower name) (.defined ⟨name, columns⟩) = .ok scopes₁)
    (hnames : (columns.map Column.name).Nodup) (hfits : ∀ row ∈ rows, RowFits columns row) :
    ∃ m₁, m.withTable name columns rows = .ok m₁ ∧
      m₁.Mirrors (declared ++ [name]) scopes₁ ((Text.lower name, rows) :: tables) := by
  obtain ⟨m₁, hstored, hcatalog, hlookup⟩ := m.withTable_of_fits name hfits
  have hshown := ScopeStack.definedTable?_insert_defined hinsert
  refine ⟨m₁, hstored, (ScopeStack.tail_insert hinsert).trans h.alone, hcatalog.trans h.catalog, ?_, ?_⟩
  · intro key
    rw [List.find?_append, h.declared key, hshown key]
    by_cases hkey : Text.lower key = Text.lower name
    · have hfree : scopes.definedTable? key = none := by
        rw [ScopeStack.definedTable?, hkey]
        exact ScopeStack.definedTable?_of_insert h.alone hinsert
      rw [hfree, if_pos hkey]
      simp [hkey]
    · rw [if_neg hkey]
      simp [Ne.symm hkey]
  · intro key t ht
    rw [hshown key] at ht
    split at ht
    · cases ht
      refine ⟨rows, by simp, ?_, hnames, hfits⟩
      rw [hlookup, if_pos rfl]
    · rename_i hkey
      obtain ⟨rows', htables, hmemory, hrest⟩ := h.stored key t ht
      have hother : ¬ Text.lower t.name = Text.lower name := h.lower_name ht ▸ hkey
      refine ⟨rows', ?_, ?_, hrest⟩
      · rw [List.lookup_cons, beq_eq_false_iff_ne.mpr hother, htables]
      · rw [hlookup, if_neg hother, hmemory]

theorem serves (h : m.Mirrors declared scopes tables)
    (hfresh : env.registry.schema schema = .error (.schemaUnknown schema)) (d : String → Option DefinedTable) :
    (Rewriting.fromMemory spells schema declared).Serves
      (fun columns o o' => o'.delivery columns context tables = o.delivery columns context [])
      (env.withMemory schema m) env d scopes.definedTable? where
  schemas _ _ hc := Environment.table_withMemory_of_ok hfresh hc
  origins _ _ _ _ _ := rfl
  named name aliasName t ht := by
    obtain ⟨rows, htables, hmemory, hnames, hfits⟩ := h.stored name t ht
    refine ⟨.schema m.toSchema (Text.lower schema) t.name [], some (Text.lower schema, m.toSchema), fun _ _ _ => h.catalog,
      ?_, fun s _ => ⟨insertName (Text.lower schema) s.libraries, ?_⟩⟩
    · simp only [SourceOrigin.delivery, htables]
      exact (m.delivery_of_lookup hmemory hnames hfits context []).symm
    · have hfind := h.declared name
      rw [ht] at hfind
      simp only [Rewriting.fromMemory, hfind, Option.map_some]
      exact bind_eq_ok.mpr ⟨_, s, ofExcept_eq_ok.mpr ⟨Environment.table_withMemory hmemory [], rfl⟩, rfl⟩

/-- A set that reads memory comes to what the set means. -/
theorem yields {s s₁ : BindState} (h : m.Mirrors declared s.scopes tables) (henv : env.Quiet context)
    (hfresh : env.registry.schema schema = .error (.schemaUnknown schema)) (hspells : spells = false → s.aliases = 0)
    {x : SetExpr} {b : BoundSet} (hb : Bind.setExpr env x s = .ok b s₁) :
    (env.withMemory schema m).Yields context
      [.query [] (x.rewrite (.fromMemory spells schema declared) s.aliases)] ((b.columns, ·) <$> b.rows context tables) ∧
      s₁.aliases = s.aliases + x.unnamed := by
  -- The state in which the set is bound on its own.
  let s₀ : BindState := { BindState.init with scopes := ScopeStack.push [] .table }
  have hs₀ : s₀.Aligned (.fromMemory spells schema declared) s.cursors s₀.scopes.definedTable? s.scopes.definedTable? s :=
    ⟨(Nat.zero_add _).symm, hspells, rfl, rfl⟩
  obtain ⟨b₀, s₂, hb₀, hrenumbered, -, haliases⟩ := Bind.setExpr_follows (h.serves hfresh _) hs₀ hb
  have hinjective : Function.Injective (· + s.cursors) := fun _ _ h => Nat.add_right_cancel h
  have hnone : NamedRows.Fits [] s₀.scopes := nofun
  have hrows : b.rows context tables = b₀.rows context [] :=
    hrenumbered.rows hinjective (fun _ _ _ h => h) (Bind.setExpr_ok hb₀).1 hnone
  refine ⟨(Environment.yields_statement_iff henv.withMemory).mpr ⟨.query [] b₀, { s₂ with scopes := s₂.scopes.tail }, ?_, ?_⟩,
    haliases⟩
  · exact Bind.statement_query_eq_ok_iff.mpr ⟨[], s₀, b₀, s₂, rfl, hb₀, rfl, rfl⟩
  · rw [hrows, hrenumbered.columns]
    rfl

end MemorySchema.Mirrors

/-! ### WITH lists -/

/-- The number of aliases that are made up in the bodies of a WITH list. -/
def unnamedIn (xs : List NamedTable) : Nat := (xs.map fun t => t.body.unnamed).sum

/-- The tables of a WITH list were executed one after the other, each on its own and in sight of those before it
only, and were put into memory. -/
inductive Materialized (env : Environment) (context : SourceContext) (schema : String) (spells : Bool) :
    List NamedTable → MemorySchema → Prop
  | nil : Materialized env context schema spells [] (.empty schema)
  | concat {xs : List NamedTable} {x : NamedTable} {m m' : MemorySchema} {columns : List Column} {rows : List (List Value)}
      (hbefore : Materialized env context schema spells xs m)
      (hvisible : ∀ name ∈ x.body.references, ∃ t ∈ xs, Text.lower t.name = Text.lower name)
      (hbody : (env.withMemory schema m).Yields context
        [.query [] (x.body.rewrite (.fromMemory spells schema (xs.map NamedTable.name)) (unnamedIn xs))] (.ok (columns, rows)))
      (hstored : m.withTable x.name columns rows = .ok m') : Materialized env context schema spells (xs ++ [x]) m'

section Lists

variable {env : Environment} {context : SourceContext} {schema : String} {spells : Bool} {m : MemorySchema}
variable {tables tables' : NamedRows} {s s' : BindState} {xs : List NamedTable}

theorem MemorySchema.Mirrors.visible (h : m.Mirrors (xs.map NamedTable.name) s.scopes tables) {x : SetExpr} {b : BoundSet}
    (hb : Bind.setExpr env x s = .ok b s') :
    ∀ name ∈ x.references, ∃ t ∈ xs, Text.lower t.name = Text.lower name := by
  intro name hname
  have hdefined := Bind.setExpr_references hb name hname
  rw [← Option.isSome_map, ← h.declared name, List.find?_isSome] at hdefined
  simpa using hdefined

/-- If the rest of a WITH list is bound and means something, then it can be put into memory as well. -/
theorem Materialized.extend (hdone : Materialized env context schema spells xs m) (henv : env.Quiet context)
    (hfresh : env.registry.schema schema = .error (.schemaUnknown schema))
    (hmirrors : m.Mirrors (xs.map NamedTable.name) s.scopes tables) (haliases : s.aliases = unnamedIn xs)
    {rest : List NamedTable} (hspells : spells = false → unnamedIn (xs ++ rest) = 0) {bound : List BoundTable}
    (hbound : Bind.namedTables env rest s = .ok bound s') (hrows : definedRows context tables bound = .ok tables') :
    ∃ m', Materialized env context schema spells (xs ++ rest) m' ∧
      m'.Mirrors ((xs ++ rest).map NamedTable.name) s'.scopes tables' ∧ s'.aliases = unnamedIn (xs ++ rest) := by
  induction rest generalizing xs m s tables bound with
  | nil =>
    obtain ⟨rfl, rfl⟩ := pure_eq_ok.mp hbound
    cases hrows
    rw [List.append_nil]
    exact ⟨m, hdone, hmirrors, haliases⟩
  | cons x rest ih =>
    obtain ⟨body, s₁, scopes, later, hbody, hinsert, hlater, rfl⟩ := Bind.namedTables_cons_eq_ok_iff.mp hbound
    obtain ⟨rows, hvalue, hrows⟩ := except_bind_eq_ok.mp hrows
    obtain ⟨hbodyBound, hscopes, -⟩ := Bind.setExpr_ok hbody
    rw [hscopes] at hinsert
    -- What the body of this table comes to is what it means.
    have hnone : spells = false → s.aliases = 0 := by
      intro hspelled
      have hsum := hspells hspelled
      simp only [unnamedIn, List.map_append, List.sum_append] at hsum haliases
      omega
    obtain ⟨hyields, haliases₁⟩ := hmirrors.yields henv hfresh hnone hbody
    rw [hvalue, haliases] at hyields
    have hnames : (body.columns.map Column.name).Nodup := Column.repeatedName?_eq_none_iff.mp hbodyBound.names
    obtain ⟨m₁, hstored, hmirrors₁⟩ := hmirrors.define hinsert hnames (hbodyBound.fits_rows hvalue)
    have hdone₁ := hdone.concat (hmirrors.visible hbody) hyields hstored
    rw [List.append_cons] at hspells ⊢
    refine ih hdone₁ ?_ ?_ hspells hlater hrows
    · simpa using hmirrors₁
    · simp only [haliases₁, haliases, unnamedIn, List.map_append, List.sum_append, List.map_cons, List.map_nil, List.sum_cons,
        List.sum_nil, Nat.add_zero]

theorem MemorySchema.mirrors_empty (schema : String) : (empty schema).Mirrors [] (ScopeStack.push [] .table) [] where
  alone := rfl
  catalog := rfl
  declared _ := rfl
  stored := nofun

end Lists

/-- A statement with a WITH list comes to the columns and rows of its body, read from memory: the tables of the
list are executed one after the other, each reading those before it, and what refers to them reads what they
came to, as a whole and as often as it is written. Aliases that the statement makes up are spelled out, unless
none is made up in the list. -/
theorem defined_tables_materialize {env : Environment} {context : SourceContext} {schema : String} {spells : Bool}
    {xs : List NamedTable} {x : SetExpr} {result : List Column × List (List Value)} (henv : env.Quiet context)
    (hfresh : env.registry.schema schema = .error (.schemaUnknown schema))
    (hspells : spells = false → unnamedIn xs = 0) (hrun : env.Yields context [.query xs x] (.ok result)) :
    ∃ m, Materialized env context schema spells xs m ∧
      (∀ name ∈ x.references, ∃ t ∈ xs, Text.lower t.name = Text.lower name) ∧
      (env.withMemory schema m).Yields context
        [.query [] (x.rewrite (.fromMemory spells schema (xs.map NamedTable.name)) (unnamedIn xs))] (.ok result) := by
  obtain ⟨b, s, hb, hresult⟩ := (Environment.yields_statement_iff henv).mp hrun
  obtain ⟨bound, s₁, body, s₂, hbound, hbody, rfl, rfl⟩ := Bind.statement_query_eq_ok_iff.mp hb
  obtain ⟨rows, hrows, hcolumns⟩ := except_map_eq_ok.mp hresult.symm
  obtain ⟨tables, htables, hrows⟩ := except_bind_eq_ok.mp hrows
  have hmirrors₀ : (MemorySchema.empty schema).Mirrors (List.map NamedTable.name [])
      ({ BindState.init with scopes := ScopeStack.push [] .table } : BindState).scopes [] := MemorySchema.mirrors_empty schema
  obtain ⟨m, hdone, hmirrors, haliases⟩ := Materialized.nil.extend henv hfresh hmirrors₀ rfl hspells hbound htables
  rw [List.nil_append] at hdone hmirrors haliases
  have hnone : spells = false → s₁.aliases = 0 := fun hspelled => haliases.trans (hspells hspelled)
  obtain ⟨hyields, -⟩ := hmirrors.yields henv hfresh hnone hbody
  rw [hrows, haliases] at hyields
  refine ⟨m, hdone, hmirrors.visible hbody, ?_⟩
  rw [← hcolumns]
  exact hyields

/-- The second table reads the first under another alias, the body reads the second twice and then the first, and
three aliases are made up on the way. -/
theorem defined_tables_materialize_chain :
    let schema : MemorySchema := ⟨"m", [("t", ⟨[⟨"n", .integer⟩], [[.integer 1], [.integer 2], [.integer 3]]⟩)], .standard⟩
    let env : Environment := ⟨⟨[("m", schema.toSchema)]⟩, .empty⟩
    let context : SourceContext := ⟨.empty, 1⟩
    let source : FromSource := .schema ⟨"m", "t", []⟩ none
    let column (aliasName name : String) : Expr := .column (some aliasName) name
    let xs : List NamedTable :=
      [⟨"a", .query ⟨[.field (.column none "n") none], source,
          some (.binary .gt (.column none "n") (.literal (.integer 1))), none, none, none⟩⟩,
        ⟨"b", .query ⟨[.field (.binary .add (column "x" "n") (column "t1" "n")) (some "s")],
          .join (.named "A" (some "x")) source (.binary .lt (column "t1" "n") (column "x" "n")), none, none, none, none⟩⟩]
    let x : SetExpr := .operation .union ["s"]
      (.query ⟨[.field (column "b" "s") (some "s")], .join (.named "b" none) (.named "B" (some "c"))
        (.binary .lt (column "b" "s") (column "c" "s")), none, none, none, none⟩)
      (.query ⟨[.field (column "t2" "n") (some "s")], .join source (.named "a" none)
        (.binary .eq (column "t2" "n") (column "a" "n")), none, none, none, none⟩)
    ∃ m, env.Yields context [.query xs x] (.ok ([⟨"s", .integer⟩], [[.integer 3], [.integer 4], [.integer 2]])) ∧
      Materialized env context "memory" true xs m ∧
      (∀ name ∈ x.references, ∃ t ∈ xs, Text.lower t.name = Text.lower name) ∧
      (env.withMemory "memory" m).Yields context
        [.query [] (x.rewrite (.fromMemory true "memory" (xs.map NamedTable.name)) (unnamedIn xs))]
        (.ok ([⟨"s", .integer⟩], [[.integer 3], [.integer 4], [.integer 2]])) := by
  intro schema env context source column xs x
  have henv : env.Quiet context := Environment.quiet_of_memory _ schema _ context
  have hfresh : env.registry.schema "memory" = .error (.schemaUnknown "memory") := rfl
  have hrun : env.Yields context [.query xs x] (.ok ([⟨"s", .integer⟩], [[.integer 3], [.integer 4], [.integer 2]])) :=
    (Environment.yields_ok_iff henv).mpr (by decide +kernel)
  have hspells : true = false → unnamedIn xs = 0 := nofun
  obtain ⟨m, hdone, hvisible, hyields⟩ := defined_tables_materialize henv hfresh hspells hrun
  exact ⟨m, hrun, hdone, hvisible, hyields⟩

/-- With the aliases as they are written, it is not so: the source of the body is the second of the statement without
an alias, and the first where the body stands alone. -/
theorem alias_numbered_in_statement :
    let schema : MemorySchema := ⟨"m", [("t", ⟨[⟨"n", .integer⟩], [[.integer 1]]⟩)], .standard⟩
    let env : Environment := ⟨⟨[("m", schema.toSchema)]⟩, .empty⟩
    let context : SourceContext := ⟨.empty, 1⟩
    let source : FromSource := .schema ⟨"m", "t", []⟩ none
    let one : Expr := .literal (.integer 1)
    let c : NamedTable := ⟨"c", .query ⟨[.field (.column none "n") none], source, none, none, none, none⟩⟩
    let x : SetExpr := .query ⟨[.star], .join source (.named "c" none) (.binary .eq one one), none, none, none, none⟩
    let result (aliasName : String) : List Column × List (List Value) :=
      ([⟨aliasName ++ ".n", .integer⟩, ⟨"c.n", .integer⟩], [[.integer 1, .integer 1]])
    let alone : Statement := .query [] (x.rewrite (.fromMemory false "memory" ["c"]) 0)
    env.Yields context [.query [c] x] (.ok (result "t1")) ∧ ∃ m, Materialized env context "memory" false [c] m ∧
      (env.withMemory "memory" m).Yields context [alone] (.ok (result "t0")) ∧
      ¬ (env.withMemory "memory" m).Yields context [alone] (.ok (result "t1")) := by
  intro schema env context source one c x result alone
  have henv : env.Quiet context := Environment.quiet_of_memory _ schema _ context
  have hbody : (env.withMemory "memory" (.empty "memory")).Yields context
      [.query [] (c.body.rewrite (.fromMemory false "memory" []) 0)] (.ok ([⟨"n", .integer⟩], [[.integer 1]])) :=
    (Environment.yields_ok_iff henv.withMemory).mpr (by decide +kernel)
  have hvalue : (match (MemorySchema.empty "memory").withTable "c" [⟨"n", .integer⟩] [[.integer 1]] with
    | .ok m => ((env.withMemory "memory" m).evaluate context alone).toOption
    | .error _ => none) = some (result "t0") := by decide +kernel
  refine ⟨(Environment.yields_ok_iff henv).mpr (by decide +kernel), ?_⟩
  cases hstored : (MemorySchema.empty "memory").withTable "c" [⟨"n", .integer⟩] [[.integer 1]] with
  | error e =>
    rw [hstored] at hvalue
    cases hvalue
  | ok m =>
    rw [hstored] at hvalue
    have hdone : Materialized env context "memory" false ([] ++ [c]) m := Materialized.nil.concat nofun hbody hstored
    refine ⟨m, hdone, (Environment.yields_ok_iff henv.withMemory).mpr hvalue, fun hother => ?_⟩
    have hsame := hvalue.symm.trans ((Environment.yields_ok_iff henv.withMemory).mp hother)
    exact absurd hsame (by decide +kernel)

end TabularQuery
