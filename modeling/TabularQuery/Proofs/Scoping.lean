import TabularQuery.Proofs.Resolution
import TabularQuery.Proofs.StatementBinding

/-!
Bound programs are well scoped. Every query refers to its own sources and aggregates only, a join condition to the sources
up to its own; cursors are given out in order over the whole program. What a name without an alias stands for depends on
how many sources in sight have it.
-/

namespace TabularQuery

/-! ### References -/

namespace TypedExpr

mutual

/-- All columns are columns of the sources, and all aggregates are in slots below `slots`; with none, there are no
aggregates. -/
def InScope (sources : List BoundSource) (slots : Nat) : TypedExpr → Prop
  | .literal _ => True
  | .column cursor ordinal name type => ∃ b ∈ sources, b.cursor = cursor ∧ b.columns[ordinal]? = some ⟨name, type⟩
  | .call _ args => AllInScope sources slots args
  | .aggregate slot _ => slot < slots
  | .binary _ left right _ => left.InScope sources slots ∧ right.InScope sources slots
  | .unary _ operand _ => operand.InScope sources slots

def AllInScope (sources : List BoundSource) (slots : Nat) : List TypedExpr → Prop
  | [] => True
  | e :: es => e.InScope sources slots ∧ AllInScope sources slots es

end

variable {g : Sight} {sources : List BoundSource} {slots : Nat}

mutual

theorem InScope.of_wellTyped
    (hcursors : ∀ x ∈ g.cursors, ∃ b ∈ sources, b.cursor = x.1 ∧ b.columns = x.2) (hslots : ∀ k ∈ g.slots, k < slots) :
    ∀ e : TypedExpr, e.WellTyped g → e.InScope sources slots
  | .literal _, _ => trivial
  | .column .., hw => by
    obtain ⟨columns, hmem, hcolumn⟩ := hw
    obtain ⟨b, hb, hcursor, hcolumns⟩ := hcursors _ hmem
    exact ⟨b, hb, hcursor, hcolumns ▸ hcolumn⟩
  | .call _ args, hw => AllInScope.of_wellTyped hcursors hslots args hw.2.2
  | .aggregate .., hw => hslots _ hw
  | .binary _ left right _, hw =>
    ⟨InScope.of_wellTyped hcursors hslots left hw.2.1, InScope.of_wellTyped hcursors hslots right hw.2.2⟩
  | .unary _ operand _, hw => InScope.of_wellTyped hcursors hslots operand hw.2

theorem AllInScope.of_wellTyped
    (hcursors : ∀ x ∈ g.cursors, ∃ b ∈ sources, b.cursor = x.1 ∧ b.columns = x.2) (hslots : ∀ k ∈ g.slots, k < slots) :
    ∀ es : List TypedExpr, AllWellTyped g es → AllInScope sources slots es
  | [], _ => trivial
  | e :: es, hw => ⟨InScope.of_wellTyped hcursors hslots e hw.1, AllInScope.of_wellTyped hcursors hslots es hw.2⟩

end

end TypedExpr

/-- Every clause of a query refers to its sources, and only HAVING and the fields to aggregates, which are those of the
query; slots are numbered from zero on. -/
structure BoundQuery.WellScoped (q : BoundQuery) : Prop where
  on : ∀ (i : Nat) (b : BoundSource), q.sources[i]? = some b → ∀ e, b.on = some e → e.InScope (q.sources.take (i + 1)) 0
  filter : ∀ e, q.filter = some e → e.InScope q.sources 0
  keys : ∀ g, q.grouping = some g → ∀ e ∈ g.keys, e.InScope q.sources 0
  having : ∀ g e, q.grouping = some g → g.having = some e → e.InScope q.sources q.slots.length
  fields : ∀ f ∈ q.fields, f.expr.InScope q.sources q.slots.length
  slots : ∀ (k : Nat) (a : AggregateSlot), q.slots[k]? = some a → a.slot = k ∧ ∀ e ∈ a.args, e.InScope q.sources 0

theorem exists_source_of_cursor {entries : SourceList} {sources : List BoundSource}
    (hnames : List.Forall₂ SourceEntry.Names entries sources) (slots : List Nat) :
    ∀ x ∈ (entries.sight slots).cursors, ∃ b ∈ sources, b.cursor = x.1 ∧ b.columns = x.2 := by
  intro x hx
  obtain ⟨e, he, rfl⟩ := List.mem_map.mp hx
  obtain ⟨b, hb, hb'⟩ := exists_of_forall₂ hnames he
  exact ⟨b, hb, hb'.cursor.symm, hb'.columns.symm⟩

theorem QueryBound.wellScoped {env : Environment} {scopes : ScopeStack} {first : Nat} {q : BoundQuery}
    {entries : SourceList} (h : QueryBound env scopes first q entries) : q.WellScoped := by
  have hnames := h.sources.names
  have hslots : ∀ k ∈ q.slots.map AggregateSlot.slot, k < q.slots.length := by
    intro k hk
    obtain ⟨a, ha, rfl⟩ := List.mem_map.mp hk
    obtain ⟨i, hi⟩ := List.getElem?_of_mem ha
    rw [(h.slots i a hi).1]
    exact (List.getElem?_eq_some_iff.mp hi).1
  have hplain : ∀ e : TypedExpr, e.WellTyped (entries.sight []) → e.InScope q.sources 0 :=
    fun e => .of_wellTyped (exists_source_of_cursor hnames []) nofun e
  have hgrouped : ∀ e : TypedExpr, e.WellTyped (entries.sight (q.slots.map AggregateSlot.slot)) →
      e.InScope q.sources q.slots.length :=
    fun e => .of_wellTyped (exists_source_of_cursor hnames _) hslots e
  refine ⟨?_, ?_, ?_, ?_, ?_, ?_⟩
  · intro i b hb e he
    have hwell := (h.sources.on i b hb e he).1
    rw [ScopeStack.entries_push_query, List.nil_append] at hwell
    exact .of_wellTyped (exists_source_of_cursor (List.forall₂_take (i + 1) hnames) []) nofun e hwell
  · exact fun e he => hplain e (h.filter e he).1
  · exact fun g hg e he => hplain e (TypedExpr.allWellTyped_iff.mp (h.keys g hg) e he)
  · exact fun g e hg he => hgrouped e (h.having g hg e he).1
  · exact fun f hf => hgrouped f.expr (TypedExpr.allWellTyped_iff.mp h.fields f.expr (List.mem_map_of_mem hf))
  · intro k a ha
    obtain ⟨hslot, hwell⟩ := h.slots k a ha
    exact ⟨hslot, fun e he => hplain e (TypedExpr.allWellTyped_iff.mp hwell.args e he)⟩

/-! ### Queries of a program -/

/-- The queries of a set expression, the leftmost first. -/
def SetExpr.queries : SetExpr → List Query
  | .query q => [q]
  | .operation _ _ left right => left.queries ++ right.queries

/-- The queries of a statement: those of its WITH list and then those of its body. -/
def Statement.queries : Statement → List Query
  | .query tables body => (tables.flatMap fun t => t.body.queries) ++ body.queries
  | .describe _ => []

def BoundQuery.cursors (q : BoundQuery) : List Nat := q.sources.map BoundSource.cursor

/-- Queries that are bound one after the other: their sources have the cursors from `first` up to `next`, in order. -/
structure QueriesBound (env : Environment) (first : Nat) (written : List Query) (bound : List BoundQuery) (next : Nat) :
    Prop where
  queries : List.Forall₂ (fun x q => ∃ s s', Bind.query env x s = .ok q s') written bound
  cursors : bound.flatMap BoundQuery.cursors = List.range' first (next - first)
  le : first ≤ next

namespace QueriesBound

variable {env : Environment} {first middle next : Nat} {xs ys : List Query} {qs rs : List BoundQuery}

theorem nil : QueriesBound env first [] [] first := ⟨.nil, by simp, Nat.le_refl _⟩

theorem append (h : QueriesBound env first xs qs middle) (h' : QueriesBound env middle ys rs next) :
    QueriesBound env first (xs ++ ys) (qs ++ rs) next where
  queries := List.rel_append h.queries h'.queries
  cursors := by
    have hle := h.le
    have hle' := h'.le
    have hmiddle : List.range' middle (next - middle) = List.range' (first + (middle - first)) (next - middle) := by
      congr 1
      omega
    rw [List.flatMap_append, h.cursors, h'.cursors, hmiddle, List.range'_append_1]
    congr 1
    omega
  le := Nat.le_trans h.le h'.le

end QueriesBound

namespace Bind

variable {env : Environment} {s s' : BindState}

theorem queriesBound_query {x : Query} {q : BoundQuery} (h : query env x s = .ok q s') :
    QueriesBound env s.cursors [x] [q] s'.cursors := by
  obtain ⟨⟨entries, hbound⟩, -, -, -, hcursors⟩ := query_ok h
  refine ⟨.cons ⟨s, s', h⟩ .nil, ?_, by omega⟩
  rw [List.flatMap_singleton, BoundQuery.cursors, hbound.sources.cursors]
  congr 1
  omega

theorem queriesBound_setExpr {x : SetExpr} {b : BoundSet} (h : setExpr env x s = .ok b s') :
    QueriesBound env s.cursors x.queries b.queries s'.cursors := by
  induction x generalizing s s' b with
  | query q =>
    obtain ⟨bound, hquery, rfl⟩ := bind_pure_eq_ok.mp h
    exact queriesBound_query hquery
  | operation op names left right ihl ihr =>
    obtain ⟨l, r, keys, s₁, s₂, hl, hr, -, -, rfl, rfl⟩ := setExpr_operation_eq_ok_iff.mp h
    have hleft := ihl hl
    have hright := ihr hr
    exact hleft.append hright

theorem queriesBound_namedTables {xs : List NamedTable} {tables : List BoundTable}
    (h : namedTables env xs s = .ok tables s') :
    QueriesBound env s.cursors (xs.flatMap fun t => t.body.queries) (tables.flatMap fun t => t.body.queries) s'.cursors := by
  induction xs generalizing s tables with
  | nil =>
    obtain ⟨rfl, rfl⟩ := pure_eq_ok.mp h
    exact .nil
  | cons x xs ih =>
    obtain ⟨body, s₁, scopes, rest, hbody, -, hrest, rfl⟩ := namedTables_cons_eq_ok_iff.mp h
    have hthese := queriesBound_setExpr hbody
    have hothers := ih hrest
    exact hthese.append hothers

theorem queriesBound_statement {x : Statement} {b : BoundStatement} (h : statement env x s = .ok b s') :
    QueriesBound env s.cursors x.queries b.queries s'.cursors := by
  cases x with
  | query xs x =>
    obtain ⟨tables, s₁, body, s₂, htables, hbody, rfl, rfl⟩ := statement_query_eq_ok_iff.mp h
    have hdefined := queriesBound_namedTables htables
    have hrest := queriesBound_setExpr hbody
    exact hdefined.append hrest
  | describe c =>
    obtain ⟨schema, columns, -, rfl, rfl⟩ := statement_describe_eq_ok_iff.mp h
    exact .nil

theorem queriesBound_statements {xs : List Statement} {bs : List BoundStatement}
    (h : statements env xs s = .ok bs s') :
    QueriesBound env s.cursors (xs.flatMap Statement.queries) (bs.flatMap BoundStatement.queries) s'.cursors := by
  induction xs generalizing s bs with
  | nil =>
    obtain ⟨rfl, rfl⟩ := pure_eq_ok.mp h
    exact .nil
  | cons x xs ih =>
    obtain ⟨b, s₁, hb, h⟩ := bind_eq_ok.mp h
    obtain ⟨rest, hrest, rfl⟩ := bind_pure_eq_ok.mp h
    exact (queriesBound_statement hb).append (ih hrest)

end Bind

theorem bind_queriesBound {env : Environment} {xs : List Statement} {p : BoundProgram} (h : bind env xs = .ok p) :
    QueriesBound env 0 (xs.flatMap Statement.queries) p.queries p.cursorCount := by
  unfold bind at h
  split at h
  · rename_i hstatements
    cases h
    exact Bind.queriesBound_statements hstatements
  · cases h

/-! ### Names without an alias -/

/-- A name without an alias is a column if one source in sight has it, ambiguous if several have, and otherwise a property
or not found. -/
theorem Bind.expr_unqualified (clause : Clause) (name : String) (s : BindState) :
    (∀ e i c, s.scopes.entries.columns name = [(e, i, c)] →
      expr clause (.column none name) s = .ok (e.columnExpr i c) s) ∧
    (2 ≤ (s.scopes.entries.columns name).length →
      ∃ error, expr clause (.column none name) s = .error error s ∧ error.code = .ambiguous) ∧
    (s.scopes.entries.columns name = [] →
      (∃ library f s', s.scopes.entries.property? name = some (library, f) ∧
        expr clause (.column none name) s = .ok (.call f []) s') ∨
      s.scopes.entries.property? name = none ∧
        ∃ error, expr clause (.column none name) s = .error error s ∧ error.code = .notFound) := by
  rw [show expr clause (.column none name) s = column none name s by rw [expr], column_none_apply]
  cases hcolumns : s.scopes.entries.columns name with
  | nil =>
    refine ⟨nofun, nofun, fun _ => ?_⟩
    cases hproperty : s.scopes.entries.property? name with
    | none => exact .inr ⟨rfl, _, rfl, rfl⟩
    | some found =>
      obtain ⟨library, f⟩ := found
      cases library <;> exact .inl ⟨_, f, _, rfl, rfl⟩
  | cons first others =>
    cases others with
    | nil =>
      refine ⟨?_, nofun, nofun⟩
      rintro e i c ⟨⟩
      rfl
    | cons second others => exact ⟨nofun, fun _ => ⟨_, rfl, rfl⟩, nofun⟩

/-! ### Programs -/

/-- Names of a program that is bound are well scoped: its sources have different cursors below the program's count; the
clauses of its queries are bound to what they denote, so that a name without an alias is a column only if one source in sight
has it; and they refer to the sources and aggregates of their own query. -/
theorem bound_names_scoped {env : Environment} {xs : List Statement} {p : BoundProgram} (h : bind env xs = .ok p) :
    (p.queries.flatMap BoundQuery.cursors).Nodup ∧ (∀ c ∈ p.queries.flatMap BoundQuery.cursors, c < p.cursorCount) ∧
    List.Forall₂ Query.ResolvesTo (xs.flatMap Statement.queries) p.queries ∧
    (∀ q ∈ p.queries, q.WellScoped) ∧
    ∀ (clause : Clause) (name : String) (s : BindState),
      (∀ e i c, s.scopes.entries.columns name = [(e, i, c)] →
        Bind.expr clause (.column none name) s = .ok (e.columnExpr i c) s) ∧
      (2 ≤ (s.scopes.entries.columns name).length →
        ∃ error, Bind.expr clause (.column none name) s = .error error s ∧ error.code = .ambiguous) ∧
      (s.scopes.entries.columns name = [] →
        (∃ library f s', s.scopes.entries.property? name = some (library, f) ∧
          Bind.expr clause (.column none name) s = .ok (.call f []) s') ∨
        s.scopes.entries.property? name = none ∧
          ∃ error, Bind.expr clause (.column none name) s = .error error s ∧ error.code = .notFound) := by
  have hbound := bind_queriesBound h
  refine ⟨?_, ?_, ?_, ?_, Bind.expr_unqualified⟩
  · rw [hbound.cursors]
    exact List.nodup_range'
  · intro c hc
    rw [hbound.cursors, List.mem_range'_1] at hc
    omega
  · exact hbound.queries.imp fun _ _ ⟨_, _, hquery⟩ => Bind.query_resolves hquery
  · intro q hq
    obtain ⟨x, -, s, s', hquery⟩ := exists_of_forall₂ hbound.queries.flip hq
    obtain ⟨⟨entries, hquery⟩, -⟩ := Bind.query_ok hquery
    exact hquery.wellScoped

/-- A defined table, which is then joined and grouped with aggregates in a field and in HAVING, and a union with a query
over the table alone. -/
theorem bound_names_scoped_union :
    let schema : MemorySchema := ⟨"m", [("t", ⟨[⟨"n", .integer⟩], []⟩)], .standard⟩
    let env : Environment := ⟨⟨[("m", schema.toSchema)]⟩, .empty⟩
    let source (aliasName : Option String) : FromSource := .schema ⟨"m", "t", []⟩ aliasName
    let n (aliasName : Option String) : Expr := .column aliasName "n"
    let sum (x : Expr) : Expr := .call none "Sum" [x]
    let c : NamedTable :=
      ⟨"c", .query ⟨[.field (n none) none], source none, some (.binary .gt (n none) (.literal (.integer 0))), none, none, none⟩⟩
    let joined : Query := ⟨[.field (n (some "a")) (some "k"), .field (sum (n (some "b"))) (some "s")],
      .join (source (some "a")) (.named "c" (some "b")) (.binary .le (n (some "a")) (n (some "b"))), none,
      some ⟨[n (some "a")], some (.binary .gt (sum (n (some "b"))) (sum (n (some "a"))))⟩, none, none⟩
    let alone : Query := ⟨[.field (n none) (some "k"), .field (sum (n none)) (some "s")], .named "C" none, none,
      some ⟨[n none], none⟩, none, none⟩
    let xs : List Statement := [.query [c] (.operation .union ["k"] (.query joined) (.query alone))]
    ∃ p, bind env xs = .ok p ∧ p.queries.map BoundQuery.cursors = [[0], [1, 2], [3]] ∧
      p.queries.map (fun q => q.slots.map AggregateSlot.text) = [[], ["Sum(b.n)", "Sum(a.n)"], ["Sum(n)"]] ∧
      (p.queries.flatMap BoundQuery.cursors).Nodup ∧ (∀ c ∈ p.queries.flatMap BoundQuery.cursors, c < p.cursorCount) ∧
      List.Forall₂ Query.ResolvesTo (xs.flatMap Statement.queries) p.queries ∧ (∀ q ∈ p.queries, q.WellScoped) := by
  intro schema env source n sum c joined alone xs
  have hvalue : (match bind env xs with
    | .ok p => (p.queries.map BoundQuery.cursors, p.queries.map fun q => q.slots.map AggregateSlot.text)
    | .error _ => ([], [])) = ([[0], [1, 2], [3]], [[], ["Sum(b.n)", "Sum(a.n)"], ["Sum(n)"]]) := by decide +kernel
  cases hbind : bind env xs with
  | error e =>
    rw [hbind] at hvalue
    cases hvalue
  | ok p =>
    rw [hbind] at hvalue
    obtain ⟨hcursors, htexts⟩ := Prod.mk.inj hvalue
    obtain ⟨hdistinct, hbelow, hresolve, hscoped, -⟩ := bound_names_scoped hbind
    exact ⟨p, rfl, hcursors, htexts, hdistinct, hbelow, hresolve, hscoped⟩

end TabularQuery
