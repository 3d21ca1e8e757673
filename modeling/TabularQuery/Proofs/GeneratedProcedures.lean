import TabularQuery.Proofs.Generation
import TabularQuery.Proofs.StatementBinding

/-!
The procedures of generated programs. Generation goes through the tables that a statement defines and then through its
body, and adds a table and a procedure for each query, each set operation and each description. So what holds of these
three kinds of procedures, in sight of the tables before them, holds of all procedures of a program.
-/

namespace TabularQuery

/-! ### Scopes -/

/-- The tables that the scopes show are generated, with the same columns. -/
def ScopeStack.Generated (scopes : ScopeStack) (g : GenerateState) : Prop :=
  ∀ key t, scopes.definedTable? key = some t → Text.lower t.name = Text.lower key ∧
    ∃ n d, g.defined.lookup (Text.lower t.name) = some n ∧ g.tables[n]? = some d ∧ d.columns = t.columns

namespace ScopeStack.Generated

variable {scopes : ScopeStack} {g g' : GenerateState}

theorem mono (h : scopes.Generated g) (htables : g.tables <+: g'.tables) (hdefined : g'.defined = g.defined) :
    scopes.Generated g' := by
  intro key t ht
  obtain ⟨hname, n, d, hn, hd, hcolumns⟩ := h key t ht
  exact ⟨hname, n, d, hdefined ▸ hn, getElem?_of_isPrefix htables hd, hcolumns⟩

theorem define {scopes₁ : ScopeStack} {name : String} {columns : List Column} {n : Nat} {d : TableDeclaration}
    (h : scopes.Generated g)
    (hinsert : scopes.insert (Text.lower name) (.defined ⟨name, columns⟩) = .ok scopes₁)
    (hd : g.tables[n]? = some d) (hcolumns : d.columns = columns) :
    scopes₁.Generated { g with defined := (Text.lower name, n) :: g.defined } := by
  intro key t ht
  rw [definedTable?_insert_defined hinsert] at ht
  by_cases hkey : Text.lower key = Text.lower name
  · rw [if_pos hkey] at ht
    cases ht
    exact ⟨hkey.symm, n, d, List.lookup_cons_self, hd, hcolumns⟩
  · rw [if_neg hkey] at ht
    obtain ⟨hname, n', d', hn', hd', hcolumns'⟩ := h key t ht
    refine ⟨hname, n', d', ?_, hd', hcolumns'⟩
    rw [List.lookup_cons, beq_eq_false_iff_ne.mpr (hname ▸ hkey), hn']

end ScopeStack.Generated

/-! ### What generation adds -/

/-- What generating a set operation adds to the state, after its operands. -/
structure SetOperator.Generated (op : SetOperator) (name : String) (keyId : Nat) (keys : List Nat)
    (sites : SetSites) (d : TableDeclaration) (g g' : GenerateState) : Prop where
  grows : g.Grows g'
  procedures : g'.procedures = g.procedures ++ [⟨name, (op.code name keyId keys sites).toArray⟩]
  tables : g'.tables = g.tables ++ [d]
  output : sites.output = g.tables.length
  leftCursor : sites.leftCursor < g'.cursorCount
  rightCursor : op.copiesRight = true → sites.rightCursor < g'.cursorCount
  defined : g'.defined = g.defined

theorem SetOperator.Generated.declared {op : SetOperator} {name : String} {keyId : Nat} {keys : List Nat} {sites : SetSites}
    {d : TableDeclaration} {g g' : GenerateState} (h : op.Generated name keyId keys sites d g g') :
    g'.tables[sites.output]? = some d := by
  rw [h.tables, h.output]
  exact List.getElem?_concat_length

namespace Generate

variable {env : Environment} {scopes after : ScopeStack} {limit n : Nat} {g g' : GenerateState} {name : Option String}

section Sets

variable {op : SetOperator} {ownName : String} {keyId : Nat} {keys : List Nat} {left right : BoundSet}

/-- A set operation is generated after its left and its right operand. -/
theorem set_operation_ok (h : set (.operation op ownName keyId keys left right) name g = .ok n g') :
    ∃ g₁ g₂ sites, set left none g = .ok sites.left g₁ ∧ set right none g₁ = .ok sites.right g₂ ∧
      sites.output = n ∧ op.Generated ownName keyId keys sites ⟨name.getD ownName, left.columns⟩ g₂ g' := by
  obtain ⟨leftTable, g₁, hl, h⟩ := bind_eq_ok.mp h
  obtain ⟨rightTable, g₂, hr, h⟩ := bind_eq_ok.mp h
  replace h := eq_ok_of_bind h rfl
  replace h := eq_ok_of_bind h rfl
  have hgrows : ∀ procedures tables cursorCount, g₂.cursorCount ≤ cursorCount → g₂.Grows { g₂ with
      procedures := g₂.procedures ++ procedures, tables := g₂.tables ++ tables, cursorCount } :=
    fun _ _ _ hle => ⟨List.prefix_append _ _, List.prefix_append _ _, List.prefix_rfl, List.prefix_rfl, hle, Nat.le_refl _⟩
  cases hop : op.copiesRight with
  | false =>
    rw [hop] at h
    replace h := eq_ok_of_bind h rfl
    cases h
    exact ⟨g₁, g₂, ⟨leftTable, rightTable, g₂.tables.length, g₂.cursorCount, 0⟩, hl, hr, rfl,
      hgrows _ _ _ (Nat.le_succ _), rfl, rfl, rfl, Nat.lt_succ_self _, by rw [hop]; exact nofun, rfl⟩
  | true =>
    rw [hop] at h
    replace h := eq_ok_of_bind h rfl
    cases h
    exact ⟨g₁, g₂, ⟨leftTable, rightTable, g₂.tables.length, g₂.cursorCount, g₂.cursorCount + 1⟩, hl, hr, rfl,
      hgrows _ _ _ (Nat.le_add_right _ 2), rfl, rfl, rfl, Nat.lt_add_of_pos_right Nat.two_pos,
      fun _ => Nat.lt_succ_self _, rfl⟩

/-- Generating a set only adds, and what it adds last is its table. -/
theorem set_declares {s : BoundSet} (h : set s name g = .ok n g') :
    g.Grows g' ∧ g'.defined = g.defined ∧ g.tables.length ≤ n ∧ ∃ d, g'.tables[n]? = some d ∧ d.columns = s.columns := by
  induction s generalizing name n g g' with
  | query q =>
    obtain ⟨sites, hgen, rfl⟩ := query_ok h
    refine ⟨hgen.grows, hgen.defined, Nat.le_refl _, q.declaration name, ?_, rfl⟩
    rw [hgen.tables]
    exact List.getElem?_concat_length
  | operation op ownName keyId keys left right ihl ihr =>
    obtain ⟨g₁, g₂, sites, hl, hr, rfl, hgen⟩ := set_operation_ok h
    obtain ⟨hgrowsl, hdefinedl, hgel, dl, hdl, -⟩ := ihl hl
    obtain ⟨hgrowsr, hdefinedr, hger, dr, hdr, -⟩ := ihr hr
    have hlt := (List.getElem?_eq_some_iff.mp hdl).1
    have hlt' : sites.right < sites.output := hgen.output ▸ (List.getElem?_eq_some_iff.mp hdr).1
    exact ⟨(hgrowsl.trans hgrowsr).trans hgen.grows, hgen.defined.trans (hdefinedr.trans hdefinedl), by omega, _,
      hgen.declared, rfl⟩

theorem operands_ordered {sites : SetSites} {d : TableDeclaration} {g₁ g₂ : GenerateState}
    (hl : set left none g = .ok sites.left g₁) (hr : set right none g₁ = .ok sites.right g₂)
    (hgen : op.Generated ownName keyId keys sites d g₂ g') :
    sites.left < g₁.tables.length ∧ g₁.tables.length ≤ sites.right ∧ sites.right < sites.output := by
  obtain ⟨-, -, -, dl, hdl, -⟩ := set_declares hl
  obtain ⟨-, -, hge, dr, hdr, -⟩ := set_declares hr
  exact ⟨(List.getElem?_eq_some_iff.mp hdl).1, hge, hgen.output ▸ (List.getElem?_eq_some_iff.mp hdr).1⟩

end Sets

theorem grows_withDefined (g : GenerateState) (defined : List (String × Nat)) : g.Grows { g with defined } :=
  ⟨List.prefix_rfl, List.prefix_rfl, List.prefix_rfl, List.prefix_rfl, Nat.le_refl _, Nat.le_refl _⟩

variable {t : BoundTable} {u : Unit} {xs : List BoundTable} {b : BoundStatement} {bs : List BoundStatement}
variable {result result' : Option Nat}

theorem definedTables_cons_ok {rest : List BoundTable}
    (h : definedTables (t :: rest) g = .ok u g') :
    ∃ n g₁, set t.body (some t.name) g = .ok n g₁ ∧
      definedTables rest { g₁ with defined := (Text.lower t.name, n) :: g₁.defined } = .ok u g' := by
  obtain ⟨n, g₁, hset, h⟩ := bind_eq_ok.mp h
  replace h := eq_ok_of_bind h rfl
  exact ⟨n, g₁, hset, h⟩

theorem definedTables_grows (h : definedTables xs g = .ok u g') : g.Grows g' := by
  induction xs generalizing g with
  | nil =>
    cases h
    exact .refl _
  | cons t rest ih =>
    obtain ⟨n, g₁, hset, hrest⟩ := definedTables_cons_ok h
    exact ((set_declares hset).1.trans (grows_withDefined g₁ _)).trans (ih hrest)

theorem generated_define {g₁ : GenerateState} {scopes₁ : ScopeStack}
    (hscopes : scopes.Generated g) (hset : set t.body (some t.name) g = .ok n g₁)
    (hinsert : scopes.insert (Text.lower t.name) (.defined ⟨t.name, t.body.columns⟩) = .ok scopes₁) :
    scopes₁.Generated { g₁ with defined := (Text.lower t.name, n) :: g₁.defined } := by
  obtain ⟨hgrows, hdefined, -, d, hd, hcolumns⟩ := set_declares hset
  exact (hscopes.mono hgrows.tables hdefined).define hinsert hd hcolumns

theorem definedTables_generated (hscopes : scopes.Generated g)
    (hbound : TablesBound env limit scopes xs after) (h : definedTables xs g = .ok u g') : after.Generated g' := by
  induction xs generalizing scopes g with
  | nil =>
    cases h
    obtain rfl : scopes = after := hbound
    exact hscopes
  | cons t rest ih =>
    obtain ⟨-, scopes₁, hinsert, hrestBound⟩ := hbound
    obtain ⟨n, g₁, hset, hrest⟩ := definedTables_cons_ok h
    exact ih (generated_define hscopes hset hinsert) hrestBound hrest

theorem statement_grows (h : statement b g = .ok n g') : g.Grows g' := by
  cases b with
  | query xs body =>
    replace h := eq_ok_of_bind h rfl
    obtain ⟨_, g₁, hdefined, h⟩ := bind_eq_ok.mp h
    exact ((grows_withDefined g []).trans (definedTables_grows hdefined)).trans (set_declares h).1
  | describe name source columns =>
    cases h
    exact ⟨List.prefix_append _ _, List.prefix_append _ _, List.prefix_rfl, List.prefix_rfl, Nat.le_refl _, Nat.le_refl _⟩

theorem statements_cons_ok (h : statements result (b :: bs) g = .ok result' g') :
    ∃ n g₁, statement b g = .ok n g₁ ∧ statements (some n) bs g₁ = .ok result' g' :=
  bind_eq_ok.mp h

theorem statements_grows (h : statements result bs g = .ok result' g') : g.Grows g' := by
  induction bs generalizing g result with
  | nil =>
    obtain ⟨rfl, rfl⟩ := pure_eq_ok.mp h
    exact .refl g
  | cons b bs ih =>
    obtain ⟨n, g₁, hb, h⟩ := statements_cons_ok h
    exact (statement_grows hb).trans (ih h)

end Generate

/-! ### Names of procedures -/

/-- The names of the procedures of a set, in the order in which they are generated. -/
def BoundSet.names : BoundSet → List String
  | .query q => [q.name]
  | .operation _ name _ _ left right => left.names ++ right.names ++ [name]

def BoundStatement.names : BoundStatement → List String
  | .query tables body => tables.flatMap (fun t => t.body.names) ++ body.names
  | .describe name _ _ => [name]

/-- The names of the procedures so far. -/
def GenerateState.names (g : GenerateState) : List String := g.procedures.map Procedure.name

namespace Generate

variable {g g' : GenerateState} {n : Nat} {name : Option String}

theorem set_names {s : BoundSet} (h : set s name g = .ok n g') : g'.names = g.names ++ s.names := by
  induction s generalizing name n g g' with
  | query q =>
    obtain ⟨sites, hgen, -⟩ := query_ok h
    rw [GenerateState.names, hgen.procedures, List.map_append]
    rfl
  | operation op ownName keyId keys left right ihl ihr =>
    obtain ⟨g₁, g₂, sites, hl, hr, -, hgen⟩ := set_operation_ok h
    have hsides : g₂.names = g.names ++ (left.names ++ right.names) := by rw [ihr hr, ihl hl, List.append_assoc]
    rw [GenerateState.names, hgen.procedures, List.map_append, BoundSet.names, ← List.append_assoc, ← hsides]
    rfl

theorem definedTables_names {tables : List BoundTable} {u : Unit} (h : definedTables tables g = .ok u g') :
    g'.names = g.names ++ tables.flatMap fun t => t.body.names := by
  induction tables generalizing g with
  | nil =>
    cases h
    exact (List.append_nil _).symm
  | cons t rest ih =>
    obtain ⟨n, g₁, hset, hrest⟩ := definedTables_cons_ok h
    have hfirst : g₁.names = g.names ++ t.body.names := set_names hset
    rw [ih hrest, List.flatMap_cons, ← List.append_assoc, ← hfirst]
    rfl

theorem statement_names {b : BoundStatement} (h : statement b g = .ok n g') : g'.names = g.names ++ b.names := by
  cases b with
  | query tables body =>
    replace h := eq_ok_of_bind h rfl
    obtain ⟨_, g₁, htables, hbody⟩ := bind_eq_ok.mp h
    rw [set_names hbody, definedTables_names htables, BoundStatement.names, List.append_assoc]
    rfl
  | describe describedName source columns =>
    cases h
    exact List.map_append

theorem statements_names {bs : List BoundStatement} {result result' : Option Nat}
    (h : statements result bs g = .ok result' g') : g'.names = g.names ++ bs.flatMap BoundStatement.names := by
  induction bs generalizing g result with
  | nil =>
    obtain ⟨-, rfl⟩ := pure_eq_ok.mp h
    exact (List.append_nil _).symm
  | cons b bs ih =>
    obtain ⟨n, g₁, hb, hrest⟩ := statements_cons_ok h
    rw [ih hrest, statement_names hb, List.flatMap_cons, List.append_assoc]

end Generate

/-! ### Rules for procedures -/

namespace GenerateState

/-- Every table has its procedure. -/
def Paired (g : GenerateState) : Prop := g.procedures.length = g.tables.length

/-- Every table `i` has its procedure, of which `P i` holds, and names stand for tables that are there. -/
structure Upholds (P : Nat → Procedure → Prop) (g : GenerateState) : Prop where
  paired : g.Paired
  procedures : ∀ (i : Nat) (p : Procedure), g.procedures[i]? = some p → P i p
  defined : ∀ entry ∈ g.defined, entry.2 < g.tables.length

namespace Upholds

variable {P : Nat → Procedure → Prop} {g g' : GenerateState}

theorem add (h : g.Upholds P) {p : Procedure} {d : TableDeclaration} (hprocedures : g'.procedures = g.procedures ++ [p])
    (htables : g'.tables = g.tables ++ [d]) (hdefined : g'.defined = g.defined) (hp : P g.tables.length p) :
    g'.Upholds P where
  paired := by
    rw [Paired, hprocedures, htables, List.length_append, List.length_append, h.paired]
    rfl
  procedures i p' hi := by
    rw [hprocedures] at hi
    rcases Nat.lt_or_ge i g.procedures.length with hlt | hge
    · rw [List.getElem?_append_left hlt] at hi
      exact h.procedures i p' hi
    · rw [List.getElem?_append_right hge, List.getElem?_singleton] at hi
      split at hi <;> cases hi
      obtain rfl : i = g.tables.length := by
        rw [← h.paired]
        omega
      exact hp
  defined entry hentry := by
    rw [htables, List.length_append]
    exact Nat.lt_add_right _ (h.defined entry (hdefined ▸ hentry))

theorem define (h : g.Upholds P) (name : String) {n : Nat} (hn : n < g.tables.length) :
    Upholds P { g with defined := (name, n) :: g.defined } where
  paired := h.paired
  procedures := h.procedures
  defined := List.forall_mem_cons.mpr ⟨hn, h.defined⟩

theorem forget (h : g.Upholds P) : Upholds P { g with defined := [] } where
  paired := h.paired
  procedures := h.procedures
  defined := nofun

end Upholds

/-- Table `n` is the last one, it has this name and these columns, and the last procedure goes by the own name. -/
structure EndsIn (g : GenerateState) (n : Nat) (name ownName : String) (columns : List Column) : Prop where
  last : n + 1 = g.tables.length
  table : g.tables[n]? = some ⟨name, columns⟩
  procedure : g.procedures[n]?.map Procedure.name = some ownName

theorem endsIn_of_append {g g' : GenerateState} (hpaired : g.Paired) {p : Procedure} {d : TableDeclaration}
    (hprocedures : g'.procedures = g.procedures ++ [p]) (htables : g'.tables = g.tables ++ [d]) :
    g'.EndsIn g.tables.length d.name p.name d.columns where
  last := by simp [htables]
  table := by simp [htables]
  procedure := by
    rw [hprocedures, ← hpaired]
    simp

end GenerateState

namespace BoundStatement

/-- The name of a statement, which its last procedure and its result have. -/
def name : BoundStatement → String
  | .query _ body => body.name
  | .describe name _ _ => name

def columns : BoundStatement → List Column
  | .query _ body => body.columns
  | .describe .. => Generate.describeColumns

end BoundStatement

/-- `P i` holds of the procedure of table `i` of the program, be it that of a bound query of which `Q` holds, of a set
operation on two tables before its own, or of a description. -/
structure ProcedureRule (env : Environment) (program : Program) (Q : BoundQuery → Prop) (P : Nat → Procedure → Prop) :
    Prop where
  query : ∀ {scopes first q entries name sites g g'}, QueryBound env scopes first q entries → Q q →
    first + q.sources.length ≤ program.cursorCount → scopes.Generated g → (∀ entry ∈ g.defined, entry.2 < g.tables.length) →
    q.Generated name sites g g' → g'.Within program → P sites.table ⟨q.name, (q.code sites).toArray⟩
  operation : ∀ {scopes limit op ownName keyId keys left right sites tableName dl dr g g'},
    (BoundSet.operation op ownName keyId keys left right).Bound env scopes limit →
    op.Generated ownName keyId keys sites ⟨tableName, left.columns⟩ g g' → g'.Within program →
    sites.left < sites.right → sites.right < sites.output →
    program.tables[sites.left]? = some dl → dl.columns = left.columns →
    program.tables[sites.right]? = some dr → dr.columns = right.columns →
    P sites.output ⟨ownName, (op.code ownName keyId keys sites).toArray⟩
  description : ∀ {n name} source columns, program.tables[n]? = some ⟨name, Generate.describeColumns⟩ →
    P n ⟨name, (describeCode source columns n).toArray⟩

namespace ProcedureRule

open GenerateState Generate

variable {env : Environment} {program : Program} {Q : BoundQuery → Prop} {P : Nat → Procedure → Prop}
variable {scopes after : ScopeStack} {limit n : Nat} {g g' : GenerateState} {name : Option String}

theorem set (hrule : ProcedureRule env program Q P) {s : BoundSet} (hup : g.Upholds P) (hscopes : scopes.Generated g)
    (hbound : s.Bound env scopes limit) (hqueries : ∀ q ∈ s.queries, Q q) (hlimit : limit ≤ program.cursorCount)
    (h : Generate.set s name g = .ok n g') (hwithin : g'.Within program) :
    g'.Upholds P ∧ g'.EndsIn n (name.getD s.name) s.name s.columns := by
  induction s generalizing name n g g' with
  | query q =>
    obtain ⟨first, entries, hquery, hcursors⟩ := hbound
    obtain ⟨sites, hgen, rfl⟩ := query_ok h
    have hp := hrule.query hquery (hqueries q (List.mem_singleton_self q)) (Nat.le_trans hcursors hlimit) hscopes
      hup.defined hgen hwithin
    rw [hgen.table] at hp
    exact ⟨hup.add hgen.procedures hgen.tables hgen.defined hp,
      endsIn_of_append hup.paired hgen.procedures hgen.tables⟩
  | operation op ownName keyId keys left right ihl ihr =>
    obtain ⟨g₁, g₂, sites, hl, hr, rfl, hgen⟩ := set_operation_ok h
    obtain ⟨hqueriesl, hqueriesr⟩ := List.forall_mem_append.mp hqueries
    obtain ⟨hgrowsl, hdefinedl, -, dl, hdl, hcolumnsl⟩ := set_declares hl
    obtain ⟨hgrowsr, -, -, dr, hdr, hcolumnsr⟩ := set_declares hr
    have hwithin₂ := hgen.grows.within hwithin
    have hwithin₁ := hgrowsr.within hwithin₂
    obtain ⟨hup₁, -⟩ := ihl hup hscopes hbound.1 hqueriesl hl hwithin₁
    obtain ⟨hup₂, -⟩ := ihr hup₁ (hscopes.mono hgrowsl.tables hdefinedl) hbound.2.1 hqueriesr hr hwithin₂
    obtain ⟨hlt, hge, hlt'⟩ := operands_ordered hl hr hgen
    have hp := hrule.operation hbound hgen hwithin (by omega) hlt' (getElem?_of_isPrefix hwithin₁.tables hdl) hcolumnsl
      (getElem?_of_isPrefix hwithin₂.tables hdr) hcolumnsr
    rw [hgen.output] at hp ⊢
    exact ⟨hup₂.add hgen.procedures hgen.tables hgen.defined hp,
      endsIn_of_append hup₂.paired hgen.procedures hgen.tables⟩

theorem definedTables (hrule : ProcedureRule env program Q P) {tables : List BoundTable} {u : Unit} (hup : g.Upholds P)
    (hscopes : scopes.Generated g) (hbound : TablesBound env limit scopes tables after)
    (hqueries : ∀ q ∈ tables.flatMap fun t => t.body.queries, Q q) (hlimit : limit ≤ program.cursorCount)
    (h : Generate.definedTables tables g = .ok u g') (hwithin : g'.Within program) : g'.Upholds P := by
  induction tables generalizing scopes g with
  | nil =>
    cases h
    exact hup
  | cons t rest ih =>
    obtain ⟨hbody, scopes₁, hinsert, hrest⟩ := hbound
    obtain ⟨n, g₁, hset, h⟩ := definedTables_cons_ok h
    obtain ⟨hqueriesHead, hqueriesRest⟩ := List.forall_mem_append.mp hqueries
    have hwithin₁ := ((grows_withDefined g₁ _).trans (definedTables_grows h)).within hwithin
    obtain ⟨hup₁, hends⟩ := hrule.set hup hscopes hbody hqueriesHead hlimit hset hwithin₁
    have hlast := hends.last
    exact ih (hup₁.define (Text.lower t.name) (by omega)) (generated_define hscopes hset hinsert) hrest hqueriesRest h

theorem statement (hrule : ProcedureRule env program Q P) {b : BoundStatement} (hup : g.Upholds P)
    (hbound : b.Bound env limit) (hqueries : ∀ q ∈ b.queries, Q q) (hlimit : limit ≤ program.cursorCount)
    (h : Generate.statement b g = .ok n g') (hwithin : g'.Within program) :
    g'.Upholds P ∧ g'.EndsIn n b.name b.name b.columns := by
  cases b with
  | query tables body =>
    obtain ⟨after, htables, hbody⟩ := hbound
    obtain ⟨hqueriesTables, hqueriesBody⟩ := List.forall_mem_append.mp hqueries
    replace h := eq_ok_of_bind h rfl
    obtain ⟨_, g₁, hdefined, h⟩ := bind_eq_ok.mp h
    have hnone : ScopeStack.Generated (ScopeStack.push [] .table) { g with defined := [] } := nofun
    have hwithin₁ := (set_declares h).1.within hwithin
    have hup₁ := hrule.definedTables hup.forget hnone htables hqueriesTables hlimit hdefined hwithin₁
    exact hrule.set hup₁ (definedTables_generated hnone htables hdefined) hbody hqueriesBody hlimit h hwithin
  | describe name source columns =>
    cases h
    exact ⟨hup.add rfl rfl rfl (hrule.description source columns
        (getElem?_of_isPrefix hwithin.tables List.getElem?_concat_length)),
      endsIn_of_append (p := ⟨name, _⟩) (d := ⟨name, describeColumns⟩) hup.paired rfl rfl⟩

theorem statements (hrule : ProcedureRule env program Q P) {bs : List BoundStatement} {result result' : Option Nat}
    (hup : g.Upholds P) (hbound : ∀ b ∈ bs, b.Bound env limit) (hqueries : ∀ q ∈ bs.flatMap BoundStatement.queries, Q q)
    (hlimit : limit ≤ program.cursorCount) (h : Generate.statements result bs g = .ok result' g')
    (hwithin : g'.Within program) : g'.Upholds P := by
  induction bs generalizing g result with
  | nil =>
    obtain ⟨-, rfl⟩ := pure_eq_ok.mp h
    exact hup
  | cons b bs ih =>
    obtain ⟨n, g₁, hb, h⟩ := statements_cons_ok h
    obtain ⟨hhead, htail⟩ := List.forall_mem_cons.mp hbound
    obtain ⟨hqueriesHead, hqueriesTail⟩ := List.forall_mem_append.mp hqueries
    have hwithin₁ := (statements_grows h).within hwithin
    exact ih (hrule.statement hup hhead hqueriesHead hlimit hb hwithin₁).1 htail hqueriesTail h

end ProcedureRule

/-! ### Programs -/

/-- The state from which a program is generated. -/
def GenerateState.start (cursorCount : Nat) : GenerateState := ⟨[], [], [], [], cursorCount, 0, []⟩

/-- The program of a state, with the number of its result. -/
def GenerateState.program (g : GenerateState) (result : Nat) (libraries : List String) : Program :=
  ⟨g.procedures, g.tables, g.sources, g.groupings, g.cursorCount, g.registerCount, result, libraries⟩

theorem GenerateState.within_program (g : GenerateState) (result : Nat) (libraries : List String) :
    g.Within (g.program result libraries) :=
  ⟨List.prefix_rfl, List.prefix_rfl, List.prefix_rfl, List.prefix_rfl, Nat.le_refl _, Nat.le_refl _⟩

section

variable {bs : List BoundStatement} {b : BoundStatement} {libraries : List String} {cursorCount : Nat} {p : Program}

theorem Generate.statements_concat_ok {result result' : Option Nat} {g g' : GenerateState}
    (h : statements result (bs ++ [b]) g = .ok result' g') :
    ∃ r g₁ n, statements result bs g = .ok r g₁ ∧ statement b g₁ = .ok n g' ∧ result' = some n := by
  induction bs generalizing result g with
  | nil =>
    obtain ⟨n, g₁, hb, h⟩ := statements_cons_ok h
    obtain ⟨rfl, rfl⟩ := pure_eq_ok.mp h
    exact ⟨result, g, n, rfl, hb, rfl⟩
  | cons b' bs ih =>
    obtain ⟨n', g₁, hb', h⟩ := statements_cons_ok h
    obtain ⟨r, g₂, n, hbs, hb, rfl⟩ := ih h
    exact ⟨r, g₂, n, bind_eq_ok.mpr ⟨n', g₁, hb', hbs⟩, hb, rfl⟩

theorem generate_concat_ok (h : generate ⟨bs ++ [b], libraries, cursorCount⟩ = .ok p) :
    ∃ r g₁ n g', Generate.statements none bs (.start cursorCount) = .ok r g₁ ∧ Generate.statement b g₁ = .ok n g' ∧
      p = g'.program n libraries := by
  unfold generate at h
  split at h
  · cases h
  · rename_i result g' hrun
    cases h
    obtain ⟨r, g₁, n, hbs, hb, hn⟩ := Generate.statements_concat_ok hrun
    cases hn
    exact ⟨r, g₁, _, g', hbs, hb, rfl⟩
  · cases h

end

/-- The rule holds of all procedures of a program, the last of which fills the table of the last statement. -/
theorem ProcedureRule.generate {env : Environment} {p : Program} {Q : BoundQuery → Prop} {P : Nat → Procedure → Prop}
    (hrule : ProcedureRule env p Q P) {b : BoundProgram} (h : TabularQuery.generate b = .ok p)
    (hbound : ∀ s ∈ b.statements, s.Bound env b.cursorCount) (hqueries : ∀ q ∈ b.queries, Q q) :
    ∃ (g : GenerateState) (n : Nat) (last : BoundStatement), p = g.program n b.libraries ∧ g.Upholds P ∧
      b.statements.getLast? = some last ∧ g.EndsIn n last.name last.name last.columns := by
  obtain ⟨statements, libraries, cursorCount⟩ := b
  rcases List.eq_nil_or_concat' statements with rfl | ⟨bs, last, rfl⟩
  · cases h
  · obtain ⟨r, g₁, n, g, hbs, hb, rfl⟩ := generate_concat_ok h
    have hgrows₁ := Generate.statements_grows hbs
    have hgrows := Generate.statement_grows hb
    have hwithin := g.within_program n libraries
    have hlimit : cursorCount ≤ g.cursorCount := (hgrows₁.trans hgrows).cursors
    obtain ⟨hfirst, hlast⟩ := List.forall_mem_append.mp hbound
    rw [BoundProgram.queries, List.flatMap_append] at hqueries
    obtain ⟨hqueriesFirst, hqueriesLast⟩ := List.forall_mem_append.mp hqueries
    rw [List.flatMap_singleton] at hqueriesLast
    -- The state at the start has nothing, so that every procedure is one that was added on the way.
    have hstart : (GenerateState.start cursorCount).Upholds P := ⟨rfl, nofun, nofun⟩
    have hup₁ := hrule.statements hstart hfirst hqueriesFirst hlimit hbs (hgrows.within hwithin)
    obtain ⟨hup, hends⟩ := hrule.statement hup₁ (hlast last (List.mem_singleton_self last)) hqueriesLast hlimit hb hwithin
    exact ⟨g, n, last, rfl, hup, List.getLast?_concat, hends⟩

end TabularQuery
