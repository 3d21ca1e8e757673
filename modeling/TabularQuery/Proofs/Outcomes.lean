import Mathlib
import TabularQuery.Proofs.StatementRun

/-!
Outcomes of programs. Bound statements always become a program, and a run of it without a limit comes to
the columns and rows of the last statement, or to the first failure on the way.
-/

namespace TabularQuery

/-! ### Generation does not fail -/

namespace Generate

/-- The step succeeds from `g`, in a state with the property `P`. -/
def Succeeds (x : Generate α) (g : GenerateState) (P : GenerateState → Prop) : Prop := ∃ a g', x g = .ok a g' ∧ P g'

theorem Succeeds.bind {α β : Type} {x : Generate α} {f : α → Generate β} {g : GenerateState} {P Q : GenerateState → Prop}
    (h : Succeeds x g P) (hf : ∀ a g₁, P g₁ → Succeeds (f a) g₁ Q) : Succeeds (x >>= f) g Q := by
  obtain ⟨a, g₁, hx, hg₁⟩ := h
  obtain ⟨b, g₂, hfa, hg₂⟩ := hf a g₁ hg₁
  exact ⟨b, g₂, bind_eq_ok.mpr ⟨a, g₁, hx, hfa⟩, hg₂⟩

variable {env : Environment} {scopes after : ScopeStack} {limit : Nat} {g : GenerateState}

theorem succeeds_register (hscopes : scopes.Generated g) (count : Option Int64) :
    Succeeds (register count) g scopes.Generated := by
  cases count <;> exact ⟨_, _, rfl, hscopes⟩

theorem succeeds_groupingNumber (hscopes : scopes.Generated g) (q : BoundQuery) :
    Succeeds (groupingNumber q) g scopes.Generated := by
  unfold groupingNumber
  cases q.grouping <;> exact ⟨_, _, rfl, hscopes⟩

theorem succeeds_opening (hscopes : scopes.Generated g) {b : BoundSource} (hknown : b.Known env scopes) :
    Succeeds (opening b) g scopes.Generated := by
  unfold opening
  unfold BoundSource.Known at hknown
  cases horigin : b.origin with
  | schema => exact ⟨_, _, rfl, hscopes⟩
  | table name =>
    rw [horigin] at hknown
    obtain ⟨key, t, ht, rfl, -⟩ := hknown
    obtain ⟨-, n, -, hn, -⟩ := hscopes key t ht
    have hfound : Succeeds (definedTable t.name) g scopes.Generated := ⟨n, g, by simp [definedTable, hn], hscopes⟩
    exact hfound.bind fun _ _ h => ⟨_, _, rfl, h⟩

theorem succeeds_openings (hscopes : scopes.Generated g) {bs : List BoundSource}
    (hknown : ∀ b ∈ bs, b.Known env scopes) : Succeeds (openings bs) g scopes.Generated := by
  induction bs generalizing g with
  | nil => exact ⟨_, _, rfl, hscopes⟩
  | cons b bs ih =>
    obtain ⟨hhead, htail⟩ := List.forall_mem_cons.mp hknown
    exact (succeeds_opening hscopes hhead).bind fun _ _ h => (ih h htail).bind fun _ _ h => ⟨_, _, rfl, h⟩

theorem succeeds_query (hscopes : scopes.Generated g) {q : BoundQuery} {first : Nat} {entries : SourceList}
    (hbound : QueryBound env scopes first q entries) (name : Option String) :
    Succeeds (query q name) g scopes.Generated := by
  have hsources : q.sources.isEmpty = false := by simpa using hbound.sources.nonempty
  have hknown : ∀ b ∈ q.sources, b.Known env scopes := hbound.sources.known
  have hdeclare : Succeeds (declareTable (name.getD q.name) (q.fields.map BoundField.column)) g scopes.Generated :=
    ⟨_, _, rfl, hscopes.mono (List.prefix_append _ _) rfl⟩
  refine hdeclare.bind fun table g₁ h₁ => ?_
  simp only [hsources, Bool.false_eq_true, if_false]
  refine (succeeds_register h₁ q.skip).bind fun skip g₃ h₃ => ?_
  refine (succeeds_register h₃ q.take).bind fun take g₄ h₄ => ?_
  refine (succeeds_groupingNumber h₄ q).bind fun group g₅ h₅ => ?_
  refine (succeeds_openings h₅ hknown).bind fun opens g₆ h₆ => ?_
  exact ⟨_, _, rfl, h₆⟩

theorem succeeds_set (hscopes : scopes.Generated g) {s : BoundSet} (hbound : s.Bound env scopes limit)
    (name : Option String) : Succeeds (set s name) g scopes.Generated := by
  induction s generalizing g name with
  | query q =>
    obtain ⟨first, entries, hquery, -⟩ := hbound
    exact succeeds_query hscopes hquery name
  | operation op ownName keyId keys left right ihl ihr =>
    refine (ihl hscopes hbound.1 none).bind fun leftTable g₁ h₁ => ?_
    refine (ihr h₁ hbound.2.1 none).bind fun rightTable g₂ h₂ => ?_
    have hdeclare : Succeeds (declareTable (name.getD ownName) (BoundSet.operation op ownName keyId keys left right).columns)
        g₂ scopes.Generated := ⟨_, _, rfl, h₂.mono (List.prefix_append _ _) rfl⟩
    refine hdeclare.bind fun table g₃ h₃ => ?_
    cases op.copiesRight <;> exact ⟨_, _, rfl, h₃⟩

theorem succeeds_definedTables (hscopes : scopes.Generated g) {xs : List BoundTable}
    (hbound : TablesBound env limit scopes xs after) : Succeeds (definedTables xs) g after.Generated := by
  induction xs generalizing scopes g with
  | nil =>
    obtain rfl : scopes = after := hbound
    exact ⟨_, _, rfl, hscopes⟩
  | cons t rest ih =>
    obtain ⟨hbody, scopes₁, hinsert, hrest⟩ := hbound
    obtain ⟨n, g₁, hset, -⟩ := succeeds_set hscopes hbody (some t.name)
    obtain ⟨u, g', hdefined, hafter⟩ := ih (generated_define hscopes hset hinsert) hrest
    exact ⟨u, g', bind_eq_ok.mpr ⟨n, g₁, hset, bind_eq_ok.mpr ⟨_, _, rfl, hdefined⟩⟩, hafter⟩

theorem succeeds_statement {b : BoundStatement} (hbound : b.Bound env limit) (g : GenerateState) :
    Succeeds (statement b) g fun _ => True := by
  cases b with
  | query xs body =>
    obtain ⟨after, htables, hbody⟩ := hbound
    have hnone : ScopeStack.Generated (ScopeStack.push [] .table) { g with defined := [] } := nofun
    refine Succeeds.bind (x := forgetDefined) ⟨_, _, rfl, hnone⟩ fun _ g₁ h₁ => ?_
    refine (succeeds_definedTables h₁ htables).bind fun _ g₂ h₂ => ?_
    obtain ⟨n, g₃, hset, -⟩ := succeeds_set h₂ hbody none
    exact ⟨n, g₃, hset, trivial⟩
  | describe => exact ⟨_, _, rfl, trivial⟩

theorem succeeds_statements {bs : List BoundStatement} (hbound : ∀ b ∈ bs, b.Bound env limit) (result : Option Nat)
    (g : GenerateState) : Succeeds (statements result bs) g fun _ => True := by
  induction bs generalizing g result with
  | nil => exact ⟨_, _, rfl, trivial⟩
  | cons b bs ih =>
    obtain ⟨hhead, htail⟩ := List.forall_mem_cons.mp hbound
    exact (succeeds_statement hhead g).bind fun n g₁ _ => ih htail (some n) g₁

end Generate

/-! ### Numbers of procedures -/

/-- Every query and every operation of a set has a procedure. -/
def BoundSet.procedureCount : BoundSet → Nat
  | .query _ => 1
  | .operation _ _ _ _ left right => left.procedureCount + right.procedureCount + 1

def BoundStatement.procedureCount : BoundStatement → Nat
  | .query tables body => (tables.map fun t => t.body.procedureCount).sum + body.procedureCount
  | .describe .. => 1

theorem BoundSet.length_names (s : BoundSet) : s.names.length = s.procedureCount := by
  induction s with
  | query q => rfl
  | operation op name keyId keys left right ihl ihr => simp [names, procedureCount, ihl, ihr, Nat.add_assoc]

theorem BoundStatement.length_names (b : BoundStatement) : b.names.length = b.procedureCount := by
  cases b <;> simp [names, procedureCount, BoundSet.length_names, List.length_flatMap]

theorem Generate.length_added_statements {g g' : GenerateState} {bs : List BoundStatement} {result result' : Option Nat}
    (h : statements result bs g = .ok result' g') :
    (g.added g').length = (bs.map BoundStatement.procedureCount).sum := by
  have hnames := congrArg List.length (statements_names h)
  simp only [GenerateState.names, List.length_map, List.length_append, List.length_flatMap,
    BoundStatement.length_names] at hnames
  rw [GenerateState.added, List.length_drop, hnames, Nat.add_sub_cancel_left]

/-! ### Programs -/

section Programs

variable {env : Environment} {context : SourceContext} {bs : List BoundStatement} {b : BoundStatement}
variable {libraries : List String} {cursorCount : Nat} {p : Program}

theorem exists_generate (hbound : ∀ s ∈ bs ++ [b], s.Bound env cursorCount) :
    ∃ p, generate ⟨bs ++ [b], libraries, cursorCount⟩ = .ok p := by
  obtain ⟨result, g, hrun, -⟩ := Generate.succeeds_statements hbound none (.start cursorCount)
  obtain ⟨r, g₁, n, -, -, rfl⟩ := Generate.statements_concat_ok hrun
  refine ⟨g.program n libraries, ?_⟩
  unfold generate
  rw [EStateM.run]
  simp only [GenerateState.start] at hrun
  rw [hrun]
  rfl

/-- The procedures of the first statements, and then those of the last, come to what they mean. -/
theorem executes_generate (henv : env.Quiet context) (hbound : ∀ s ∈ bs ++ [b], s.Bound env cursorCount)
    (h : generate ⟨bs ++ [b], libraries, cursorCount⟩ = .ok p) :
    ∃ before after, p.procedures = before ++ after ∧ before.length = (bs.map BoundStatement.procedureCount).sum ∧
      Machine.Executes ⟨p, context, 0⟩ before (.init p false) (bs.mapM (BoundStatement.rows context))
        (fun _ m => m.Ready p) ∧
      ∀ m : Machine, m.Ready p → Machine.Executes ⟨p, context, 0⟩ after m (b.rows context) fun rows m₁ =>
        m₁.Holds p.result b.columns rows := by
  obtain ⟨r, g₁, n, g', hbs, hb, rfl⟩ := generate_concat_ok h
  have hgrows := Generate.statements_grows hbs
  have hgrows' := Generate.statement_grows hb
  have hwithin := g'.within_program n libraries
  have hlimit : RunContext.limit ⟨g'.program n libraries, context, 0⟩ = 0 := rfl
  have hfirst : ∀ s ∈ bs, s.Bound env cursorCount := fun s hs => hbound s (List.mem_append_left _ hs)
  have hlast : b.Bound env cursorCount := hbound b (List.mem_append_right _ (List.mem_singleton_self b))
  refine ⟨_, _, GenerateState.added_trans hgrows hgrows', Generate.length_added_statements hbs, ?_, fun m hready => ?_⟩
  · exact Generate.statements_executes henv hlimit (Nat.le_refl _) hfirst hbs (hgrows'.within hwithin)
      (Machine.ready_init _)
  · exact (Generate.statement_executes henv hlimit hgrows.cursors hlast hb hwithin hready).mono
      fun rows m₁ hadded => hadded.holds

/-! ### Results -/

/-- With enough fuel, the run of the program without a limit comes to a table with these columns and rows, or
to this failure. -/
def Program.Yields (p : Program) (context : SourceContext) (r : Except Error (List Column × List (List Value))) : Prop :=
  ∃ enough, ∀ fuel, enough ≤ fuel → ∃ result : RunResult, p.run context 0 false fuel = some result ∧
    (fun t : Table => (t.columns, t.rows.toList)) <$> result.result = r

/-- The statements are bound and generated, and their program comes to this. -/
def Environment.Yields (env : Environment) (context : SourceContext) (xs : List Statement)
    (r : Except Error (List Column × List (List Value))) : Prop :=
  ∃ b p, bind env xs = .ok b ∧ generate b = .ok p ∧ p.Yields context r

theorem Machine.Executes.yields {columns : List Column} {r : Except Error (List (List Value))}
    (h : Machine.Executes ⟨p, context, 0⟩ p.procedures (.init p false) r fun rows m => m.Holds p.result columns rows) :
    p.Yields context ((columns, ·) <$> r) := by
  cases r with
  | ok rows =>
    obtain ⟨m, ⟨t, ht, hfits, rfl⟩, enough, hrun⟩ := h
    refine ⟨enough, fun fuel hfuel => ⟨⟨.ok t, m.cancelled⟩, ?_, ?_⟩⟩
    · simp only [Program.run, hrun fuel hfuel, Machine.resultTable, bind_apply, get_apply, ht, Option.join_some, pure_apply]
    · rw [← hfits.columns]
      rfl
  | error e =>
    obtain ⟨m, enough, hrun⟩ := h
    refine ⟨enough, fun fuel hfuel => ⟨⟨.error e, m.cancelled⟩, ?_, rfl⟩⟩
    simp only [Program.run, hrun fuel hfuel]

/-- A program comes to what its last statement means, if those before it do not fail. -/
theorem yields_generate (henv : env.Quiet context) (hbound : ∀ s ∈ bs ++ [b], s.Bound env cursorCount)
    (h : generate ⟨bs ++ [b], libraries, cursorCount⟩ = .ok p) :
    p.Yields context (bs.mapM (BoundStatement.rows context) >>= fun _ => (b.columns, ·) <$> b.rows context) := by
  obtain ⟨before, after, hprocedures, -, hbefore, hafter⟩ := executes_generate henv hbound h
  have hexecutes := hbefore.bind fun _ m _ hready => hafter m hready
  rw [← hprocedures] at hexecutes
  have hyields := hexecutes.yields
  rwa [map_bind] at hyields

theorem yields_single (henv : env.Quiet context) (hbound : b.Bound env cursorCount)
    (h : generate ⟨[b], libraries, cursorCount⟩ = .ok p) : p.Yields context ((b.columns, ·) <$> b.rows context) := by
  have hall : ∀ s ∈ ([] : List BoundStatement) ++ [b], s.Bound env cursorCount := by simpa using hbound
  exact yields_generate henv hall h

theorem Program.Yields.unique {r r' : Except Error (List Column × List (List Value))} (h : p.Yields context r)
    (h' : p.Yields context r') : r = r' := by
  obtain ⟨enough, hrun⟩ := h
  obtain ⟨enough', hrun'⟩ := h'
  obtain ⟨result, hresult, rfl⟩ := hrun (max enough enough') (Nat.le_max_left ..)
  obtain ⟨result', hresult', rfl⟩ := hrun' (max enough enough') (Nat.le_max_right ..)
  cases hresult.symm.trans hresult'
  rfl

theorem bind_single_eq_ok_iff {x : Statement} {bound : BoundProgram} :
    bind env [x] = .ok bound ↔ ∃ b s, Bind.statement env x .init = .ok b s ∧ bound = ⟨[b], s.libraries, s.cursors⟩ := by
  constructor
  · intro h
    unfold bind at h
    split at h
    · rename_i bs s hstatements
      cases h
      obtain ⟨b, s₁, hb, hrest⟩ := bind_eq_ok.mp hstatements
      cases hrest
      exact ⟨b, s, hb, rfl⟩
    · cases h
  · rintro ⟨b, s, hb, rfl⟩
    have hstatements : Bind.statements env [x] .init = .ok [b] s := bind_eq_ok.mpr ⟨b, s, hb, rfl⟩
    unfold bind
    rw [EStateM.run, hstatements]

/-- What a statement on its own comes to is what it is bound to means. -/
theorem Environment.yields_statement_iff {x : Statement} {r : Except Error (List Column × List (List Value))}
    (henv : env.Quiet context) :
    env.Yields context [x] r ↔ ∃ b s, Bind.statement env x .init = .ok b s ∧ r = (b.columns, ·) <$> b.rows context := by
  constructor
  · rintro ⟨bound, p, hbind, hgen, hyields⟩
    obtain ⟨b, s, hb, rfl⟩ := bind_single_eq_ok_iff.mp hbind
    exact ⟨b, s, hb, hyields.unique (yields_single henv (Bind.statement_ok rfl hb).1 hgen)⟩
  · rintro ⟨b, s, hb, rfl⟩
    have hbound : b.Bound env s.cursors := (Bind.statement_ok rfl hb).1
    have hall : ∀ b' ∈ ([] : List BoundStatement) ++ [b], b'.Bound env s.cursors := by simpa using hbound
    obtain ⟨p, hgen⟩ : ∃ p, generate ⟨[b], s.libraries, s.cursors⟩ = .ok p := exists_generate hall
    exact ⟨_, p, bind_single_eq_ok_iff.mpr ⟨b, s, hb, rfl⟩, hgen, yields_single henv hbound hgen⟩

/-- The columns and rows of a statement on its own, without a machine. -/
def Environment.evaluate (env : Environment) (context : SourceContext) (x : Statement) :
    Except Error (List Column × List (List Value)) :=
  match Bind.statement env x .init with
  | .ok b _ => (b.columns, ·) <$> b.rows context
  | .error e _ => .error e

theorem Environment.yields_ok_iff {x : Statement} {result : List Column × List (List Value)} (henv : env.Quiet context) :
    env.Yields context [x] (.ok result) ↔ (env.evaluate context x).toOption = some result := by
  rw [yields_statement_iff henv, evaluate]
  cases Bind.statement env x .init with
  | error e s => exact ⟨nofun, nofun⟩
  | ok b s =>
    dsimp only
    constructor
    · rintro ⟨_, _, hb, hresult⟩
      cases hb
      rw [← hresult]
      rfl
    · intro h
      refine ⟨b, s, rfl, ?_⟩
      cases hrows : b.rows context with
      | error e =>
        rw [hrows] at h
        cases h
      | ok rows =>
        rw [hrows] at h
        cases h
        rfl

end Programs

end TabularQuery
