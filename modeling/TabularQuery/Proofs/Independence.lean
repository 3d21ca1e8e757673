import TabularQuery.Proofs.Outcomes
import TabularQuery.Proofs.Rewriting

/-!
Statements do not know of each other. After others, a statement is bound as it would be on its own, but for
names of queries and numbers of cursors, and its procedures come to the same rows or the same failure.
-/

namespace TabularQuery

/-! ### Statements under other numbers -/

/-- Only an origin itself stands for it. -/
def SameOrigin : OriginRelation := fun _ o o' => o' = o

/-- Tables of a WITH list that differ in names of queries and numbers of cursors. -/
structure BoundTable.Renumbered (ρ : Nat → Nat) (t t' : BoundTable) : Prop where
  name : t'.name = t.name
  body : t.body.Renumbered ρ SameOrigin t'.body

inductive BoundStatement.Renumbered (ρ : Nat → Nat) : BoundStatement → BoundStatement → Prop
  | query {tables tables' : List BoundTable} {body body' : BoundSet}
      (htables : List.Forall₂ (BoundTable.Renumbered ρ) tables tables') (hbody : body.Renumbered ρ SameOrigin body') :
      BoundStatement.Renumbered ρ (.query tables body) (.query tables' body')
  | describe (name name' source : String) (columns : List Column) :
      BoundStatement.Renumbered ρ (.describe name source columns) (.describe name' source columns)

section Rows

variable {ρ : Nat → Nat} {env : Environment} {limit : Nat} {context : SourceContext} {scopes after : ScopeStack}

theorem definedRows_renumbered (hρ : Function.Injective ρ) {xs xs' : List BoundTable}
    (h : List.Forall₂ (BoundTable.Renumbered ρ) xs xs') {tables : NamedRows} (hfits : tables.Fits scopes)
    (hkeyed : scopes.Keyed) (hbound : TablesBound env limit scopes xs after) :
    definedRows context tables xs' = definedRows context tables xs := by
  induction h generalizing scopes tables with
  | nil => rfl
  | @cons t t' xs xs' ht _ ih =>
    obtain ⟨hbody, scopes₁, hinsert, hrest⟩ := hbound
    have hrows : t'.body.rows context tables = t.body.rows context tables :=
      ht.body.rows hρ (fun _ _ _ h => by rw [h]) hbody hfits
    rw [definedRows, definedRows, ht.name, hrows]
    cases hvalue : t.body.rows context tables with
    | error e => rfl
    | ok rows => exact ih (hfits.define hkeyed hinsert (hbody.fits_rows hvalue)) (hkeyed.define hinsert) hrest

namespace BoundStatement.Renumbered

variable {b b' : BoundStatement}

theorem columns (h : b.Renumbered ρ b') : b'.columns = b.columns := by
  cases h with
  | query _ hbody => exact hbody.columns
  | describe => rfl

theorem rows (h : b.Renumbered ρ b') (hρ : Function.Injective ρ) (hbound : b.Bound env limit) :
    b'.rows context = b.rows context := by
  cases h with
  | describe => rfl
  | query htables hbody =>
    obtain ⟨after, htablesBound, hbodyBound⟩ := hbound
    have hfits : NamedRows.Fits [] (ScopeStack.push [] .table) := nofun
    have hkeyed : ScopeStack.Keyed (ScopeStack.push [] .table) := nofun
    rw [BoundStatement.rows, BoundStatement.rows, definedRows_renumbered hρ htables hfits hkeyed htablesBound]
    cases hdefined : definedRows context [] _ with
    | error e => rfl
    | ok defined =>
      exact hbody.rows hρ (fun _ _ _ h => by rw [h]) hbodyBound (definedRows_fits hfits hkeyed htablesBound hdefined)

end BoundStatement.Renumbered

end Rows

/-! ### Binding after other statements -/

theorem Rewriting.serves_keep (env : Environment) (d : String → Option DefinedTable) :
    Rewriting.keep.Serves SameOrigin env env d d where
  schemas _ _ h := h
  origins _ _ _ _ _ := rfl
  named name aliasName t ht := by
    refine ⟨.table t.name, none, fun _ _ _ => rfl, rfl, fun s hs => ⟨s.libraries, ?_⟩⟩
    refine bind_eq_ok.mpr ⟨s, s, rfl, ?_⟩
    rw [hs, ht]
    rfl

namespace Bind

variable {env : Environment} {s s' s₁' : BindState} {k : Nat}

theorem setExpr_again {x : SetExpr} {b' : BoundSet} (hscopes : s'.scopes = s.scopes) (hcursors : s'.cursors = s.cursors + k)
    (haliases : s'.aliases = s.aliases) (h : setExpr env x s' = .ok b' s₁') :
    ∃ b s₁, setExpr env x s = .ok b s₁ ∧ b.Renumbered (· + k) SameOrigin b' ∧ s₁'.scopes = s₁.scopes ∧
      s₁'.cursors = s₁.cursors + k ∧ s₁'.aliases = s₁.aliases := by
  have hs : s.Aligned .keep k s.scopes.definedTable? s.scopes.definedTable? s' :=
    ⟨hcursors, fun _ => haliases, rfl, by rw [hscopes]⟩
  obtain ⟨b, s₁, hb, hrenumbered, hs₁, -⟩ := setExpr_follows (Rewriting.serves_keep env _) hs h
  rw [SetExpr.rewrite_keep] at hb
  refine ⟨b, s₁, hb, hrenumbered, ?_, hs₁.cursors, hs₁.aliases rfl⟩
  rw [(setExpr_ok h).2.1, (setExpr_ok hb).2.1, hscopes]

theorem namedTables_again {xs : List NamedTable} {tables' : List BoundTable} (hscopes : s'.scopes = s.scopes)
    (hcursors : s'.cursors = s.cursors + k) (haliases : s'.aliases = s.aliases)
    (h : namedTables env xs s' = .ok tables' s₁') :
    ∃ tables s₁, namedTables env xs s = .ok tables s₁ ∧ List.Forall₂ (BoundTable.Renumbered (· + k)) tables tables' ∧
      s₁'.scopes = s₁.scopes ∧ s₁'.cursors = s₁.cursors + k ∧ s₁'.aliases = s₁.aliases := by
  induction xs generalizing s s' tables' with
  | nil =>
    obtain ⟨rfl, rfl⟩ := pure_eq_ok.mp h
    exact ⟨[], s, rfl, .nil, hscopes, hcursors, haliases⟩
  | cons x xs ih =>
    obtain ⟨body', s₂', scopes, rest', hbody', hinsert, hrest', rfl⟩ := namedTables_cons_eq_ok_iff.mp h
    obtain ⟨body, s₂, hbody, hrenumbered, hscopes₂, hcursors₂, haliases₂⟩ := setExpr_again hscopes hcursors haliases hbody'
    rw [hscopes₂, hrenumbered.columns] at hinsert
    have hsame : ({ s₂' with scopes } : BindState).scopes = ({ s₂ with scopes } : BindState).scopes := rfl
    obtain ⟨rest, s₄, hrest, hall, hafter⟩ := ih hsame hcursors₂ haliases₂ hrest'
    exact ⟨_, s₄, namedTables_cons_eq_ok_iff.mpr ⟨body, s₂, scopes, rest, hbody, hinsert, hrest, rfl⟩,
      .cons ⟨rfl, hrenumbered⟩ hall, hafter⟩

/-- A statement after others is bound as it is on its own, but for the numbers. -/
theorem statement_again {x : Statement} {b' : BoundStatement} (hscopes : s'.scopes = [])
    (h : statement env x s' = .ok b' s₁') :
    ∃ b s₁, statement env x .init = .ok b s₁ ∧ b.Renumbered (· + s'.cursors) b' := by
  cases x with
  | query xs x =>
    obtain ⟨tables', s₂', body', s₃', htables', hbody', rfl, rfl⟩ := statement_query_eq_ok_iff.mp h
    have hsame : ({ s' with setKeys := 0, aliases := 0, scopes := s'.scopes.push .table } : BindState).scopes =
        ({ BindState.init with setKeys := 0, aliases := 0, scopes := BindState.init.scopes.push .table } : BindState).scopes :=
      congrArg (ScopeStack.push · .table) hscopes
    obtain ⟨tables, s₂, htables, hall, hscopes₂, hcursors₂, haliases₂⟩ :=
      namedTables_again hsame (Nat.zero_add _).symm rfl htables'
    obtain ⟨body, s₃, hbody, hrenumbered, -⟩ := setExpr_again hscopes₂ hcursors₂ haliases₂ hbody'
    exact ⟨_, _, statement_query_eq_ok_iff.mpr ⟨tables, s₂, body, s₃, htables, hbody, rfl, rfl⟩, .query hall hrenumbered⟩
  | describe c =>
    obtain ⟨schema, columns, htable, rfl, rfl⟩ := statement_describe_eq_ok_iff.mp h
    exact ⟨_, _, statement_describe_eq_ok_iff.mpr ⟨schema, columns, htable, rfl, rfl⟩, .describe ..⟩

theorem statements_concat_ok {xs : List Statement} {x : Statement} {bs : List BoundStatement} (hscopes : s.scopes = [])
    (h : statements env (xs ++ [x]) s = .ok bs s') :
    ∃ before s₁ b, s₁.scopes = [] ∧ statement env x s₁ = .ok b s' ∧ bs = before ++ [b] := by
  induction xs generalizing s bs with
  | nil =>
    obtain ⟨b, s₁, hb, h⟩ := bind_eq_ok.mp h
    cases h
    exact ⟨[], s, b, hscopes, hb, rfl⟩
  | cons y xs ih =>
    obtain ⟨b, s₁, hb, h⟩ := bind_eq_ok.mp h
    obtain ⟨rest, hrest, rfl⟩ := bind_pure_eq_ok.mp h
    obtain ⟨before, s₃, last, hscopes₃, hlast, rfl⟩ := ih (statement_ok hscopes hb).2.1 hrest
    exact ⟨b :: before, s₃, last, hscopes₃, hlast, rfl⟩

end Bind

/-! ### Runs -/

/-- If the procedures of all statements but the last come to an end, the program comes to the same columns and
rows, or to the same failure, as the last statement on its own. -/
theorem last_statement_alone {env : Environment} {context : SourceContext} {xs : List Statement} {x : Statement}
    {b : BoundProgram} {p : Program} (henv : env.Quiet context) (hbind : bind env (xs ++ [x]) = .ok b)
    (hgen : generate b = .ok p) {fuel : Nat} {m : Machine}
    (hrun : Machine.runProcedures ⟨p, context, 0⟩ fuel
      (p.procedures.take (b.statements.dropLast.map BoundStatement.procedureCount).sum) (.init p false) = .ok true m) :
    ∃ r, p.Yields context r ∧ env.Yields context [x] r := by
  have hbound := bind_ok hbind
  unfold bind at hbind
  split at hbind
  · rename_i bs s hstatements
    cases hbind
    obtain ⟨before, s₁, last, hscopes, hlast, rfl⟩ := Bind.statements_concat_ok rfl hstatements
    rw [List.dropLast_concat] at hrun
    -- What the last statement is bound to on its own.
    obtain ⟨alone, s₀, halone, hrenumbered⟩ := Bind.statement_again hscopes hlast
    have haloneBound : alone.Bound env s₀.cursors := (Bind.statement_ok rfl halone).1
    refine ⟨_, ?_, (Environment.yields_statement_iff henv).mpr ⟨alone, s₀, halone, rfl⟩⟩
    -- The statements before it mean something, since their procedures come to an end.
    obtain ⟨procedures, rest, hsplit, hlength, hexecutes, -⟩ := executes_generate henv hbound hgen
    rw [hsplit, ← hlength, List.take_left] at hrun
    obtain ⟨results, hresults, -⟩ := hexecutes.of_ok hrun
    have hyields := yields_generate henv hbound hgen
    have hinjective : Function.Injective (· + s₁.cursors) := fun _ _ h => Nat.add_right_cancel h
    rw [hresults, hrenumbered.columns, hrenumbered.rows hinjective haloneBound] at hyields
    exact hyields
  · cases hbind

/-- Both statements define a table `c`, join it with a source without an alias, and sum up. -/
theorem last_statement_alone_redefined :
    let schema : MemorySchema := ⟨"m", [("t", ⟨[⟨"n", .integer⟩], [[.integer 1], [.integer 2], [.integer 3]]⟩)], .standard⟩
    let env : Environment := ⟨⟨[("m", schema.toSchema)]⟩, .empty⟩
    let context : SourceContext := ⟨.empty, 1⟩
    let source : FromSource := .schema ⟨"m", "t", []⟩ none
    let statement (least : Int64) : Statement :=
      .query [⟨"c", .query ⟨[.field (.column none "n") (some "k")], source,
          some (.binary .gt (.column none "n") (.literal (.integer least))), none, none, none⟩⟩]
        (.query ⟨[.field (.call none "Sum" [.column none "k"]) (some "s")],
          .join source (.named "C" none) (.binary .le (.column (some "t1") "n") (.column (some "c") "k")), none, none, none, none⟩)
    ∃ b p fuel m r, bind env ([statement 1] ++ [statement 2]) = .ok b ∧ generate b = .ok p ∧
      Machine.runProcedures ⟨p, context, 0⟩ fuel
        (p.procedures.take (b.statements.dropLast.map BoundStatement.procedureCount).sum) (.init p false) = .ok true m ∧
      p.Yields context r ∧ env.Yields context [statement 2] r := by
  intro schema env context source statement
  have hvalue : ((bind env ([statement 1] ++ [statement 2])).toOption >>= fun b => (generate b).toOption >>= fun p =>
      (Machine.runProcedures ⟨p, context, 0⟩ 1000
        (p.procedures.take (b.statements.dropLast.map BoundStatement.procedureCount).sum)).run' (.init p false)) =
      some true := by decide +kernel
  obtain ⟨b, hbind, hvalue⟩ := Option.bind_eq_some_iff.mp hvalue
  obtain ⟨p, hgen, hvalue⟩ := Option.bind_eq_some_iff.mp hvalue
  replace hbind := toOption_eq_some_iff.mp hbind
  replace hgen := toOption_eq_some_iff.mp hgen
  obtain ⟨m, hrun⟩ := run'_eq_some_iff.mp hvalue
  obtain ⟨r, hwhole, hlast⟩ := last_statement_alone (Environment.quiet_of_memory _ schema _ context) hbind hgen hrun
  exact ⟨b, p, 1000, m, r, hbind, hgen, hrun, hwhole, hlast⟩

end TabularQuery
