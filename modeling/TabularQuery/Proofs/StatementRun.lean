import TabularQuery.Proofs.Meaning
import TabularQuery.Proofs.Selection

/-!
Statements from generation to their tables. The procedures of a set or a statement, run one after the
other without a limit, come to its meaning: a table with its columns and rows, or the same failure.
Whatever functions return, this holds as long as no source raises the stop flag.
-/

namespace TabularQuery

/-! ### Procedures one after the other -/

namespace Machine

/-- With enough fuel, running the procedures comes to this. -/
def ComesTo (ctx : RunContext) (ps : List Procedure) (m : Machine) (result : EStateM.Result Error Machine Bool) : Prop :=
  ∃ enough, ∀ fuel, enough ≤ fuel → runProcedures ctx fuel ps m = result

/-- The procedures come to the end in a state as `Q` says if `r` is a value, and fail like `r` otherwise. -/
def Executes (ctx : RunContext) (ps : List Procedure) (m : Machine) (r : Except Error α)
    (Q : α → Machine → Prop) : Prop :=
  match r with
  | .ok x => ∃ m₁, Q x m₁ ∧ ComesTo ctx ps m (.ok true m₁)
  | .error e => ∃ m₁, ComesTo ctx ps m (.error e m₁)

section Procedures

variable {ctx : RunContext} {p : Procedure} {ps qs : List Procedure} {m m₁ : Machine} {fuel : Nat}

theorem runProcedures_append (fuel : Nat) (ps qs : List Procedure) (m : Machine) :
    runProcedures ctx fuel (ps ++ qs) m =
      match runProcedures ctx fuel ps m with
      | .ok true m₁ => runProcedures ctx fuel qs m₁
      | r => r := by
  induction ps generalizing m with
  | nil => rfl
  | cons p ps ih =>
    simp only [List.cons_append, runProcedures, bind_apply]
    cases runProcedure ctx fuel p m with
    | error e m₁ => rfl
    | ok through m₁ =>
      cases through with
      | false => rfl
      | true => exact ih m₁

theorem runCode_add {r : EStateM.Result Error Machine Bool} (h : runCode ctx p fuel m = r)
    (hend : ∀ m₁, r ≠ .ok false m₁) (more : Nat) : runCode ctx p (fuel + more) m = r := by
  induction fuel generalizing m with
  | zero => exact absurd h.symm (hend m)
  | succ fuel ih =>
    rw [Nat.add_right_comm]
    rw [runCode, bind_apply] at h ⊢
    cases hstep : step ctx p m with
    | error e m₂ =>
      rw [hstep] at h
      exact h
    | ok flow m₂ =>
      rw [hstep] at h
      cases flow with
      | halt => exact h
      | next => exact ih h
      | jump => exact ih h

theorem runProcedures_add (h : runProcedures ctx fuel ps m = .ok true m₁) (more : Nat) :
    runProcedures ctx (fuel + more) ps m = .ok true m₁ := by
  induction ps generalizing m with
  | nil => exact h
  | cons p ps ih =>
    obtain ⟨through, m₂, hp, hrest⟩ := bind_eq_ok.mp h
    cases through with
    | false => cases hrest
    | true =>
      obtain ⟨_, m₃, hcheck, hp⟩ := bind_eq_ok.mp hp
      obtain ⟨_, m₄, hstart, hp⟩ := bind_eq_ok.mp hp
      refine bind_eq_ok.mpr ⟨true, m₂, ?_, ih hrest⟩
      exact bind_eq_ok.mpr ⟨_, m₃, hcheck, bind_eq_ok.mpr ⟨_, m₄, hstart, runCode_add hp nofun more⟩⟩

variable {result : EStateM.Result Error Machine Bool}

theorem ComesTo.append (h : ComesTo ctx ps m (.ok true m₁))
    (h' : ComesTo ctx qs m₁ result) : ComesTo ctx (ps ++ qs) m result := by
  obtain ⟨enough, hrun⟩ := h
  obtain ⟨enough', hrun'⟩ := h'
  refine ⟨max enough enough', fun fuel hfuel => ?_⟩
  rw [runProcedures_append, hrun fuel (by omega)]
  exact hrun' fuel (by omega)

theorem ComesTo.append_error {e : Error} (h : ComesTo ctx ps m (.error e m₁)) (qs : List Procedure) :
    ComesTo ctx (ps ++ qs) m (.error e m₁) := by
  obtain ⟨enough, hrun⟩ := h
  refine ⟨enough, fun fuel hfuel => ?_⟩
  rw [runProcedures_append, hrun fuel hfuel]

theorem ComesTo.single {k : Nat} (hrunning : m.cancelled = false)
    (hend : ∀ m₁, result ≠ .ok false m₁)
    (h : ∀ more, runCode ctx p (k + more) { m with address := some 0 } = result) : ComesTo ctx [p] m result := by
  refine ⟨k, fun fuel hfuel => ?_⟩
  obtain ⟨more, rfl⟩ := Nat.exists_eq_add_of_le hfuel
  simp only [runProcedures, bind_apply, runProcedure_apply hrunning, h more]
  cases result with
  | error e m₁ => rfl
  | ok through m₁ =>
    cases through with
    | false => exact absurd rfl (hend m₁)
    | true => rfl

end Procedures

namespace Executes

variable {α β : Type} {ctx : RunContext} {p : Procedure} {ps qs : List Procedure} {m : Machine}
variable {r : Except Error α} {r' : Except Error β} {Q : α → Machine → Prop} {Q' : β → Machine → Prop}

theorem nil {x : α} (h : Q x m) : Executes ctx [] m (.ok x) Q := ⟨m, h, 0, fun _ _ => rfl⟩

theorem single {P : Machine → Prop} (h : Finishes ctx p P { m with address := some 0 } r Q)
    (hrunning : m.cancelled = false) : Executes ctx [p] m r Q := by
  cases r with
  | ok x =>
    obtain ⟨m₁, hpath, final, -, hhalt, hfinal⟩ := h
    obtain ⟨k, hk⟩ := hpath.reaches
    refine ⟨final, hfinal, .single (k := k + 1) hrunning ?_ fun more => ?_⟩
    · rintro _ ⟨⟩
    rw [Nat.add_assoc, Nat.add_comm 1 more, hk, runCode, bind_apply, hhalt]
    rfl
  | error e =>
    obtain ⟨m₁, m₂, hpath, -, hstep⟩ := h
    obtain ⟨k, final, hstops⟩ := hpath.reaches.stops hstep
    refine ⟨final, .single hrunning ?_ hstops⟩
    rintro _ ⟨⟩

theorem bind {f : α → Except Error β} (h : Executes ctx ps m r Q)
    (hf : ∀ x m₁, r = .ok x → Q x m₁ → Executes ctx qs m₁ (f x) Q') : Executes ctx (ps ++ qs) m (r >>= f) Q' := by
  cases r with
  | error e =>
    obtain ⟨m₁, hrun⟩ := h
    exact ⟨m₁, hrun.append_error qs⟩
  | ok x =>
    obtain ⟨m₁, hm₁, hrun⟩ := h
    have hnext := hf x m₁ rfl hm₁
    have hbind : (.ok x >>= f) = f x := rfl
    rw [hbind]
    cases hfx : f x with
    | ok y =>
      rw [hfx] at hnext
      obtain ⟨m₂, hm₂, hrun₂⟩ := hnext
      exact ⟨m₂, hm₂, hrun.append hrun₂⟩
    | error e =>
      rw [hfx] at hnext
      obtain ⟨m₂, hrun₂⟩ := hnext
      exact ⟨m₂, hrun.append hrun₂⟩

theorem told {R : α → β → Prop} (h : Executes ctx ps m r Q) (hmatch : Matching R r r')
    (hQ : ∀ x y m₁, R x y → Q x m₁ → Q' y m₁) : Executes ctx ps m r' Q' := by
  cases hmatch with
  | error e => exact h
  | ok hxy =>
    obtain ⟨m₁, hm₁, hrun⟩ := h
    exact ⟨m₁, hQ _ _ m₁ hxy hm₁, hrun⟩

theorem mono {Q' : α → Machine → Prop} (h : Executes ctx ps m r Q) (hQ : ∀ x m₁, Q x m₁ → Q' x m₁) :
    Executes ctx ps m r Q' :=
  h.told (Matching.refl (R := Eq) (fun _ => rfl) r) fun x _ m₁ hxy hm₁ => hxy ▸ hQ x m₁ hm₁

theorem of_ok {fuel : Nat} {m₁ : Machine} (h : Executes ctx ps m r Q)
    (hrun : runProcedures ctx fuel ps m = .ok true m₁) : ∃ x, r = .ok x ∧ Q x m₁ := by
  cases r with
  | ok x =>
    obtain ⟨m₂, hm₂, enough, hrun₂⟩ := h
    have hmore := runProcedures_add hrun enough
    rw [hrun₂ (fuel + enough) (Nat.le_add_left _ _)] at hmore
    cases hmore
    exact ⟨x, rfl, hm₂⟩
  | error e =>
    obtain ⟨m₂, enough, hrun₂⟩ := h
    have hmore := runProcedures_add hrun enough
    rw [hrun₂ (fuel + enough) (Nat.le_add_left _ _)] at hmore
    cases hmore

end Executes

/-! ### Tables of a machine -/

/-- Table `n` is there, with these columns and rows. -/
def Holds (m : Machine) (n : Nat) (columns : List Column) (rows : List (List Value)) : Prop :=
  ∃ t, m.tables[n]? = some (some t) ∧ t.Fits columns ∧ t.rows.toList = rows

/-- The tables that the statement has defined are there, with these rows. -/
def Defines (m : Machine) (g : GenerateState) (tables : NamedRows) : Prop :=
  List.Forall₂ (fun (x : String × Nat) (y : String × List (List Value)) =>
    x.1 = y.1 ∧ ∃ d, g.tables[x.2]? = some d ∧ m.Holds x.2 d.columns y.2) g.defined tables

/-- A table was added after the first `k`, which are as before, and the machine is ready for more. -/
structure Added (program : Program) (k n : Nat) (columns : List Column) (m : Machine) (rows : List (List Value))
    (m₁ : Machine) : Prop where
  ready : m₁.Ready program
  kept : ∀ j, j < k → m₁.tables[j]? = m.tables[j]?
  holds : m₁.Holds n columns rows

theorem Wrote.added {program : Program} {base m m₁ : Machine} {k n : Nat} {columns : List Column} {t : Table}
    (h : Wrote program base n columns t m₁) (hn : n < base.tables.length) (hk : k ≤ n)
    (hbase : ∀ j, j < k → base.tables[j]? = m.tables[j]?) : m.Added program k n columns t.rows.toList m₁ where
  ready := h.ready
  kept j hj := by rw [h.tables, List.getElem?_set_ne (by omega), hbase j hj]
  holds := ⟨t, by rw [h.tables, List.getElem?_set_self hn], h.fits, rfl⟩

theorem Holds.kept {m m₁ : Machine} {n : Nat} {columns : List Column} {rows : List (List Value)}
    (h : m.Holds n columns rows) (hkept : m₁.tables[n]? = m.tables[n]?) : m₁.Holds n columns rows := by
  obtain ⟨t, ht, hfits, hrows⟩ := h
  exact ⟨t, hkept.trans ht, hfits, hrows⟩

namespace Defines

variable {m m₁ : Machine} {g g' : GenerateState} {tables : NamedRows}

theorem mono (h : m.Defines g tables) (htables : g.tables <+: g'.tables) (hdefined : g'.defined = g.defined)
    (hkept : ∀ j, j < g.tables.length → m₁.tables[j]? = m.tables[j]?) : m₁.Defines g' tables := by
  unfold Defines at h ⊢
  rw [hdefined]
  refine h.imp ?_
  rintro x y ⟨hname, d, hd, hholds⟩
  have hlt := (List.getElem?_eq_some_iff.mp hd).1
  exact ⟨hname, d, getElem?_of_isPrefix htables hd, hholds.kept (hkept _ hlt)⟩

theorem lookup (h : m.Defines g tables) (key : String) :
    (∃ n d rows, g.defined.lookup key = some n ∧ tables.lookup key = some rows ∧ g.tables[n]? = some d ∧
      m.Holds n d.columns rows) ∨ g.defined.lookup key = none ∧ tables.lookup key = none := by
  unfold Defines at h
  generalize g.defined = defined at h
  induction h with
  | nil => exact .inr ⟨rfl, rfl⟩
  | @cons x y _ _ hxy _ ih =>
    obtain ⟨name, n⟩ := x
    obtain ⟨name', rows⟩ := y
    obtain ⟨hname, d, hd, hholds⟩ := hxy
    dsimp only at hname hd hholds
    subst hname
    rw [List.lookup_cons, List.lookup_cons]
    cases key == name with
    | true => exact .inl ⟨n, d, rows, rfl, rfl, hd, hholds⟩
    | false => exact ih

end Defines

end Machine

/-! ### Sources -/

/-- No row source of the environment raises the stop flag. -/
def Environment.Quiet (env : Environment) (context : SourceContext) : Prop :=
  ∀ name schema, env.registry.schema name = .ok schema → ∀ method args feed,
    schema.rows context method args = .ok feed → feed.Quiet

theorem Environment.quiet_of_memory (key : String) (s : MemorySchema) (files : Files) (context : SourceContext) :
    Quiet ⟨⟨[(key, s.toSchema)]⟩, files⟩ context := by
  intro name schema hschema method args feed hfeed
  cases List.mem_singleton.mp (Registry.mem_of_schema hschema)
  exact s.quiet_rows hfeed

namespace BoundSource

variable {env : Environment} {scopes : ScopeStack} {b : BoundSource} {context : SourceContext} {g : GenerateState}
variable {m : Machine} {tables : NamedRows}

theorem brings_eq (hdefines : m.Defines g tables) :
    b.brings context g.defined (m.tablesBelow g.tables.length) = b.origin.delivery b.columns context tables := by
  unfold brings SourceOrigin.delivery
  cases b.origin with
  | schema => rfl
  | table name =>
    dsimp only
    obtain ⟨n, d, rows, hn, hrows, hd, t, ht, -, rfl⟩ | ⟨hn, hrows⟩ := hdefines.lookup (Text.lower name)
    · have hlt := (List.getElem?_eq_some_iff.mp hd).1
      rw [hn, hrows, Option.bind_some, Machine.tablesBelow, if_pos hlt, ht]
      rfl
    · rw [hn, hrows]
      rfl

theorem Known.readable (h : b.Known env scopes) (henv : env.Quiet context) (hscopes : scopes.Generated g)
    (hdefines : m.Defines g tables) : b.Readable context g.defined (m.tablesBelow g.tables.length) := by
  unfold Known at h
  unfold Readable
  cases horigin : b.origin with
  | schema schema name method args =>
    rw [horigin] at h
    obtain ⟨name, hschema, -⟩ := h
    exact henv name schema hschema method args
  | table name =>
    rw [horigin] at h
    obtain ⟨key, t, ht, rfl, hcolumns⟩ := h
    obtain ⟨-, n, d, hn, hd, hsame⟩ := hscopes key t ht
    have hlt := (List.getElem?_eq_some_iff.mp hd).1
    obtain ⟨n', d', rows, hn', -, hd', t', ht', hfits, -⟩ | ⟨hnone, -⟩ := hdefines.lookup (Text.lower t.name)
    · rw [hn] at hn'
      cases hn'
      rw [hd] at hd'
      cases hd'
      refine ⟨n, t', hn, ?_, ?_⟩
      · rw [Machine.tablesBelow, if_pos hlt, ht']
        rfl
      · rw [← hcolumns, ← hsame]
        exact hfits.rows
    · rw [hn] at hnone
      cases hnone

end BoundSource

/-! ### Sets -/

namespace GenerateState

/-- The procedures that `g'` has and `g` has not. -/
def added (g g' : GenerateState) : List Procedure := g'.procedures.drop g.procedures.length

variable {g g₁ g' : GenerateState}

theorem added_eq {ps : List Procedure} (h : g'.procedures = g.procedures ++ ps) : g.added g' = ps := by
  rw [added, h, List.drop_left]

theorem added_self (g : GenerateState) : g.added g = [] := added_eq (List.append_nil _).symm

theorem added_trans (h : g.Grows g₁) (h' : g₁.Grows g') : g.added g' = g.added g₁ ++ g₁.added g' := by
  obtain ⟨ps, hps⟩ := h.procedures
  obtain ⟨qs, hqs⟩ := h'.procedures
  rw [added_eq hps.symm, added_eq hqs.symm]
  refine added_eq ?_
  rw [← hqs, ← hps, List.append_assoc]

end GenerateState

namespace Generate

open GenerateState

variable {env : Environment} {scopes after : ScopeStack} {limit : Nat} {ctx : RunContext} {g g' : GenerateState}
variable {m : Machine} {tables : NamedRows} {name : Option String} {n : Nat}

theorem query_executes {q : BoundQuery} {first : Nat} {entries : SourceList} {sites : QuerySites}
    (henv : env.Quiet ctx.sources) (hlimit : ctx.limit = 0) (hscopes : scopes.Generated g)
    (hbound : QueryBound env scopes first q entries) (hgen : q.Generated name sites g g') (hwithin : g'.Within ctx.program)
    (hcursors : first + q.sources.length ≤ ctx.program.cursorCount) (hready : m.Ready ctx.program)
    (hdefines : m.Defines g tables) :
    Machine.Executes ctx (g.added g') m (q.rows ctx.sources tables)
      (m.Added ctx.program g.tables.length g.tables.length (q.fields.map BoundField.column)) := by
  have hreadable : ∀ b ∈ q.sources, b.Readable ctx.sources g.defined (m.tablesBelow g.tables.length) :=
    fun b hb => (hbound.sources.known b hb).readable henv hscopes hdefines
  have hsupplies : q.supplies ctx.sources g.defined (m.tablesBelow g.tables.length) = q.deliveries ctx.sources tables :=
    List.map_congr_left fun b _ => by rw [BoundSource.brings_eq hdefines]
  have hfinishes := hgen.finishes_reader hbound ctx hlimit (Reader.runs_popped hlimit _ _) hwithin hcursors
    (m := { m with address := some 0 }) hreadable hready.start rfl
  have hdeclared := (hgen.declared hwithin).table
  rw [hgen.table] at hdeclared
  have hn : g.tables.length < m.tables.length := by
    rw [hready.tables]
    exact (List.getElem?_eq_some_iff.mp hdeclared).1
  rw [added_eq hgen.procedures]
  refine (Machine.Executes.single hfinishes hready.running).told (R := fun t rows => t.rows.toList = rows) ?_ ?_
  · have hnameless : (q.declaration name).table.SameRows (TableDeclaration.table ⟨"", []⟩) := rfl
    have hsame := Reader.popped.output_sameRows q (Reader.popped.visits q.filter (q.deliveries ctx.sources tables) .empty)
      hnameless
    exact hsupplies ▸ hsame.map_right fun _ _ hrows => (congrArg Array.toList hrows).symm
  · rintro t _ m₁ rfl hwrote
    exact hwrote.added hn (Nat.le_refl _) fun _ _ => rfl

section Operation

variable {op : SetOperator} {ownName : String} {keyId : Nat} {keys : List Nat} {left right : BoundSet} {sites : SetSites}

/-- The procedure of a set operation combines whatever rows the tables of its operands have. -/
theorem operation_executes {tableName : String} {lrows rrows : List (List Value)} (hlimit : ctx.limit = 0)
    (hbound : (BoundSet.operation op ownName keyId keys left right).Bound env scopes limit)
    (hgen : op.Generated ownName keyId keys sites ⟨tableName, left.columns⟩ g g') (hwithin : g'.Within ctx.program)
    (hlt : sites.left < sites.right) (hlt' : sites.right < sites.output) (hready : m.Ready ctx.program)
    (hleft : m.Holds sites.left left.columns lrows) (hright : m.Holds sites.right right.columns rrows) :
    Machine.Executes ctx (g.added g') m (.ok (op.rows keys lrows rrows))
      (m.Added ctx.program sites.right sites.output left.columns) := by
  obtain ⟨l, hlAt, hlFits, rfl⟩ := hleft
  obtain ⟨r, hrAt, hrFits, rfl⟩ := hright
  have hcolumns : ∀ s : BoundSet, (TableDeclaration.mk "" s.columns).columns = s.columns := fun _ => rfl
  have hplaced := placed_operation hgen hwithin hbound (hcolumns left) (hcolumns right) hlt hlt'
  have hfinishes := Machine.finishes_set hlimit hplaced hready.start hlAt hlFits hrAt hrFits
    (.ofCode ownName (op.code ownName keyId keys sites)) rfl
  have hlLong : ∀ row ∈ l.rows.toList, ∀ k ∈ keys, k < row.length := by
    intro row hrow k hk
    rw [(hlFits.rows row hrow).length_eq]
    exact hplaced.keys k hk
  have hrLong : ∀ row ∈ r.rows.toList, ∀ k ∈ keys, k < row.length := by
    intro row hrow k hk
    rw [((hrFits.rows row hrow).of_types hplaced.rightTypes.symm).length_eq]
    exact hplaced.keys k hk
  rw [added_eq hgen.procedures, ← op.rows_combine (t := TableDeclaration.table ⟨tableName, left.columns⟩) hlLong hrLong rfl]
  refine (Machine.Executes.single hfinishes hready.running).told (R := fun t rows => t.rows.toList = rows) (.ok rfl) ?_
  rintro t _ m₁ rfl hwrote
  refine hwrote.added ?_ (Nat.le_of_lt hlt') fun j hj => List.getElem?_set_ne (by omega)
  rw [(hready.start.indexRight op keys sites.right r).tables]
  exact (List.getElem?_eq_some_iff.mp hplaced.table).1

end Operation

/-- The procedures of a bound set come to its meaning. -/
theorem set_executes {s : BoundSet} (henv : env.Quiet ctx.sources) (hlimit : ctx.limit = 0)
    (hscopes : scopes.Generated g) (hcursors : limit ≤ g.cursorCount) (hbound : s.Bound env scopes limit)
    (h : set s name g = .ok n g') (hwithin : g'.Within ctx.program) (hready : m.Ready ctx.program)
    (hdefines : m.Defines g tables) :
    Machine.Executes ctx (g.added g') m (s.rows ctx.sources tables)
      (m.Added ctx.program g.tables.length n s.columns) := by
  induction s generalizing name n g g' m with
  | query q =>
    obtain ⟨first, entries, hquery, hlast⟩ := hbound
    obtain ⟨sites, hgen, rfl⟩ := query_ok h
    have hle := (hgen.grows.within hwithin).cursors
    exact query_executes henv hlimit hscopes hquery hgen hwithin (by omega) hready hdefines
  | operation op ownName keyId keys left right ihl ihr =>
    obtain ⟨g₁, g₂, sites, hl, hr, rfl, hgen⟩ := set_operation_ok h
    obtain ⟨hgrowsl, hdefinedl, -⟩ := set_declares hl
    obtain ⟨hgrowsr, -⟩ := set_declares hr
    have hle := hgrowsl.tables.length_le
    obtain ⟨hlt, hge, hlt'⟩ := operands_ordered hl hr hgen
    have hwithin₂ := hgen.grows.within hwithin
    rw [added_trans (hgrowsl.trans hgrowsr) hgen.grows, added_trans hgrowsl hgrowsr, List.append_assoc]
    -- The left operand, the right operand in its sight, and then the operation on both tables.
    refine (ihl hscopes hcursors hbound.1 hl (hgrowsr.within hwithin₂) hready hdefines).bind ?_
    intro lrows m₁ _ hleft
    have hdefines₁ := hdefines.mono hgrowsl.tables hdefinedl hleft.kept
    refine (ihr (hscopes.mono hgrowsl.tables hdefinedl) (Nat.le_trans hcursors hgrowsl.cursors) hbound.2.1 hr hwithin₂
      hleft.ready hdefines₁).bind ?_
    intro rrows m₂ _ hright
    refine (operation_executes hlimit hbound hgen hwithin (by omega) hlt' hright.ready
      (hleft.holds.kept (hright.kept _ hlt)) hright.holds).mono ?_
    intro rows m₃ hadded
    refine ⟨hadded.ready, fun j hj => ?_, hadded.holds⟩
    rw [hadded.kept j (by omega), hright.kept j (by omega), hleft.kept j hj]

end Generate

/-! ### Statements -/

theorem Table.rows_describe (t : Table) (columns : List Column) :
    (t.describe columns).rows.toList = t.rows.toList ++ columns.map fun c => [.text c.name, .text c.type.name] := by
  unfold describe
  rw [← List.foldl_map (f := fun c : Column => [.text c.name, .text c.type.name]) (g := Table.push), rows_foldl_push]

namespace Generate

open GenerateState

variable {env : Environment} {scopes after : ScopeStack} {limit : Nat} {ctx : RunContext} {g g' : GenerateState}
variable {m : Machine} {tables : NamedRows} {u : Unit} {xs : List BoundTable} {n : Nat} {b : BoundStatement}
variable {bs : List BoundStatement} {result result' : Option Nat}

theorem definedTables_executes (henv : env.Quiet ctx.sources)
    (hlimit : ctx.limit = 0) (hscopes : scopes.Generated g) (hcursors : limit ≤ g.cursorCount)
    (hbound : TablesBound env limit scopes xs after) (h : definedTables xs g = .ok u g')
    (hwithin : g'.Within ctx.program) (hready : m.Ready ctx.program) (hdefines : m.Defines g tables) :
    Machine.Executes ctx (g.added g') m (definedRows ctx.sources tables xs) fun tables' m₁ =>
      m₁.Ready ctx.program ∧ (∀ j, j < g.tables.length → m₁.tables[j]? = m.tables[j]?) ∧ m₁.Defines g' tables' := by
  induction xs generalizing scopes g m tables with
  | nil =>
    cases h
    rw [added_self]
    exact .nil ⟨hready, fun _ _ => rfl, hdefines⟩
  | cons t rest ih =>
    obtain ⟨hbody, scopes₁, hinsert, hrestBound⟩ := hbound
    obtain ⟨n, g₁, hset, hrest⟩ := definedTables_cons_ok h
    obtain ⟨hgrows, hdefined, -, d, hd, hcolumns⟩ := set_declares hset
    have hgrowsRest := (grows_withDefined g₁ ((Text.lower t.name, n) :: g₁.defined)).trans (definedTables_grows hrest)
    rw [added_trans hgrows hgrowsRest]
    refine (set_executes henv hlimit hscopes hcursors hbody hset (hgrowsRest.within hwithin) hready hdefines).bind ?_
    intro rows m₁ _ hadded
    have hdefines₁ : m₁.Defines { g₁ with defined := (Text.lower t.name, n) :: g₁.defined }
        ((Text.lower t.name, rows) :: tables) :=
      .cons ⟨rfl, d, hd, hcolumns ▸ hadded.holds⟩ (hdefines.mono hgrows.tables hdefined hadded.kept)
    refine (ih (generated_define hscopes hset hinsert) (Nat.le_trans hcursors hgrows.cursors) hrestBound hrest
      hadded.ready hdefines₁).mono ?_
    rintro tables' m₂ ⟨hready₂, hkept, hdefines₂⟩
    refine ⟨hready₂, fun j hj => ?_, hdefines₂⟩
    rw [hkept j (Nat.lt_of_lt_of_le hj hgrows.tables.length_le), hadded.kept j hj]

/-- The procedures of a bound statement come to its meaning, whatever was done before. -/
theorem statement_executes (henv : env.Quiet ctx.sources) (hlimit : ctx.limit = 0)
    (hcursors : limit ≤ g.cursorCount) (hbound : b.Bound env limit) (h : statement b g = .ok n g')
    (hwithin : g'.Within ctx.program) (hready : m.Ready ctx.program) :
    Machine.Executes ctx (g.added g') m (b.rows ctx.sources) (m.Added ctx.program g.tables.length n b.columns) := by
  cases b with
  | query xs body =>
    obtain ⟨after, htables, hbody⟩ := hbound
    replace h := eq_ok_of_bind h rfl
    obtain ⟨_, g₁, hdefined, h⟩ := bind_eq_ok.mp h
    have hnone : ScopeStack.Generated (ScopeStack.push [] .table) { g with defined := [] } := nofun
    have hgrows := definedTables_grows hdefined
    have hgrowsBody := (set_declares h).1
    have hadded : g.added g' = GenerateState.added { g with defined := [] } g' := rfl
    rw [hadded, added_trans hgrows hgrowsBody]
    refine (definedTables_executes henv hlimit hnone hcursors htables hdefined (hgrowsBody.within hwithin) hready
      .nil).bind ?_
    rintro tables m₁ - ⟨hready₁, hkept, hdefines⟩
    refine (set_executes henv hlimit (definedTables_generated hnone htables hdefined)
      (Nat.le_trans hcursors hgrows.cursors) hbody h hwithin hready₁ hdefines).mono ?_
    intro rows m₂ hbodyAdded
    refine ⟨hbodyAdded.ready, fun j hj => ?_, hbodyAdded.holds⟩
    rw [hbodyAdded.kept j (Nat.lt_of_lt_of_le hj hgrows.tables.length_le), hkept j hj]
  | describe name source columns =>
    cases h
    have hd : ctx.program.tables[g.tables.length]? = some ⟨name, describeColumns⟩ :=
      getElem?_of_isPrefix hwithin.tables List.getElem?_concat_length
    have hfinishes := Machine.finishes_describe hlimit hd rfl hready.start
      (.ofCode name (describeCode source columns g.tables.length)) rfl
    have hn : g.tables.length < m.tables.length := by
      rw [hready.tables]
      exact (List.getElem?_eq_some_iff.mp hd).1
    have hprocedures : g.procedures ++ [⟨name, (describeCode source columns g.tables.length).toArray⟩] =
        g.procedures ++ [⟨name, (describeCode source columns g.tables.length).toArray⟩] := rfl
    rw [added_eq hprocedures]
    refine (Machine.Executes.single hfinishes hready.running).told (R := fun t rows => t.rows.toList = rows) ?_ ?_
    · exact .ok (Table.rows_describe _ _)
    · rintro t _ m₁ rfl hwrote
      exact hwrote.added hn (Nat.le_refl _) fun _ _ => rfl

theorem statements_executes (henv : env.Quiet ctx.sources)
    (hlimit : ctx.limit = 0) (hcursors : limit ≤ g.cursorCount) (hbound : ∀ b ∈ bs, b.Bound env limit)
    (h : statements result bs g = .ok result' g') (hwithin : g'.Within ctx.program) (hready : m.Ready ctx.program) :
    Machine.Executes ctx (g.added g') m (bs.mapM (BoundStatement.rows ctx.sources)) fun _ m₁ => m₁.Ready ctx.program := by
  induction bs generalizing g result m with
  | nil =>
    obtain ⟨rfl, rfl⟩ := pure_eq_ok.mp h
    rw [added_self]
    exact .nil hready
  | cons b bs ih =>
    obtain ⟨n, g₁, hb, h⟩ := statements_cons_ok h
    obtain ⟨hhead, htail⟩ := List.forall_mem_cons.mp hbound
    have hgrows := statement_grows hb
    have hgrowsRest := statements_grows h
    rw [added_trans hgrows hgrowsRest, List.mapM_cons]
    refine (statement_executes henv hlimit hcursors hhead hb (hgrowsRest.within hwithin) hready).bind ?_
    intro rows m₁ _ hadded
    refine (ih (Nat.le_trans hcursors hgrows.cursors) htail h hadded.ready).told (R := fun xs ys => rows :: xs = ys) ?_ ?_
    · cases bs.mapM (BoundStatement.rows ctx.sources) with
      | error e => exact .error e
      | ok xs => exact .ok rfl
    · exact fun _ _ _ _ => id

end Generate

end TabularQuery
