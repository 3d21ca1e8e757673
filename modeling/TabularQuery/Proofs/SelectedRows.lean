import Mathlib
import TabularQuery.Proofs.Selection
import TabularQuery.Proofs.SoundGeneration

/-!
Queries without groups, from binding to the finished table. The procedure that is generated for a query
over one source, or over a chain of joins, runs to its end, and its table holds the values of the
fields on the selected tuples of rows, in order.
-/

namespace TabularQuery

namespace Machine

variable {ctx : RunContext} {p : Procedure} {P : Machine → Prop} {m : Machine} {α : Type} {x : α}
variable {Q : α → Machine → Prop}

theorem Finishes.runProcedure (h : Finishes ctx p P { m with address := some 0 } (.ok x) Q)
    (hrunning : m.cancelled = false) :
    ∃ final enough, Q x final ∧ ∀ fuel, enough ≤ fuel → runProcedure ctx fuel p m = .ok true final := by
  obtain ⟨m₁, hpath, final, -, hhalt, hfinal⟩ := h
  obtain ⟨k, hk⟩ := hpath.reaches
  refine ⟨final, k + 1, hfinal, ?_⟩
  intro fuel hfuel
  obtain ⟨more, rfl⟩ := Nat.exists_eq_add_of_le hfuel
  have hrun : runCode ctx p (k + (more + 1)) { m with address := some 0 } = .ok true final := by
    rw [hk, runCode, bind_apply, hhalt]
    rfl
  rw [show k + 1 + more = k + (more + 1) by omega]
  simpa [Machine.runProcedure, checkCancelled, hrunning] using hrun

end Machine

theorem exists_mapM_ok {α β : Type} {f : α → Except Error β} {xs : List α}
    (h : ∀ x ∈ xs, ∃ y, f x = .ok y) :
    ∃ ys, xs.mapM f = .ok ys ∧ List.Forall₂ (fun x y => f x = .ok y) xs ys := by
  induction xs with
  | nil => exact ⟨[], rfl, .nil⟩
  | cons x xs ih =>
    obtain ⟨y, hy⟩ := h x List.mem_cons_self
    obtain ⟨ys, hys, hall⟩ := ih fun x hx => h x (List.mem_cons_of_mem _ hx)
    refine ⟨y :: ys, ?_, .cons hy hall⟩
    rw [List.mapM_cons, hy, hys]
    rfl

theorem slice_map {α β : Type} (f : α → β) (skip take : Option Int64) (xs : List α) :
    slice skip take (xs.map f) = (slice skip take xs).map f := by
  cases take <;> simp [slice, List.map_drop, List.map_take]

/-- The source can be read, and it brings these rows. -/
structure BoundSource.Delivers (b : BoundSource) (context : SourceContext)
    (defined : List (String × Nat)) (T : Nat → Option Table) (rows : List (List Value)) : Prop where
  readable : b.Readable context defined T
  brings : b.brings context defined T = delivered rows

namespace BoundQuery

/-- The tuples that a query without groups writes: those that meet its conditions, less what it skips
and does not take. -/
def selected (q : BoundQuery) (rows : List (List (List Value))) : List (List (List Value)) :=
  slice q.skip q.take
    ((product rows).filter fun tuple => (Scene.ofRows q.sources tuple).meets q.sources q.filter)

/-- The fields of the query on a tuple of rows. -/
def project (q : BoundQuery) (tuple : List (List Value)) : Except Error (List Value) :=
  TypedExpr.evalAll (Scene.ofRows q.sources tuple) (q.fields.map BoundField.expr)

/-- The scenes of the tuples that meet all conditions, in order. -/
def passing (q : BoundQuery) (rows : List (List (List Value))) : List Scene :=
  ((product rows).map (Scene.ofRows q.sources)).filter fun s => s.meets q.sources q.filter

variable {q : BoundQuery} {rows : List (List (List Value))}

theorem evalAll_passing : ((slice q.skip q.take (q.passing rows)).mapM fun s =>
    TypedExpr.evalAll s (q.fields.map BoundField.expr)) = (q.selected rows).mapM q.project := by
  rw [passing, List.filter_map, slice_map, List.mapM_map]
  rfl

theorem supplies_eq {context : SourceContext} {defined : List (String × Nat)} {T : Nat → Option Table}
    (h : List.Forall₂ (fun b rows => b.Delivers context defined T rows) q.sources rows) :
    q.supplies context defined T = q.sources.zip (rows.map delivered) := by
  unfold supplies
  generalize q.sources = sources at h
  induction h with
  | nil => rfl
  | cons hb _ ih => rw [List.map_cons, ih, hb.brings]; rfl

section Runs

variable {env : Environment} {written : Query} {s s' : BindState} (hbound : Bind.query env written s = .ok q s')
variable {name : Option String} {g g' : GenerateState} {table : Nat} (hgen : Generate.query q name g = .ok table g')
variable {ctx : RunContext} (hlimit : ctx.limit = 0) (hwithin : g'.Within ctx.program)
variable (hcursors : s'.cursors ≤ ctx.program.cursorCount) (hmethods : ∀ b ∈ q.sources, ∀ f, b.catalog.Offers f → f.Sound)
variable {m : Machine} (hready : m.Ready ctx.program)
variable (hrows : List.Forall₂
  (fun b rows => b.Delivers ctx.sources g.defined (m.tablesBelow g.tables.length) rows) q.sources rows)
variable (hnever : NeverFails q.filter q.sources rows .empty)

include hbound hgen hlimit hwithin hcursors hmethods hready hrows hnever

/-- The procedure of a query ends, and its table holds what the query writes for the scenes that pass. -/
theorem runs_passing {values : List (List Value)}
    (hvalues : ∀ t, Reader.exact.output q ((q.passing rows).map .ok) t = .ok (values.foldl Table.push t)) :
    ∃ p final t enough, g'.procedures = g.procedures ++ [p] ∧
      (∀ fuel, enough ≤ fuel → Machine.runProcedure ctx fuel p m = .ok true final) ∧
      final.tables = m.tables.set table (some t) ∧ t.columns = q.fields.map BoundField.column ∧
      t.rows.toList = values := by
  obtain ⟨⟨entries, hquery⟩, -, -, -, hs'⟩ := Bind.query_ok hbound
  obtain ⟨sites, hgenerated, rfl⟩ := Generate.query_ok hgen
  obtain ⟨start, hstart⟩ : ∃ start : Machine, start = { m with address := some 0 } := ⟨_, rfl⟩
  have hreadable : ∀ b ∈ q.sources, b.Readable ctx.sources g.defined (start.tablesBelow g.tables.length) := by
    intro b hb
    obtain ⟨_, _, hdelivers⟩ := exists_of_forall₂ hrows hb
    rw [hstart]
    exact hdelivers.readable
  have hsound : ∀ f, entries.Offers f → f.Sound := by
    intro f hf
    obtain ⟨b, hb, hoffers⟩ := hquery.offers hf
    exact hmethods b hb f hoffers
  have hfinishes := hgenerated.finishes hquery ctx hlimit hwithin (hs' ▸ hcursors) hreadable hsound
    (hstart ▸ hready.start) (hstart ▸ rfl)
  have hsupplies : q.supplies ctx.sources g.defined (start.tablesBelow g.tables.length) = q.sources.zip (rows.map delivered) := by
    rw [hstart]
    exact supplies_eq hrows
  have hvisits : Reader.exact.visits q.filter (q.sources.zip (rows.map delivered)) .empty = (q.passing rows).map .ok :=
    visits_eq hrows.length_eq.symm hquery.nested hnever
  rw [hsupplies, hvisits, hvalues] at hfinishes
  rw [hstart] at hfinishes
  obtain ⟨final, enough, hwrote, hrun⟩ := hfinishes.runProcedure hready.running
  exact ⟨_, final, _, enough, hgenerated.procedures, hrun, hwrote.tables, hwrote.fits.columns,
    Table.rows_foldl_push ..⟩

/-- The procedure of a query without groups ends, and its table holds the fields on the selected
tuples. -/
theorem runs_selected (hflat : q.grouping = none)
    (hfields : ∀ tuple ∈ q.selected rows, ∃ values, q.project tuple = .ok values) :
    ∃ p final t enough, g'.procedures = g.procedures ++ [p] ∧
      (∀ fuel, enough ≤ fuel → Machine.runProcedure ctx fuel p m = .ok true final) ∧
      final.tables = m.tables.set table (some t) ∧ t.columns = q.fields.map BoundField.column ∧
      List.Forall₂ (fun tuple values => q.project tuple = .ok values) (q.selected rows) t.rows.toList := by
  obtain ⟨values, hvalues, hall⟩ := exists_mapM_ok hfields
  obtain ⟨p, final, t, enough, hp, hrun, htables, hcolumns, rfl⟩ := runs_passing hbound hgen hlimit hwithin hcursors
    hmethods hready hrows hnever fun t => by
      rw [Reader.output, hflat]
      change Reader.exact.written q _ t = _
      rw [Reader.written, consume_emit, evalAll_passing, hvalues]
      rfl
  exact ⟨p, final, t, enough, hp, hrun, htables, hcolumns, hall⟩

end Runs

end BoundQuery

/-! ### One source -/

theorem product_singleton {α : Type} (xs : List α) : product [xs] = xs.map fun x => [x] := by
  simp [product, List.map_eq_flatMap]

section Flat

variable {env : Environment} {written : Query} {s s' : BindState} {q : BoundQuery} {source : BoundSource}

theorem Bind.on_of_query (hbound : Bind.query env written s = .ok q s') (hsource : q.sources = [source]) :
    source.on = none := by
  obtain ⟨⟨entries, hquery⟩, -⟩ := Bind.query_ok hbound
  have houtermost := hquery.sources.outermost
  rw [hsource] at houtermost
  simpa using houtermost

theorem BoundQuery.selected_singleton (hsource : q.sources = [source]) (hon : source.on = none)
    (rows : List (List Value)) :
    q.selected [rows] = (slice q.skip q.take
      (rows.filter fun row => (Scene.ofRows [source] [row]).holds q.filter)).map fun row => [row] := by
  have hmeets : ∀ row, (Scene.ofRows [source] [row]).meets [source] q.filter =
      (Scene.ofRows [source] [row]).holds q.filter := by
    intro row
    simp [Scene.meets, hon, Scene.holds, Scene.test]
  rw [selected, hsource, product_singleton, List.filter_map, slice_map]
  simp only [Function.comp_def, hmeets]

/-- A query over one source without groups: its procedure ends, and its table holds the rows that pass
the filter, less those that are skipped and not taken, each mapped through the fields, in order. What
the fields do on other rows does not matter. -/
theorem flat_query_rows (hbound : Bind.query env written s = .ok q s') (hsource : q.sources = [source])
    (hflat : q.grouping = none) {name : Option String} {g g' : GenerateState} {table : Nat}
    (hgen : Generate.query q name g = .ok table g') {ctx : RunContext} (hlimit : ctx.limit = 0)
    (hwithin : g'.Within ctx.program) (hcursors : s'.cursors ≤ ctx.program.cursorCount)
    (hmethods : ∀ f, source.catalog.Offers f → f.Sound) {m : Machine} (hready : m.Ready ctx.program)
    {rows : List (List Value)}
    (hrows : source.Delivers ctx.sources g.defined (m.tablesBelow g.tables.length) rows)
    (hfilter : ∀ row ∈ rows, ∃ b, (Scene.ofRows [source] [row]).test q.filter = .ok b)
    (hfields : ∀ row ∈ slice q.skip q.take
      (rows.filter fun row => (Scene.ofRows [source] [row]).holds q.filter),
      ∃ values, q.project [row] = .ok values) :
    ∃ p final t enough, g'.procedures = g.procedures ++ [p] ∧
      (∀ fuel, enough ≤ fuel → Machine.runProcedure ctx fuel p m = .ok true final) ∧
      final.tables = m.tables.set table (some t) ∧ t.columns = q.fields.map BoundField.column ∧
      List.Forall₂ (fun row values => q.project [row] = .ok values)
        (slice q.skip q.take (rows.filter fun row => (Scene.ofRows [source] [row]).holds q.filter))
        t.rows.toList := by
  have hon := Bind.on_of_query hbound hsource
  have hselected := BoundQuery.selected_singleton hsource hon rows
  have hnever : NeverFails q.filter q.sources [rows] .empty := by
    rw [hsource]
    intro row hrow
    refine ⟨true, by rw [hon]; rfl, fun _ => hfilter row hrow⟩
  obtain ⟨p, final, t, enough, hp, hrun, htables, hcolumns, hall⟩ := BoundQuery.runs_selected hbound hgen
    hlimit hwithin hcursors (by simpa [hsource] using hmethods) hready
    (by rw [hsource]; exact .cons hrows .nil) hnever hflat (by rw [hselected]; simpa using hfields)
  rw [hselected, List.forall₂_map_left_iff] at hall
  exact ⟨p, final, t, enough, hp, hrun, htables, hcolumns, hall⟩

/-- The rows 1 to 4, of which 2 does not count and 3 is taken: that `6 / (n - 4)` has no value on 4
does not matter. -/
theorem flat_query_rows_sliced :
    let rows : List (List Value) := [[.integer 1], [.integer 2], [.integer 3], [.integer 4]]
    let schema : MemorySchema := ⟨"m", [("t", ⟨[⟨"n", .integer⟩], rows⟩)], .standard⟩
    let n : Expr := .column none "n"
    let written : Query :=
      ⟨[.field (.binary .div (.literal (.integer 6)) (.binary .sub n (.literal (.integer 4)))) (some "x")],
        .schema ⟨"m", "t", []⟩ (some "a"), some (.binary .gt n (.literal (.integer 1))), none,
        some 1, some 1⟩
    let column : TypedExpr := .column 0 0 "n" .integer
    let source : BoundSource := ⟨0, "a", .schema schema.toSchema "m" "t" [], [⟨"n", .integer⟩], none⟩
    let q : BoundQuery := ⟨"Query1", [source],
      some (.binary .gt column (.literal (.integer 1)) .boolean), none,
      [⟨"x", .binary .div (.literal (.integer 6))
        (.binary .sub column (.literal (.integer 4)) .integer) .integer⟩], some 1, some 1, []⟩
    let g : GenerateState := ⟨[], [], [], [], 1, 0, []⟩
    ∃ p final t enough, Bind.query ⟨⟨[("m", schema.toSchema)]⟩, .empty⟩ written .init =
          .ok q ⟨[], 1, 1, 0, 0, ["m"]⟩ ∧
      let program : Program :=
        ⟨[p], [⟨"Query1", [⟨"x", .integer⟩]⟩], [⟨schema.toSchema, "m", "t", [], source.columns⟩], [], 1, 2, 0, []⟩
      Generate.query q none g = .ok 0 ⟨[p], program.tables, program.sources, [], 1, 2, []⟩ ∧
      (∀ fuel, enough ≤ fuel →
        Machine.runProcedure ⟨program, ⟨.empty, 1⟩, 0⟩ fuel p (.init program false) = .ok true final) ∧
      final.tables = [some t] ∧ t.rows.toList = [[.integer (-6)]] := by
  intro rows schema n written column source q g
  have hbound : Bind.query ⟨⟨[("m", schema.toSchema)]⟩, .empty⟩ written .init =
    .ok q ⟨[], 1, 1, 0, 0, ["m"]⟩ := rfl
  let opening : Instruction :=
    { opcode := .openSource, p1 := 0, p2 := 0, comment := some "#m.t() a" }
  let p : Procedure := ⟨"Query1", (q.code ⟨0, some 0, some 1, 0, [opening]⟩).toArray⟩
  let program : Program := ⟨[p], [⟨"Query1", [⟨"x", .integer⟩]⟩],
    [⟨schema.toSchema, "m", "t", [], source.columns⟩], [], 1, 2, 0, []⟩
  let ctx : RunContext := ⟨program, ⟨.empty, 1⟩, 0⟩
  let g' : GenerateState := ⟨[p], program.tables, program.sources, [], 1, 2, []⟩
  have hgen : Generate.query q none g = .ok 0 g' := rfl
  have hwithin : g'.Within ctx.program :=
    ⟨List.prefix_rfl, List.prefix_rfl, List.prefix_rfl, List.prefix_rfl, Nat.le_refl _, Nat.le_refl _⟩
  have hdelivers : source.Delivers ctx.sources g.defined
      ((Machine.init program false).tablesBelow 0) rows :=
    ⟨fun feed h => schema.quiet_rows h, rfl⟩
  have hfilter : ∀ row ∈ rows, ∃ b, (Scene.ofRows [source] [row]).test q.filter = .ok b := by
    intro row hrow
    simp only [rows, List.mem_cons, List.not_mem_nil, or_false] at hrow
    rcases hrow with rfl | rfl | rfl | rfl <;> exact ⟨_, rfl⟩
  have hfields : ∀ row ∈ slice q.skip q.take
      (rows.filter fun row => (Scene.ofRows [source] [row]).holds q.filter),
      ∃ values, q.project [row] = .ok values := by
    intro row hrow
    cases List.mem_singleton.mp (show row ∈ [[.integer 3]] from hrow)
    exact ⟨_, rfl⟩
  obtain ⟨_, final, t, enough, hp, hrun, htables, -, hall⟩ :=
    flat_query_rows hbound rfl rfl hgen rfl hwithin (Nat.le_refl _)
      (fun f hf => (Catalog.standard_regular hf).sound) (Machine.ready_init program) hdelivers hfilter hfields
  cases hp
  refine ⟨p, final, t, enough, hbound, hgen, hrun, htables, ?_⟩
  change List.Forall₂ _ [[Value.integer 3]] _ at hall
  generalize t.rows.toList = written at hall
  cases hall with
  | cons hrow hnil =>
    cases hnil
    cases hrow
    rfl

end Flat

/-! ### Chains of joins -/

namespace FromSource

def isJoin : FromSource → Bool
  | .join .. => true
  | _ => false

/-- Joins that nest to the left: each further source comes with its condition. -/
def chain (first : FromSource) (rest : List (FromSource × Expr)) : FromSource :=
  rest.foldl (fun left right => .join left right.1 right.2) first

/-- The source is the one that is written. -/
def ReadBy (x : FromSource) (b : BoundSource) : Prop :=
  match x with
  | .schema c _ => ∃ schema, b.origin = .schema schema (Text.lower c.schema) c.method c.args
  | .named .. => ∃ table, b.origin = .table table
  | .join .. => False

end FromSource

section Joins

variable {env : Environment} {written : Query} {s s' : BindState} {q : BoundQuery}
variable {first : FromSource} {rest : List (FromSource × Expr)}

theorem Bind.leaf_ok {x : FromSource} (hx : x.isJoin = false) {bound : SourceList × List BoundSource}
    (h : fromSource env x s = .ok bound s') : ∃ b, bound.2 = [b] ∧ b.on = none ∧ x.ReadBy b := by
  cases x with
  | schema c aliasName =>
    obtain ⟨schema, _, _, _, -, -, rfl, -⟩ := schema_eq_ok h
    exact ⟨_, rfl, rfl, schema, rfl⟩
  | named name aliasName =>
    obtain ⟨t, -, -, rfl⟩ := named_eq_ok h
    exact ⟨_, rfl, rfl, t.name, rfl⟩
  | join left right on => cases hx

/-- A chain of joins has its sources in the order of the text, and every condition stands at the source
that it was written for. -/
theorem Bind.chain_ok (hfirst : first.isJoin = false) (hrest : ∀ r ∈ rest, r.1.isJoin = false)
    {bound : SourceList × List BoundSource} (h : fromSource env (.chain first rest) s = .ok bound s') :
    List.Forall₂ FromSource.ReadBy (first :: rest.map Prod.fst) bound.2 ∧
      ∃ conditions : List TypedExpr, bound.2.map BoundSource.on = none :: conditions.map some ∧
        List.Forall₂ (fun r c => ∃ s₁ s₂, condition .on r.2 s₁ = .ok c s₂) rest conditions := by
  induction rest using List.reverseRecOn generalizing s s' bound with
  | nil =>
    obtain ⟨b, hb, hon, hread⟩ := leaf_ok hfirst h
    exact ⟨hb ▸ .cons hread .nil, [], by simp [hb, hon], .nil⟩
  | append_singleton rest r ih =>
    have hchain : FromSource.chain first (rest ++ [r]) = .join (.chain first rest) r.1 r.2 := by
      simp [FromSource.chain]
    rw [hchain] at h
    obtain ⟨left, right, test, s₁, scopes₂, s₃, scopes₄, s₅, hleft, -, hright, -, -, htest, rfl, -⟩ :=
      join_eq_ok_iff.mp h
    obtain ⟨hreads, conditions, hon, hconditions⟩ :=
      ih (fun r' hr' => hrest r' (List.mem_append_left _ hr')) hleft
    obtain ⟨b, hb, -, hread⟩ := leaf_ok (hrest r (by simp)) hright
    rw [hb, setLastCondition_concat]
    refine ⟨?_, conditions ++ [test], ?_, ?_⟩
    · have hall := List.rel_append hreads (.cons (show r.1.ReadBy { b with on := some test } from hread) .nil)
      simpa using hall
    · simp [hon]
    · exact List.rel_append hconditions (.cons ⟨_, _, htest⟩ .nil)

/-- The sources ask for no more than the conditions that were written. -/
theorem all_holds_on {sources : List BoundSource} {conditions : List TypedExpr}
    (h : sources.map BoundSource.on = none :: conditions.map some) (scene : Scene) :
    (sources.all fun b => scene.holds b.on) = conditions.all fun c => scene.holds (some c) := by
  have hnone : scene.holds none = true := rfl
  have hmap : (sources.map BoundSource.on).all scene.holds = sources.all fun b => scene.holds b.on :=
    List.all_map
  rw [← hmap, h, List.all_cons, hnone, Bool.true_and, List.all_map]
  rfl

/-- A chain of joins without groups: its procedure ends, and its table holds the tuples of rows, in
lexicographic order, that meet every written condition and the filter, less those that are skipped and
not taken, each mapped through the fields. -/
theorem joined_query_rows (hbound : Bind.query env written s = .ok q s')
    (hchain : written.source = .chain first rest) (hfirst : first.isJoin = false)
    (hrest : ∀ r ∈ rest, r.1.isJoin = false) (hflat : q.grouping = none) {name : Option String}
    {g g' : GenerateState} {table : Nat} (hgen : Generate.query q name g = .ok table g')
    {ctx : RunContext} (hlimit : ctx.limit = 0) (hwithin : g'.Within ctx.program)
    (hcursors : s'.cursors ≤ ctx.program.cursorCount)
    (hmethods : ∀ b ∈ q.sources, ∀ f, b.catalog.Offers f → f.Sound) {m : Machine}
    (hready : m.Ready ctx.program) {rows : List (List (List Value))}
    (hrows : List.Forall₂
      (fun b rows => b.Delivers ctx.sources g.defined (m.tablesBelow g.tables.length) rows) q.sources rows)
    (hnever : NeverFails q.filter q.sources rows .empty)
    (hfields : ∀ tuple ∈ q.selected rows, ∃ values, q.project tuple = .ok values) :
    List.Forall₂ FromSource.ReadBy (first :: rest.map Prod.fst) q.sources ∧
    ∃ conditions : List TypedExpr,
      List.Forall₂ (fun r c => ∃ s₁ s₂, Bind.condition .on r.2 s₁ = .ok c s₂) rest conditions ∧
      q.selected rows = slice written.skip written.take ((product rows).filter fun tuple =>
        conditions.all (fun c => (Scene.ofRows q.sources tuple).holds (some c)) &&
          (Scene.ofRows q.sources tuple).holds q.filter) ∧
      ∃ p final t enough, g'.procedures = g.procedures ++ [p] ∧
        (∀ fuel, enough ≤ fuel → Machine.runProcedure ctx fuel p m = .ok true final) ∧
        final.tables = m.tables.set table (some t) ∧ t.columns = q.fields.map BoundField.column ∧
        List.Forall₂ (fun tuple values => q.project tuple = .ok values) (q.selected rows)
          t.rows.toList := by
  obtain ⟨-, hskip, htake, -⟩ := Bind.query_ok hbound
  obtain ⟨entries, s₁, s₂, hfrom⟩ := Bind.query_source hbound
  rw [hchain] at hfrom
  obtain ⟨hreads, conditions, hon, hconditions⟩ := Bind.chain_ok hfirst hrest hfrom
  refine ⟨hreads, conditions, hconditions, ?_, BoundQuery.runs_selected hbound hgen hlimit hwithin
    hcursors hmethods hready hrows hnever hflat hfields⟩
  simp only [BoundQuery.selected, Scene.meets, hskip, htake, all_holds_on hon]

/-- Three times the rows 1, 2 and 3, with `a <= b` and `b < c`: of the tuples in which `c` is 3 the
second is written, on which alone `12 / (b - a)` has a value. -/
theorem joined_query_rows_triangle :
    let rows : List (List Value) := [[.integer 1], [.integer 2], [.integer 3]]
    let schema : MemorySchema := ⟨"m", [("t", ⟨[⟨"n", .integer⟩], rows⟩)], .standard⟩
    let leaf (aliasName : String) : FromSource := .schema ⟨"m", "t", []⟩ (some aliasName)
    let n (aliasName : String) : Expr := .column (some aliasName) "n"
    let written : Query :=
      ⟨[.field (.binary .div (.literal (.integer 12)) (.binary .sub (n "b") (n "a"))) (some "x")],
        .chain (leaf "a") [(leaf "b", .binary .le (n "a") (n "b")), (leaf "c", .binary .lt (n "b") (n "c"))],
        some (.binary .eq (n "c") (.literal (.integer 3))), none, some 1, some 1⟩
    let column (cursor : Nat) : TypedExpr := .column cursor 0 "n" .integer
    let source (cursor : Nat) (aliasName : String) (on : Option TypedExpr) : BoundSource :=
      ⟨cursor, aliasName, .schema schema.toSchema "m" "t" [], [⟨"n", .integer⟩], on⟩
    let q : BoundQuery := ⟨"Query1",
      [source 0 "a" none, source 1 "b" (some (.binary .le (column 0) (column 1) .boolean)),
        source 2 "c" (some (.binary .lt (column 1) (column 2) .boolean))],
      some (.binary .eq (column 2) (.literal (.integer 3)) .boolean), none,
      [⟨"x", .binary .div (.literal (.integer 12)) (.binary .sub (column 1) (column 0) .integer) .integer⟩],
      some 1, some 1, []⟩
    let g : GenerateState := ⟨[], [], [], [], 3, 0, []⟩
    ∃ p final t enough, Bind.query ⟨⟨[("m", schema.toSchema)]⟩, .empty⟩ written .init =
        .ok q ⟨[], 1, 3, 0, 0, ["m"]⟩ ∧
      let program : Program := ⟨[p], [⟨"Query1", [⟨"x", .integer⟩]⟩],
        .replicate 3 ⟨schema.toSchema, "m", "t", [], [⟨"n", .integer⟩]⟩, [], 3, 2, 0, []⟩
      Generate.query q none g = .ok 0 ⟨[p], program.tables, program.sources, [], 3, 2, []⟩ ∧
      (∀ fuel, enough ≤ fuel →
        Machine.runProcedure ⟨program, ⟨.empty, 1⟩, 0⟩ fuel p (.init program false) = .ok true final) ∧
      final.tables = [some t] ∧ t.rows.toList = [[.integer 12]] := by
  intro rows schema leaf n written column source q g
  have hbound : Bind.query ⟨⟨[("m", schema.toSchema)]⟩, .empty⟩ written .init =
    .ok q ⟨[], 1, 3, 0, 0, ["m"]⟩ := by cbv
  let opening (i : Int) (aliasName : String) : Instruction :=
    { opcode := .openSource, p1 := i, p2 := i, comment := some ("#m.t() " ++ aliasName) }
  let p : Procedure := ⟨"Query1", (q.code ⟨0, some 0, some 1, 0,
    [opening 0 "a", opening 1 "b", opening 2 "c"]⟩).toArray⟩
  let program : Program := ⟨[p], [⟨"Query1", [⟨"x", .integer⟩]⟩],
    .replicate 3 ⟨schema.toSchema, "m", "t", [], [⟨"n", .integer⟩]⟩, [], 3, 2, 0, []⟩
  let ctx : RunContext := ⟨program, ⟨.empty, 1⟩, 0⟩
  let g' : GenerateState := ⟨[p], program.tables, program.sources, [], 3, 2, []⟩
  have hgen : Generate.query q none g = .ok 0 g' := rfl
  have hwithin : g'.Within ctx.program :=
    ⟨List.prefix_rfl, List.prefix_rfl, List.prefix_rfl, List.prefix_rfl, Nat.le_refl _, Nat.le_refl _⟩
  have hdelivers : ∀ cursor aliasName on, (source cursor aliasName on).Delivers ctx.sources g.defined
      ((Machine.init program false).tablesBelow 0) rows :=
    fun _ _ _ => ⟨fun _ h => schema.quiet_rows h, rfl⟩
  have hmethods : ∀ b ∈ q.sources, ∀ f, b.catalog.Offers f → f.Sound := by
    intro b hb f hf
    simp only [q, List.mem_cons, List.not_mem_nil, or_false] at hb
    rcases hb with rfl | rfl | rfl <;> exact (Catalog.standard_regular hf).sound
  have hintegers : ∀ row ∈ rows, ∃ i, row = [.integer i] := by simp [rows]
  have hnever : NeverFails q.filter q.sources [rows, rows, rows] .empty := by
    intro a ha
    obtain ⟨i, rfl⟩ := hintegers a ha
    refine ⟨_, rfl, fun _ b hb => ?_⟩
    obtain ⟨j, rfl⟩ := hintegers b hb
    refine ⟨_, rfl, fun _ c hc => ?_⟩
    obtain ⟨k, rfl⟩ := hintegers c hc
    exact ⟨_, rfl, fun _ => ⟨_, rfl⟩⟩
  have hselected : q.selected [rows, rows, rows] = [[[.integer 1], [.integer 2], [.integer 3]]] := by cbv
  have hfields : ∀ tuple ∈ q.selected [rows, rows, rows], ∃ values, q.project tuple = .ok values := by
    intro tuple htuple
    rw [hselected] at htuple
    cases List.mem_singleton.mp htuple
    exact ⟨_, rfl⟩
  obtain ⟨-, _, -, -, _, final, t, enough, hp, hrun, htables, -, hall⟩ :=
    joined_query_rows hbound rfl rfl (by simp [leaf, FromSource.isJoin]) rfl hgen rfl hwithin (Nat.le_refl _) hmethods
      (Machine.ready_init program)
      (.cons (hdelivers ..) (.cons (hdelivers ..) (.cons (hdelivers ..) .nil))) hnever hfields
  cases hp
  refine ⟨p, final, t, enough, hbound, hgen, hrun, htables, ?_⟩
  rw [hselected] at hall
  generalize t.rows.toList = written at hall
  cases hall with
  | cons hrow hnil =>
    cases hnil
    cases hrow
    rfl

end Joins

end TabularQuery
