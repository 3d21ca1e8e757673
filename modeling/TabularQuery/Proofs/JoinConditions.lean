import TabularQuery.Proofs.Grammar
import TabularQuery.Proofs.Outcomes
import TabularQuery.Proofs.Resolution
import TabularQuery.Proofs.SelectedRows

/-!
What becomes of join conditions. A join gives its condition to the last source of its right side. If the right side is a
join too, that source has a condition already, and it is lost; so nothing is lost exactly if joins nest to the left, as
they do in every text. The tuples that a query goes through meet the conditions that were kept.
-/

namespace TabularQuery

/-! ### Conditions of a FROM clause -/

namespace FromSource

/-- The conditions of all joins. -/
def conditions : FromSource → List Expr
  | .schema .. | .named .. => []
  | .join left right on => left.conditions ++ right.conditions ++ [on]

/-- The condition of the outermost join. -/
def condition? : FromSource → Option Expr
  | .schema .. | .named .. => none
  | .join _ _ on => some on

/-- The conditions of joins that are the right side of a join. -/
def lost : FromSource → List Expr
  | .schema .. | .named .. => []
  | .join left right _ => left.lost ++ right.lost ++ right.condition?.toList

/-- No join is the right side of a join. -/
def isLeftDeep : FromSource → Bool
  | .schema .. | .named .. => true
  | .join left right _ => left.isLeftDeep && !right.isJoin

theorem kept_eq (x : FromSource) : x.kept = x.kept.dropLast ++ [x.condition?] := by
  cases x with
  | schema | named => rfl
  | join left right on => simp [kept, condition?]

theorem reduceOption_kept (x : FromSource) :
    x.kept.reduceOption = x.kept.dropLast.reduceOption ++ x.condition?.toList := by
  conv_lhs => rw [kept_eq]
  rw [List.reduceOption_append]
  cases x.condition? <;> rfl

theorem perm_conditions (x : FromSource) : (x.kept.reduceOption ++ x.lost).Perm x.conditions := by
  induction x with
  | schema | named => exact .nil
  | join left right on ihl ihr =>
    rw [reduceOption_kept] at ihr
    rw [← Multiset.coe_eq_coe] at ihl ihr ⊢
    simp only [kept, lost, conditions, List.reduceOption_append, ← Multiset.coe_add] at ihl ihr ⊢
    rw [← ihl, ← ihr]
    show _ + (([on] : List Expr) : Multiset Expr) + _ = _
    abel

theorem lost_eq_nil_iff (x : FromSource) : x.lost = [] ↔ x.isLeftDeep = true := by
  induction x with
  | schema | named => exact ⟨fun _ => rfl, fun _ => rfl⟩
  | join left right on ihl ihr =>
    rw [lost, isLeftDeep, Bool.and_eq_true, ← ihl, List.append_eq_nil_iff, List.append_eq_nil_iff]
    cases right <;> simp [lost, condition?, isJoin]

/-- Joins of a text nest to the left. -/
theorem isLeftDeep_of_phrase {w : List Token} {x : FromSource} (h : Grammar.FromPhrase w x) : x.isLeftDeep = true := by
  induction h with
  | source source => cases source <;> rfl
  | join left words right isOn condition ih =>
    rw [isLeftDeep, ih]
    cases right <;> rfl

end FromSource

/-! ### The tuples that are visited -/

theorem mem_guarded {α : Type} {test : Except Error Bool} {rest : List (Except Error α)} {a : α}
    (h : .ok a ∈ guarded test rest) : test = .ok true ∧ .ok a ∈ rest := by
  unfold guarded at h
  split at h
  · cases List.mem_singleton.mp h
  · exact ⟨rfl, h⟩
  · cases h

theorem mem_eachRow {α : Type} {rows : Delivery} {inside : List Value → List (Except Error α)} {a : α}
    (h : .ok a ∈ eachRow rows inside) : ∃ row, .ok row ∈ rows ∧ .ok a ∈ inside row := by
  obtain ⟨event, hevent, h⟩ := List.mem_flatMap.mp h
  cases event with
  | error e => cases List.mem_singleton.mp h
  | ok row => exact ⟨row, hevent, h⟩

/-- The row is one of those that the source brings. -/
def Brought (supply : BoundSource × Except Error Delivery) (row : List Value) : Prop :=
  ∃ rows, supply.2 = .ok rows ∧ .ok row ∈ rows

/-- A scene that is visited is that of a tuple of rows, and all conditions hold in it. -/
theorem Reader.Runs.mem_visits {r : Reader} {ctx : RunContext} {p : Procedure} {methods : BoundFunction → Prop}
    (hr : r.Runs ctx p methods) {filter : Option TypedExpr} {supplies : List (BoundSource × Except Error Delivery)}
    {g : Sight} {s scene : Scene} (hnested : g.Nested filter (supplies.map Prod.fst)) (hs : s.Fits g.bare)
    (hfits : ∀ supply ∈ supplies, ∀ row, Brought supply row → RowFits supply.1.columns row)
    (h : .ok scene ∈ r.visits filter supplies s) :
    ∃ tuple, List.Forall₂ Brought supplies tuple ∧ scene = s.putAll (supplies.map Prod.fst) tuple ∧
      (∀ supply ∈ supplies, r.passes scene supply.1.on = .ok true) ∧ r.passes scene filter = .ok true := by
  induction supplies generalizing g s with
  | nil =>
    obtain ⟨htest, h⟩ := mem_guarded h
    cases List.mem_singleton.mp h
    exact ⟨[], .nil, rfl, nofun, htest⟩
  | cons supply supplies ih =>
    obtain ⟨source, _ | rows⟩ := supply
    · cases List.mem_singleton.mp h
    · obtain ⟨row, hrow, h⟩ := mem_eachRow h
      obtain ⟨htest, h⟩ := mem_guarded h
      obtain ⟨hnew, hon, hrest⟩ := hnested
      have hbrought : Brought (source, .ok rows) row := ⟨rows, rfl, hrow⟩
      have hput : (s.put source.cursor row).Fits (g.add source).bare :=
        hs.put hnew (hfits _ List.mem_cons_self row hbrought)
      obtain ⟨tuple, htuple, rfl, hall, hfilter⟩ :=
        ih hrest hput (fun supply hsupply => hfits supply (List.mem_cons_of_mem _ hsupply)) h
      -- Later rows are those of other cursors, so that the test comes out as it did.
      have hagree := Scene.agree_putAll (supplies.map Prod.fst) tuple (s.put source.cursor row) hrest.new
      have hsame := hr.passes_congr hon (hput.of_agree ⟨fun c columns hc => (hagree.rows c columns hc).symm,
        fun k hk => (hagree.slots k hk).symm⟩) hagree
      exact ⟨row :: tuple, .cons hbrought htuple, rfl, List.forall_mem_cons.mpr ⟨hsame.trans htest, hall⟩, hfilter⟩

/-! ### Joined queries -/

section Joined

variable {env : Environment} {written : Query} {s s' : BindState} {q : BoundQuery}

/-- The sources of a query have the conditions that its FROM clause keeps, each in sight of the sources up to its own.
Together with those that are lost they are the written ones, and none is lost exactly if joins nest to the left, as in
every text. The procedure of the query goes through tuples of rows in which all the conditions kept hold. -/
theorem joins_test_kept (hbound : Bind.query env written s = .ok q s') :
    JoinsResolve [] written.source.kept q.sources ∧
    (written.source.kept.reduceOption ++ written.source.lost).Perm written.source.conditions ∧
    (written.source.lost = [] ↔ written.source.isLeftDeep = true) ∧
    (∀ w, Grammar.FromPhrase w written.source → written.source.isLeftDeep = true) ∧
    ∀ (name : Option String) (g g' : GenerateState) (table : Nat) (ctx : RunContext) (m : Machine),
      Generate.query q name g = .ok table g' → ctx.limit = 0 → g'.Within ctx.program →
      s'.cursors ≤ ctx.program.cursorCount → m.Ready ctx.program →
      (∀ b ∈ q.sources, b.Readable ctx.sources g.defined (m.tablesBelow g.tables.length)) →
      let supplies := q.supplies ctx.sources g.defined (m.tablesBelow g.tables.length)
      let events := Reader.popped.visits q.filter supplies .empty
      (∃ p, g'.procedures = g.procedures ++ [p] ∧
        Machine.Executes ctx [p] m (Reader.popped.output q events (q.declaration name).table)
          fun t m₁ => m₁.tables = m.tables.set table (some t)) ∧
      ∀ scene, .ok scene ∈ events → ∃ tuple, List.Forall₂ Brought supplies tuple ∧
        scene = .ofRows q.sources tuple ∧ ∀ b ∈ q.sources, ∀ c, b.on = some c → Reader.popped.test scene c = .ok true := by
  refine ⟨(Bind.query_resolves hbound).joins, written.source.perm_conditions, written.source.lost_eq_nil_iff,
    fun _ => FromSource.isLeftDeep_of_phrase, ?_⟩
  intro name g g' table ctx m hgen hlimit hwithin hcursors hready hreadable supplies events
  obtain ⟨⟨entries, hquery⟩, -, -, -, hs'⟩ := Bind.query_ok hbound
  obtain ⟨sites, hgenerated, rfl⟩ := Generate.query_ok hgen
  have hruns := Reader.runs_popped hlimit ⟨q.name, (q.code sites).toArray⟩ entries.Offers
  constructor
  · have hfinishes := hgenerated.finishes_reader hquery ctx hlimit hruns hwithin (hs' ▸ hcursors)
      (m := { m with address := some 0 }) hreadable hready.start rfl
    exact ⟨_, hgenerated.procedures, (Machine.Executes.single hfinishes hready.running).mono fun _ _ hwrote => hwrote.tables⟩
  · intro scene hscene
    have hfst : supplies.map Prod.fst = q.sources := by simp [supplies, BoundQuery.supplies, Function.comp_def]
    have hnested := hquery.nested
    rw [← hfst] at hnested
    have hfits : ∀ supply ∈ supplies, ∀ row, Brought supply row → RowFits supply.1.columns row := by
      rintro supply hsupply row ⟨rows, hrows, hrow⟩
      obtain ⟨b, hb, rfl⟩ := List.mem_map.mp hsupply
      exact BoundSource.fits_brings (hreadable b hb) hrows hrow
    obtain ⟨tuple, htuple, rfl, hall, -⟩ := hruns.mem_visits hnested (Scene.fits_empty entries.Offers) hfits hscene
    rw [hfst] at hall ⊢
    refine ⟨tuple, htuple, rfl, fun b hb c hc => ?_⟩
    have hpasses := hall _ (List.mem_map_of_mem hb)
    rwa [hc] at hpasses

/-- Joins on both sides over the rows 1 and 2. The conditions of the left join and of the outer one are kept, that of the
right join is lost, so that eight tuples are gone through and not only the four in which `c.n` is `d.n`. -/
theorem joins_test_kept_both_sides :
    let rows : List (List Value) := [[.integer 1], [.integer 2]]
    let schema : MemorySchema := ⟨"m", [("t", ⟨[⟨"n", .integer⟩], rows⟩)], .standard⟩
    let leaf (aliasName : String) : FromSource := .schema ⟨"m", "t", []⟩ (some aliasName)
    let n (aliasName : String) : Expr := .column (some aliasName) "n"
    let written : Query := ⟨[.field (n "a") none],
      .join (.join (leaf "a") (leaf "b") (.binary .le (n "a") (n "b")))
        (.join (leaf "c") (leaf "d") (.binary .eq (n "c") (n "d"))) (.binary .le (n "b") (n "d")), none, none, none, none⟩
    let column (cursor : Nat) : TypedExpr := .column cursor 0 "n" .integer
    let source (cursor : Nat) (aliasName : String) (on : Option TypedExpr) : BoundSource :=
      ⟨cursor, aliasName, .schema schema.toSchema "m" "t" [], [⟨"n", .integer⟩], on⟩
    let left : TypedExpr := .binary .le (column 0) (column 1) .boolean
    let outer : TypedExpr := .binary .le (column 1) (column 3) .boolean
    let q : BoundQuery := ⟨"Query1",
      [source 0 "a" none, source 1 "b" (some left), source 2 "c" none, source 3 "d" (some outer)],
      none, none, [⟨"a.n", column 0⟩], none, none, []⟩
    let events := Reader.popped.visits none (q.supplies ⟨.empty, 1⟩ [] fun _ => none) .empty
    Bind.query ⟨⟨[("m", schema.toSchema)]⟩, .empty⟩ written .init = .ok q ⟨[], 1, 4, 0, 0, ["m"]⟩ ∧
      JoinsResolve [] [none, some (.binary .le (n "a") (n "b")), none, some (.binary .le (n "b") (n "d"))] q.sources ∧
      written.source.lost = [.binary .eq (n "c") (n "d")] ∧ events.length = 8 ∧
      (∀ scene, .ok scene ∈ events → Reader.popped.test scene left = .ok true ∧ Reader.popped.test scene outer = .ok true) ∧
      ∃ p, let program : Program := ⟨[p], [⟨"Query1", [⟨"a.n", .integer⟩]⟩],
          .replicate 4 ⟨schema.toSchema, "m", "t", [], [⟨"n", .integer⟩]⟩, [], 4, 0, 0, []⟩
        Machine.Executes ⟨program, ⟨.empty, 1⟩, 0⟩ [p] (.init program false)
          (Reader.popped.output q events (q.declaration none).table) fun t m => m.tables = [some t] := by
  intro rows schema leaf n written column source left outer q events
  have hbound : Bind.query ⟨⟨[("m", schema.toSchema)]⟩, .empty⟩ written .init = .ok q ⟨[], 1, 4, 0, 0, ["m"]⟩ := by cbv
  let opening (i : Int) (aliasName : String) : Instruction :=
    { opcode := .openSource, p1 := i, p2 := i, comment := some ("#m.t() " ++ aliasName) }
  let p : Procedure := ⟨"Query1", (q.code ⟨0, none, none, 0,
    [opening 0 "a", opening 1 "b", opening 2 "c", opening 3 "d"]⟩).toArray⟩
  let program : Program := ⟨[p], [⟨"Query1", [⟨"a.n", .integer⟩]⟩],
    .replicate 4 ⟨schema.toSchema, "m", "t", [], [⟨"n", .integer⟩]⟩, [], 4, 0, 0, []⟩
  let ctx : RunContext := ⟨program, ⟨.empty, 1⟩, 0⟩
  let g' : GenerateState := ⟨[p], program.tables, program.sources, [], 4, 0, []⟩
  have hgen : Generate.query q none ⟨[], [], [], [], 4, 0, []⟩ = .ok 0 g' := rfl
  have hwithin : g'.Within program :=
    ⟨List.prefix_rfl, List.prefix_rfl, List.prefix_rfl, List.prefix_rfl, Nat.le_refl _, Nat.le_refl _⟩
  have hreadable : ∀ b ∈ q.sources, b.Readable ctx.sources [] ((Machine.init program false).tablesBelow 0) := by
    intro b hb
    simp only [q, List.mem_cons, List.not_mem_nil, or_false] at hb
    rcases hb with rfl | rfl | rfl | rfl <;> exact fun _ h => schema.quiet_rows h
  obtain ⟨hresolves, -, -, -, hruns⟩ := joins_test_kept hbound
  obtain ⟨⟨p', hp', hexecutes⟩, htests⟩ := hruns none _ g' 0 ctx (.init program false) hgen rfl hwithin (Nat.le_refl _)
    (Machine.ready_init program) hreadable
  cases hp'
  refine ⟨hbound, hresolves, rfl, by decide +kernel, fun scene hscene => ?_, p, ?_⟩
  · obtain ⟨tuple, -, -, hall⟩ := htests scene hscene
    exact ⟨hall (source 1 "b" (some left)) (by simp [q]) left rfl, hall (source 3 "d" (some outer)) (by simp [q]) outer rfl⟩
  · assumption

/-- A tuple is written in which a written condition does not hold: `1 = 2` is the condition of a join on the right. -/
theorem right_join_condition_lost :
    let schema : MemorySchema := ⟨"m", [("t", ⟨[⟨"n", .integer⟩], [[.integer 1]]⟩)], .standard⟩
    let env : Environment := ⟨⟨[("m", schema.toSchema)]⟩, .empty⟩
    let leaf (aliasName : String) : FromSource := .schema ⟨"m", "t", []⟩ (some aliasName)
    let equals (k : Int64) : Expr := .binary .eq (.literal (.integer 1)) (.literal (.integer k))
    let test (k : Int64) : TypedExpr := .binary .eq (.literal (.integer 1)) (.literal (.integer k)) .boolean
    let written : Query :=
      ⟨[.star], .join (leaf "a") (.join (leaf "b") (leaf "c") (equals 2)) (equals 1), none, none, none, none⟩
    let source (cursor : Nat) (aliasName : String) (on : Option TypedExpr) : BoundSource :=
      ⟨cursor, aliasName, .schema schema.toSchema "m" "t" [], [⟨"n", .integer⟩], on⟩
    let sources := [source 0 "a" none, source 1 "b" none, source 2 "c" (some (test 1))]
    written.source.conditions = [equals 2, equals 1] ∧ (equals 2).Denotes [] [] (test 2) ∧
      (∀ scene, Reader.popped.test scene (test 2) = .ok false) ∧
      Bind.query env written .init = .ok ⟨"Query1", sources, none, none, Bind.starFields (sources.map BoundSource.entry),
        none, none, []⟩ ⟨[], 1, 3, 0, 0, ["m"]⟩ ∧
      env.Yields ⟨.empty, 1⟩ [.query [] (.query written)]
        (.ok ([⟨"a.n", .integer⟩, ⟨"b.n", .integer⟩, ⟨"c.n", .integer⟩], [[.integer 1, .integer 1, .integer 1]])) := by
  intro schema env leaf equals test written source sources
  have henv : env.Quiet ⟨.empty, 1⟩ := Environment.quiet_of_memory _ schema _ _
  refine ⟨rfl, ⟨_, _, .boolean, rfl, rfl, rfl, rfl⟩, fun _ => rfl, by cbv, ?_⟩
  exact (Environment.yields_ok_iff henv).mpr (by decide +kernel)

end Joined

end TabularQuery
