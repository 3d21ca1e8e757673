import TabularQuery.Proofs.GeneratedProcedures
import TabularQuery.Proofs.GroupRun
import TabularQuery.Proofs.ProgramRun
import TabularQuery.Proofs.SetRun
import TabularQuery.Proofs.StandardMethods

/-!
Generation of sound programs. Statements that were bound, over schemas whose rows and methods keep to
their declarations, become programs whose procedures are sound: queries, set operations and
descriptions, each in sight of the tables that its statement defined before. Their failures are those of
the sources and of the expressions of the queries.
-/

namespace TabularQuery

/-! ### Schemas -/

/-- Reading rows of a table that the schema describes has no other failures and leaves the stop flag alone; its methods
return what they promise, and its accumulators take what their parameters let pass. -/
structure Schema.RegularIn (F : Failures) (schema : Schema) (context : SourceContext) : Prop where
  rows : ∀ files method args columns, schema.columns files method args = .ok columns →
    Keeps F (fun feed => feed.Quiet ∧ ∀ columns, ∀ x ∈ feed.delivery columns, Keeps F (RowFits columns) x)
      (schema.rows context method args)
  methods : ∀ f, schema.catalog.Offers f → f.Sound
  accumulators : ∀ a ∈ schema.catalog.accumulators, a.Regular

/-- So it is with every schema of the environment. -/
def Environment.RegularIn (F : Failures) (env : Environment) (context : SourceContext) : Prop :=
  ∀ name schema, env.registry.schema name = .ok schema → schema.RegularIn F context

namespace BoundSource

variable {F : Failures} {env : Environment} {scopes : ScopeStack} {b : BoundSource} {ctx : RunContext} {g : GenerateState}
variable {m : Machine}

theorem Known.catalog (h : b.Known env scopes) :
    b.catalog = .standard ∨ ∃ name schema, env.registry.schema name = .ok schema ∧ b.catalog = schema.catalog := by
  unfold Known at h
  unfold BoundSource.catalog
  cases horigin : b.origin with
  | schema schema _ method args =>
    rw [horigin] at h
    obtain ⟨name, hschema, -⟩ := h
    exact .inr ⟨name, schema, hschema, rfl⟩
  | table name => exact .inl rfl

theorem sound_methods (henv : env.RegularIn F ctx.sources) (h : b.Known env scopes) {f : BoundFunction}
    (hf : b.catalog.Offers f) : f.Sound := by
  rcases h.catalog with hcatalog | ⟨name, schema, hschema, hcatalog⟩ <;> rw [hcatalog] at hf
  · exact (Catalog.standard_regular hf).sound
  · exact (henv name schema hschema).methods f hf

theorem regular_accumulators (henv : env.RegularIn F ctx.sources) (h : b.Known env scopes) {a : AccumulatorMethod}
    (ha : a ∈ b.catalog.accumulators) : a.Regular := by
  rcases h.catalog with hcatalog | ⟨name, schema, hschema, hcatalog⟩ <;> rw [hcatalog] at ha
  · exact Catalog.standard_accumulates ha
  · exact (henv name schema hschema).accumulators a ha

theorem exists_table (hgenerated : scopes.Generated g) (hwithin : g.tables <+: ctx.program.tables)
    (hfilled : m.Filled ctx.program g.tables.length) {key : String} {t : DefinedTable}
    (ht : scopes.definedTable? key = some t) :
    ∃ n t', g.defined.lookup (Text.lower t.name) = some n ∧ m.tablesBelow g.tables.length n = some t' ∧
      t'.Fits t.columns := by
  obtain ⟨-, n, d, hn, hd, hcolumns⟩ := hgenerated key t ht
  have hlt : n < g.tables.length := (List.getElem?_eq_some_iff.mp hd).1
  obtain ⟨t', ht', hfits⟩ := hfilled.table hlt (getElem?_of_isPrefix hwithin hd)
  refine ⟨n, t', hn, ?_, hcolumns ▸ hfits⟩
  rw [Machine.tablesBelow, if_pos hlt, ht']
  rfl

theorem readable_and_supplies (henv : env.RegularIn F ctx.sources) (h : b.Known env scopes)
    (hgenerated : scopes.Generated g) (hwithin : g.tables <+: ctx.program.tables)
    (hfilled : m.Filled ctx.program g.tables.length) :
    b.Readable ctx.sources g.defined (m.tablesBelow g.tables.length) ∧
      b.Supplies F (b.brings ctx.sources g.defined (m.tablesBelow g.tables.length)) := by
  unfold Known at h
  unfold Readable Supplies brings
  cases horigin : b.origin with
  | schema schema _ method args =>
    rw [horigin] at h
    obtain ⟨name, hschema, hcolumns⟩ := h
    have hrows := (henv name schema hschema).rows env.files method args b.columns hcolumns
    exact ⟨fun feed hfeed => (hrows.value feed hfeed).1, hrows.map fun feed hfeed => hfeed.2 b.columns⟩
  | table name =>
    rw [horigin] at h
    obtain ⟨key, t, ht, rfl, hcolumns⟩ := h
    obtain ⟨n, t', hn, ht', hfits⟩ := exists_table hgenerated hwithin hfilled ht
    have hrows : ∀ row ∈ t'.rows.toList, RowFits b.columns row := hcolumns ▸ hfits.rows
    refine ⟨⟨n, t', hn, ht', hrows⟩, ?_⟩
    simp only [hn, Option.bind_some, ht']
    refine .ok fun x hx => ?_
    obtain ⟨row, hrow, rfl⟩ := List.mem_map.mp hx
    exact .ok (hrows row hrow)

end BoundSource

/-! ### Queries -/

variable {env : Environment} {scopes : ScopeStack} {first n : Nat} {q : BoundQuery} {entries : SourceList} {ctx : RunContext}
variable {m : Machine} {d : TableDeclaration} {columns : List Column} {g g' : GenerateState} {op : SetOperator}
variable {keys : List Nat} {sites : SetSites} {name : String}

theorem QueryBound.gathers (h : QueryBound env scopes first q entries) {g : Grouping} (hg : q.grouping = some g) :
    q.Gathers g entries.Offers := by
  have hkeys := h.keys g hg
  have hhaving := h.having g hg
  have hfields := h.fields
  rw [h.sight_eq] at hkeys hhaving hfields
  refine ⟨hkeys, hhaving, hfields, fun i a ha => (h.slots i a ha).1, fun a ha => ?_⟩
  obtain ⟨i, hi⟩ := List.getElem?_of_mem ha
  have hargs := (h.slots i a hi).2.args
  rw [h.sight_eq] at hargs
  exact ⟨hargs, (h.slots i a hi).2.accepts⟩

/-- If all functions in sight are regular and mismatches are among the failures, a bound query has no others. -/
theorem QueryBound.failsIn {F : Failures} (h : QueryBound env scopes first q entries)
    (hmethods : ∀ f, entries.Offers f → f.RegularIn F)
    (hmismatch : ∀ wanted got, F.Has (.valueMismatch wanted got)) : q.FailsIn F where
  filter e he := e.failsIn_of_wellTyped hmethods hmismatch (h.filter e he).1
  conditions b hb e he := by
    obtain ⟨g, hg, hon⟩ := h.nested.condition hb
    exact e.failsIn_of_wellTyped (hg ▸ hmethods) hmismatch (hon e he).1
  keys g hg := TypedExpr.allFailIn_of_wellTyped hmethods hmismatch _ (h.keys g hg)
  having g hg e he := e.failsIn_of_wellTyped hmethods hmismatch (h.having g hg e he).1
  fields := TypedExpr.allFailIn_of_wellTyped hmethods hmismatch _ h.fields
  args a ha := by
    obtain ⟨i, hi⟩ := List.getElem?_of_mem ha
    exact TypedExpr.allFailIn_of_wellTyped hmethods hmismatch _ (h.slots i a hi).2.args

theorem Machine.Finishes.fills {p : Procedure} {P : Machine → Prop} {base : Machine}
    {r : Except Error Table}
    (h : Finishes ctx p P m r (Wrote ctx.program base n columns)) (hbase : base.Filled ctx.program n)
    (hready : base.Ready ctx.program) (hd : ctx.program.tables[n]? = some d) (hcolumns : d.columns = columns) :
    Finishes ctx p P m r fun _ m₁ => m₁.Ready ctx.program ∧ m₁.Filled ctx.program (n + 1) := by
  have hn : n < base.tables.length := by
    rw [hready.tables]
    exact (List.getElem?_eq_some_iff.mp hd).1
  unfold Finishes at h ⊢
  refine h.mono (fun _ here => here) ?_
  rintro t m₁ - ⟨m₂, here, hhalt, hwrote⟩
  exact ⟨m₂, here, hhalt, hwrote.ready, hwrote.filled hbase hd hcolumns hn⟩

namespace BoundQuery

variable {F : Failures} {env : Environment} {scopes : ScopeStack} {first : Nat} {q : BoundQuery} {entries : SourceList}
variable {name : Option String} {sites : QuerySites} {g g' : GenerateState} {ctx : RunContext}

theorem sound_offers (hbound : QueryBound env scopes first q entries) (henv : env.RegularIn F ctx.sources)
    {f : BoundFunction} (hf : entries.Offers f) : f.Sound := by
  obtain ⟨b, hb, hf⟩ := hbound.offers hf
  exact b.sound_methods henv (hbound.sources.known b hb) hf

theorem regular_slots (hbound : QueryBound env scopes first q entries) (henv : env.RegularIn F ctx.sources)
    {a : AggregateSlot} (ha : a ∈ q.slots) : a.accumulator.Regular := by
  obtain ⟨i, hi⟩ := List.getElem?_of_mem ha
  obtain ⟨b, hb, ha⟩ := hbound.accumulates (hbound.slots i a hi).2.offered
  exact b.regular_accumulators henv (hbound.sources.known b hb) ha

theorem typed_fields (hbound : QueryBound env scopes first q entries) (hflat : q.grouping = none) :
    TypedExpr.AllWellTyped (.ofSources q.sources entries.Offers []) (q.fields.map BoundField.expr) := by
  have hfields := hbound.fields
  rwa [hbound.sight_eq, hbound.flat hflat] at hfields

theorem keeps_supplies (hbound : QueryBound env scopes first q entries) (henv : env.RegularIn F ctx.sources)
    (hfails : q.FailsIn F) {T : Nat → Option Table}
    (hsupplies : ∀ b ∈ q.sources, b.Supplies F (b.brings ctx.sources g.defined T)) (t : Table) :
    Keeps F (fun _ => True) (Reader.exact.output q (Reader.exact.visits q.filter (q.supplies ctx.sources g.defined T) .empty) t) := by
  have hfst : (q.supplies ctx.sources g.defined T).map Prod.fst = q.sources := by
    simp [supplies, Function.comp_def]
  have hnested := hbound.nested
  rw [← hfst] at hnested
  have hloops : ∀ l ∈ q.supplies ctx.sources g.defined T, l.1.Supplies F l.2 ∧ ∀ e ∈ l.1.on, e.FailsIn F q.slots := by
    intro l hl
    obtain ⟨b, hb, rfl⟩ := List.mem_map.mp hl
    exact ⟨hsupplies b hb, hfails.conditions b hb⟩
  have hempty : Scene.empty.Fits ⟨[], [], entries.Offers⟩ :=
    (Scene.fits_empty entries.Offers).ofBare fun f hf => sound_offers hbound henv hf
  have hevents := keeps_visits rfl hfails.filter _ hnested (fun l hl => (hloops l hl).1) (fun l hl => (hloops l hl).2) hempty
  have hsight : q.sources.foldl Sight.add ⟨[], [], entries.Offers⟩ = .ofSources q.sources entries.Offers [] :=
    Sight.foldl_add [] q.sources entries.Offers
  rw [hfst, hsight] at hevents
  exact keeps_output hfails (typed_fields hbound) (fun g hg => hbound.gathers hg)
    (fun a ha => regular_slots hbound henv ha) hevents t

/-- The procedure of a bound query writes what a reader makes of the query's sources. -/
theorem Generated.finishes_reader (hgen : q.Generated name sites g g') (hbound : QueryBound env scopes first q entries)
    (ctx : RunContext) (hlimit : ctx.limit = 0) {r : Reader}
    (hr : r.Runs ctx ⟨q.name, (q.code sites).toArray⟩ entries.Offers) (hwithin : g'.Within ctx.program)
    (hcursors : first + q.sources.length ≤ ctx.program.cursorCount) {m : Machine}
    (hreadable : ∀ b ∈ q.sources, b.Readable ctx.sources g.defined (m.tablesBelow g.tables.length))
    (hready : m.Ready ctx.program) (haddr : m.address = some 0) :
    Machine.Finishes ctx ⟨q.name, (q.code sites).toArray⟩ (Machine.Safe ⟨q.name, (q.code sites).toArray⟩) m
      (r.output q (r.visits q.filter (q.supplies ctx.sources g.defined (m.tablesBelow g.tables.length)) .empty)
        (q.declaration name).table)
      (Machine.Wrote ctx.program m g.tables.length (q.fields.map BoundField.column)) := by
  have hplaced := placed hbound hgen hwithin hcursors hreadable
  have hothers := m.others_tablesBelow g.tables.length
  rw [← hgen.map_loops]
  rw [← hgen.table] at hothers hplaced ⊢
  cases hgrouping : q.grouping with
  | none =>
    rw [Reader.output, hgrouping]
    exact Machine.finishes_flat hlimit hr hplaced hgrouping hready hothers (typed_fields hbound hgrouping)
      (.ofCode _ _) haddr
  | some grouping =>
    refine Machine.finishes_grouped hlimit hr hplaced hgrouping ?_ (hbound.gathers hgrouping) hready hothers
      (.ofCode _ _) haddr
    refine getElem?_of_isPrefix hwithin.groupings ?_
    rw [hgen.groupings, hgen.group (by rw [hgrouping]; rfl), hgrouping]
    exact List.getElem?_concat_length

theorem Generated.finishes (hgen : q.Generated name sites g g') (hbound : QueryBound env scopes first q entries)
    (ctx : RunContext) (hlimit : ctx.limit = 0) (hwithin : g'.Within ctx.program)
    (hcursors : first + q.sources.length ≤ ctx.program.cursorCount) {m : Machine}
    (hreadable : ∀ b ∈ q.sources, b.Readable ctx.sources g.defined (m.tablesBelow g.tables.length))
    (hmethods : ∀ f, entries.Offers f → f.Sound) (hready : m.Ready ctx.program) (haddr : m.address = some 0) :
    Machine.Finishes ctx ⟨q.name, (q.code sites).toArray⟩ (Machine.Safe ⟨q.name, (q.code sites).toArray⟩) m
      (Reader.exact.output q (Reader.exact.visits q.filter (q.supplies ctx.sources g.defined (m.tablesBelow g.tables.length)) .empty)
        (q.declaration name).table)
      (Machine.Wrote ctx.program m g.tables.length (q.fields.map BoundField.column)) :=
  hgen.finishes_reader hbound ctx hlimit (Reader.runs_exact hlimit _ hmethods) hwithin hcursors hreadable hready haddr

theorem Generated.sound (hgen : q.Generated name sites g g') (hbound : QueryBound env scopes first q entries)
    (henv : env.RegularIn F ctx.sources) (hfails : q.FailsIn F) (hscopes : scopes.Generated g)
    (hwithin : g'.Within ctx.program) (hcursors : first + q.sources.length ≤ ctx.program.cursorCount) :
    Procedure.Sound F ctx g.tables.length ⟨q.name, (q.code sites).toArray⟩ := by
  intro m hready hfilled haddr
  have hsource : ∀ b ∈ q.sources, b.Readable ctx.sources g.defined (m.tablesBelow g.tables.length) ∧
      b.Supplies F (b.brings ctx.sources g.defined (m.tablesBelow g.tables.length)) := by
    intro b hb
    exact BoundSource.readable_and_supplies henv (hbound.sources.known b hb) hscopes
      (hgen.grows.within hwithin).tables hfilled
  have hkeeps := keeps_supplies hbound henv hfails (fun b hb => (hsource b hb).2) (q.declaration name).table
  have hfinishes := hgen.finishes hbound { ctx with limit := 0 } rfl hwithin hcursors (fun b hb => (hsource b hb).1)
    (fun f hf => sound_offers hbound henv hf) hready haddr
  have hdeclared := (hgen.declared hwithin).table
  rw [hgen.table] at hdeclared
  exact ⟨_, hkeeps.failure, hfinishes.fills hfilled hready hdeclared rfl⟩

end BoundQuery

/-! ### Set operations -/

/-- The index that a set operation adds to its right operand does not change what is filled. -/
theorem Machine.Filled.indexRight {program : Program} {k : Nat} {right : Table} (h : m.Filled program n)
    (hd : program.tables[k]? = some d) (hfits : right.Fits d.columns) (op : SetOperator) (keys : List Nat) :
    (indexRight op keys k right m).Filled program n := by
  intro j hj
  obtain ⟨d', t, hd', ht, hfits'⟩ := h j hj
  rcases eq_or_ne k j with rfl | hne
  · have hlt : k < m.tables.length := (List.getElem?_eq_some_iff.mp ht).1
    exact ⟨d, _, hd, List.getElem?_set_self hlt, op.fits_probed keys hfits⟩
  · exact ⟨d', t, hd', (List.getElem?_set_ne hne).trans ht, hfits'⟩

theorem SetOperator.Placed.sound {F : Failures}
    {dl dr : TableDeclaration} (h : op.Placed ctx.program keys sites d dl.columns dr.columns)
    (hdl : ctx.program.tables[sites.left]? = some dl) (hdr : ctx.program.tables[sites.right]? = some dr)
    (hleft : sites.left < sites.output) (hright : sites.right < sites.output) (name : String) (keyId : Nat) :
    Procedure.Sound F ctx sites.output ⟨name, (op.code name keyId keys sites).toArray⟩ := by
  intro m hready hfilled haddr
  obtain ⟨left, hl, hlFits⟩ := hfilled.table hleft hdl
  obtain ⟨right, hr, hrFits⟩ := hfilled.table hright hdr
  refine ⟨.ok (op.combine keys left right (op.fresh keys d.table)), nofun, ?_⟩
  exact Machine.Finishes.fills (Machine.finishes_set rfl h hready hl hlFits hr hrFits (.ofCode _ _) haddr)
    (hfilled.indexRight hdr hrFits op keys) (hready.indexRight op keys _ right) h.table rfl

namespace Generate

open GenerateState

variable {F : Failures} {env : Environment} {scopes : ScopeStack} {limit : Nat} {ctx : RunContext} {g g' : GenerateState}
variable {op : SetOperator} {ownName : String} {keyId : Nat} {keys : List Nat} {left right : BoundSet}
variable {name : Option String} {n : Nat}

theorem placed_operation {sites : SetSites} {tableName : String} {dl dr : TableDeclaration}
    (h : op.Generated ownName keyId keys sites ⟨tableName, left.columns⟩ g g') (hwithin : g'.Within ctx.program)
    (hbound : (BoundSet.operation op ownName keyId keys left right).Bound env scopes limit)
    (hleft : dl.columns = left.columns) (hright : dr.columns = right.columns)
    (hlt : sites.left < sites.right) (hlt' : sites.right < sites.output) :
    op.Placed ctx.program keys sites ⟨tableName, left.columns⟩ dl.columns dr.columns := by
  obtain ⟨hbl, -, htypes, hkeys⟩ := hbound
  have hcolumns : ∀ s : BoundSet, s.columns.map Column.type = s.fields.map BoundField.type := by
    intro s
    rw [BoundSet.columns, List.map_map]
    rfl
  exact {
    table := getElem?_of_isPrefix hwithin.tables h.declared
    names := hbl.names
    keys := by simpa [BoundSet.columns] using hkeys
    leftTypes := by rw [hleft]
    rightTypes := by rw [hright, hcolumns, hcolumns, htypes]
    left_ne := by omega
    right_ne := by omega
    apart := by omega
    leftCursor := Nat.lt_of_lt_of_le h.leftCursor hwithin.cursors
    rightCursor := fun hop => Nat.lt_of_lt_of_le (h.rightCursor hop) hwithin.cursors }

theorem sound_describe {name source : String} {columns : List Column} {tableName : String}
    (hd : ctx.program.tables[n]? = some ⟨tableName, describeColumns⟩) :
    Procedure.Sound F ctx n ⟨name, (describeCode source columns n).toArray⟩ := by
  intro m hready hfilled haddr
  refine ⟨.ok (Table.describe (TableDeclaration.table ⟨tableName, describeColumns⟩) columns), nofun, ?_⟩
  have hlimit : RunContext.limit { ctx with limit := 0 } = 0 := rfl
  exact Machine.Finishes.fills (Machine.finishes_describe hlimit hd rfl hready (.ofCode _ _) haddr) hfilled hready hd rfl

end Generate

/-! ### Programs -/

theorem sound_rule {F : Failures} (henv : env.RegularIn F ctx.sources) :
    ProcedureRule env ctx.program (fun q => q.FailsIn F) (Procedure.Sound F ctx) where
  query hbound hfails hcursors hscopes _ hgen hwithin := by
    rw [hgen.table]
    exact hgen.sound hbound henv hfails hscopes hwithin hcursors
  operation hbound hgen hwithin hlt hlt' hdl hleft hdr hright :=
    (Generate.placed_operation hgen hwithin hbound hleft hright hlt hlt').sound hdl hdr (Nat.lt_trans hlt hlt') hlt' _ _
  description _ _ hd := Generate.sound_describe hd

/-- The program of bound statements is sound, whatever its limit. -/
theorem sound_generate {F : Failures} {b : BoundProgram} {p : Program} {context : SourceContext}
    (henv : env.RegularIn F context) (hfails : ∀ q ∈ b.queries, q.FailsIn F)
    (hbound : ∀ s ∈ b.statements, s.Bound env b.cursorCount) (h : generate b = .ok p) (limit : Nat) :
    RunContext.Sound F ⟨p, context, limit⟩ := by
  have hsources : env.RegularIn F (RunContext.sources ⟨p, context, limit⟩) := henv
  obtain ⟨g, n, last, rfl, hup, -, hends⟩ := (sound_rule hsources).generate h hbound hfails
  refine ⟨hup.procedures, ?_⟩
  have hn : n < g.procedures.length := by
    rw [hup.paired, ← hends.last]
    exact Nat.lt_succ_self n
  exact hn

end TabularQuery
