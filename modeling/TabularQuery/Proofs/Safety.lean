import TabularQuery.Engine
import TabularQuery.Proofs.Scoping
import TabularQuery.Proofs.SoundGeneration
import TabularQuery.Source.Memory

/-!
Compiled programs do not go wrong. Whatever text was compiled, over whatever tables in memory, its
program never asks an empty stack for a value, never meets a value of the wrong kind and never writes a
row that its table refuses; stacks are empty wherever a row is read or a procedure ends, and counters
stay in range.
-/

namespace TabularQuery

/-! ### Memory -/

namespace MemorySchema

variable {F : Failures} {s : MemorySchema}

theorem rows_of_columns {files : Files} {method : String} {args : List Value} {columns : List Column}
    (h : s.toSchema.columns files method args = .ok columns) (context : SourceContext) (args' : List Value) :
    ∃ t : MemoryTable, s.toSchema.rows context method args' =
      .ok (t.rows.map fun row => .row (.positional (t.columns.map Column.name) row)) := by
  obtain ⟨t, ht, -⟩ := except_map_eq_ok.mp h
  refine ⟨t, ?_⟩
  simp only [toSchema, ht]
  rfl

theorem keeps_delivery (names : List String) (columns : List Column) (rows : List (List Value)) :
    ∀ x ∈ RowSource.delivery columns (rows.map fun row => .row (.positional names row)),
      Keeps F (RowFits columns) x := by
  induction rows with
  | nil => nofun
  | cons row rows ih =>
    rintro x hx
    rcases List.mem_cons.mp hx with rfl | hx
    · exact SourceRow.keeps_materialize columns _
    · exact ih x hx

theorem regular (hcatalog : s.catalog = .standard) (context : SourceContext) : s.toSchema.RegularIn F context where
  rows files method args columns hcolumns := by
    obtain ⟨t, ht⟩ := rows_of_columns hcolumns context args
    rw [ht]
    exact .ok ⟨quiet_rows ht, fun columns => keeps_delivery _ columns t.rows⟩
  methods f hf := (Catalog.standard_regular (hcatalog ▸ hf)).sound
  accumulators a ha := Catalog.standard_accumulates (hcatalog ▸ ha)

end MemorySchema

section InMemory

variable {F : Failures} {env : Environment}
variable (hmemory : ∀ entry ∈ env.registry.schemas, ∃ s : MemorySchema, s.catalog = .standard ∧ entry.2 = s.toSchema)

include hmemory

theorem Environment.schema_of_memory {name : String} {schema : Schema} (hschema : env.registry.schema name = .ok schema) :
    ∃ s : MemorySchema, s.catalog = .standard ∧ schema = s.toSchema :=
  hmemory _ (Registry.mem_of_schema hschema)

theorem Environment.regularIn_of_memory (context : SourceContext) : env.RegularIn F context := by
  intro name schema hschema
  obtain ⟨s, hcatalog, rfl⟩ := Environment.schema_of_memory hmemory hschema
  exact s.regular hcatalog context

/-- Schemas are regular without faults, and so are all their methods. -/
structure Environment.Regular (env : Environment) (context : SourceContext) : Prop where
  schemas : env.RegularIn .faultless context
  methods : ∀ name schema, env.registry.schema name = .ok schema → ∀ f, schema.catalog.Offers f → f.Regular

theorem Environment.regular_of_memory (context : SourceContext) : env.Regular context where
  schemas := Environment.regularIn_of_memory hmemory context
  methods name schema hschema f hf := by
    obtain ⟨s, hcatalog, rfl⟩ := Environment.schema_of_memory hmemory hschema
    exact Catalog.standard_regular (hcatalog ▸ hf)

theorem BoundSource.Known.catalog_of_memory {scopes : ScopeStack} {b : BoundSource} (h : b.Known env scopes) :
    b.catalog = .standard := by
  rcases h.catalog with hcatalog | ⟨name, schema, hschema, hcatalog⟩
  · exact hcatalog
  · obtain ⟨s, hstandard, rfl⟩ := Environment.schema_of_memory hmemory hschema
    exact hcatalog.trans hstandard

end InMemory

/-! ### Compiled programs -/

theorem sound_compile {env : Environment} {text : String} {p : Program} {context : SourceContext}
    (henv : env.Regular context) (h : compile env text = .ok p) (limit : Nat) :
    RunContext.Sound .faultless ⟨p, context, limit⟩ := by
  obtain ⟨xs, -, h⟩ := except_bind_eq_ok.mp h
  obtain ⟨b, hbind, h⟩ := except_bind_eq_ok.mp h
  refine sound_generate henv.schemas (fun q hq => ?_) (bind_ok hbind) h limit
  obtain ⟨x, -, s, s', hquery⟩ := exists_of_forall₂ (bind_queriesBound hbind).queries.flip hq
  obtain ⟨⟨entries, hquery⟩, -⟩ := Bind.query_ok hquery
  refine hquery.failsIn (fun f hf => ?_) fun _ _ => rfl
  obtain ⟨source, hsource, hf⟩ := hquery.offers hf
  rcases (hquery.sources.known source hsource).catalog with hcatalog | ⟨name, schema, hschema, hcatalog⟩ <;>
    rw [hcatalog] at hf
  · exact Catalog.standard_regular hf
  · exact henv.methods name schema hschema f hf

theorem Error.code_of_isFault {e : Error} (h : e.isFault = false) :
    e.code ≠ .internal ∧ e.code ≠ .kindMismatch ∧ e.code ≠ .stackUnderflow ∧ e.code ≠ .rowShape := by
  unfold isFault at h
  refine ⟨?_, ?_, ?_, ?_⟩ <;> intro hcode <;> rw [hcode] at h <;> cases h

/-- Text that compiles over tables in memory and the standard methods gives a program that does not go
wrong. Under any limit, stopped or not, it comes to an end; it does not fail for an internal reason, a
wrong kind of operand, an empty stack or a row of the wrong shape; and at every instruction that a run
comes to, rows are read and procedures end with empty stacks, and counters stay in range. -/
theorem compiled_text_safe {env : Environment} {text : String} {p : Program}
    (hmemory : ∀ entry ∈ env.registry.schemas, ∃ s : MemorySchema, s.catalog = .standard ∧ entry.2 = s.toSchema)
    (hcompile : compile env text = .ok p) (context : SourceContext) (limit : Nat) (cancelled : Bool) :
    (∃ enough, ∀ fuel, enough ≤ fuel → (p.run context limit cancelled fuel).isSome = true) ∧
    (∀ fuel r e, p.run context limit cancelled fuel = some r → r.result = .error e →
      e.code ≠ .internal ∧ e.code ≠ .kindMismatch ∧ e.code ≠ .stackUnderflow ∧ e.code ≠ .rowShape) ∧
    ∀ procedure m op, RunContext.Visits ⟨p, context, limit⟩ cancelled procedure m →
      Machine.fetch? procedure m = some op → op.Careful m.frame := by
  have hsound := sound_compile (Environment.regular_of_memory hmemory context) hcompile limit
  refine ⟨hsound.ends cancelled, fun fuel r e hrun he => ?_, fun procedure m op hvisits => hsound.safe hvisits op⟩
  exact Error.code_of_isFault (hsound.faultless hrun he)

/-- A join with a grouping, a definition and a set operation, over rows on which a sum overflows. -/
theorem compiled_text_safe_overflow :
    let largest : Value := .integer 9223372036854775807
    let schema : MemorySchema := ⟨"m", [("t", ⟨[⟨"n", .integer⟩, ⟨"x", .real⟩],
      [[largest, .real ⟨0x3ff0000000000000⟩], [largest, .integer 2], [.integer 0, .real ⟨0x4008000000000000⟩]]⟩)], .standard⟩
    let env : Environment := ⟨⟨[("m", schema.toSchema)]⟩, .empty⟩
    let text := "with c as (select n, Sum(x) as s from #m.t() group by n having Count(x) > 1 skip 0 take 5) " ++
      "select a.n + 1 as k, s from #m.t() a join c on a.n = c.n except (k) select n, x from #m.t() where 1 / n > 0"
    ∃ p, compile env text = .ok p ∧ ∀ context limit cancelled,
      (∃ enough, ∀ fuel, enough ≤ fuel → (p.run context limit cancelled fuel).isSome = true) ∧
      (∀ fuel r e, p.run context limit cancelled fuel = some r → r.result = .error e →
        e.code ≠ .internal ∧ e.code ≠ .kindMismatch ∧ e.code ≠ .stackUnderflow ∧ e.code ≠ .rowShape) ∧
      ∀ procedure m op, RunContext.Visits ⟨p, context, limit⟩ cancelled procedure m →
        Machine.fetch? procedure m = some op → op.Careful m.frame := by
  intro largest schema env text
  have hmemory : ∀ entry ∈ env.registry.schemas, ∃ s : MemorySchema, s.catalog = .standard ∧ entry.2 = s.toSchema := by
    intro entry hentry
    cases List.mem_singleton.mp hentry
    exact ⟨schema, rfl, rfl⟩
  have hok : (compile env text).isOk = true := by
    rw [compile, parse, tokenize_append]
    decide +kernel
  obtain ⟨p, hcompile⟩ := exists_of_isOk hok
  exact ⟨p, hcompile, compiled_text_safe hmemory hcompile⟩

end TabularQuery
