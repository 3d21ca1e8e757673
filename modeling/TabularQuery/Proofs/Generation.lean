import TabularQuery.Program.Generate
import TabularQuery.Proofs.Faults
import TabularQuery.Proofs.QueryBinding
import TabularQuery.Proofs.QueryRun

/-!
Generation of programs. Declarations are only ever added, so that the numbers in the code of a procedure
mean the same in the whole program; a query gets a table, registers and a grouping of its own, and for
each source an instruction that opens it.
-/

namespace TabularQuery

/-! ### Growth -/

namespace GenerateState

/-- `g'` has what `g` has, in the same places. -/
structure Grows (g g' : GenerateState) : Prop where
  procedures : g.procedures <+: g'.procedures
  tables : g.tables <+: g'.tables
  sources : g.sources <+: g'.sources
  groupings : g.groupings <+: g'.groupings
  cursors : g.cursorCount ≤ g'.cursorCount
  registers : g.registerCount ≤ g'.registerCount

/-- The program has what `g` has, in the same places. -/
structure Within (g : GenerateState) (p : Program) : Prop where
  procedures : g.procedures <+: p.procedures
  tables : g.tables <+: p.tables
  sources : g.sources <+: p.sources
  groupings : g.groupings <+: p.groupings
  cursors : g.cursorCount ≤ p.cursorCount
  registers : g.registerCount ≤ p.registerCount

variable {g g₁ g₂ : GenerateState} {p : Program}

theorem Grows.refl (g : GenerateState) : Grows g g :=
  ⟨List.prefix_rfl, List.prefix_rfl, List.prefix_rfl, List.prefix_rfl, Nat.le_refl _, Nat.le_refl _⟩

theorem Grows.trans (h : Grows g g₁) (h' : Grows g₁ g₂) : Grows g g₂ where
  procedures := h.procedures.trans h'.procedures
  tables := h.tables.trans h'.tables
  sources := h.sources.trans h'.sources
  groupings := h.groupings.trans h'.groupings
  cursors := Nat.le_trans h.cursors h'.cursors
  registers := Nat.le_trans h.registers h'.registers

theorem Grows.within (h : Grows g g₁) (h' : g₁.Within p) : g.Within p where
  procedures := h.procedures.trans h'.procedures
  tables := h.tables.trans h'.tables
  sources := h.sources.trans h'.sources
  groupings := h.groupings.trans h'.groupings
  cursors := Nat.le_trans h.cursors h'.cursors
  registers := Nat.le_trans h.registers h'.registers

end GenerateState

/-! ### Queries -/

/-- The instruction opens the source, among the row sources of a program and the defined tables. -/
def BoundSource.OpenedBy (b : BoundSource) (sources : List SourceBinding) (defined : List (String × Nat))
    (op : Instruction) : Prop :=
  match b.origin with
  | .schema schema name method args => ∃ (k : Nat) (comment : Option String),
      sources[k]? = some ⟨schema, name, method, args, b.columns⟩ ∧
        op = { opcode := .openSource, p1 := b.cursor, p2 := k, comment }
  | .table name => ∃ (n : Nat) (comment : Option String), defined.lookup (Text.lower name) = some n ∧
      op = { opcode := .openTable, p1 := b.cursor, p2 := n, comment }

/-- What generating a query adds to the state. -/
structure BoundQuery.Generated (q : BoundQuery) (name : Option String) (sites : QuerySites)
    (g g' : GenerateState) : Prop where
  procedures : g'.procedures = g.procedures ++ [⟨q.name, (q.code sites).toArray⟩]
  tables : g'.tables = g.tables ++ [⟨name.getD q.name, q.fields.map BoundField.column⟩]
  table : sites.table = g.tables.length
  sources : g.sources <+: g'.sources
  groupings : g'.groupings = g.groupings ++ (q.grouping.map (Generate.groupingDeclaration q)).toList
  group : q.grouping.isSome = true → sites.group = g.groupings.length
  skip : sites.skip = q.skip.map fun _ => g.registerCount
  take : sites.take = q.take.map fun _ => g.registerCount + q.skip.elim 0 fun _ => 1
  registers : g'.registerCount = g.registerCount + (q.skip.elim 0 fun _ => 1) + q.take.elim 0 fun _ => 1
  opens : List.Forall₂ (fun b op => b.OpenedBy g'.sources g.defined op) q.sources sites.opens
  nonempty : q.sources ≠ []
  cursors : g'.cursorCount = g.cursorCount
  defined : g'.defined = g.defined

namespace Generate

variable {g g' : GenerateState}

theorem register_ok {count : Option Int64} {r : Option Nat} (h : register count g = .ok r g') :
    r = count.map (fun _ => g.registerCount) ∧
      g' = { g with registerCount := g.registerCount + count.elim 0 fun _ => 1 } := by
  cases count <;> cases h <;> exact ⟨rfl, rfl⟩

theorem groupingNumber_ok {q : BoundQuery} {n : Nat} (h : groupingNumber q g = .ok n g') :
    (q.grouping.isSome = true → n = g.groupings.length) ∧ g' = { g with
      groupings := g.groupings ++ (q.grouping.map (groupingDeclaration q)).toList } := by
  unfold groupingNumber at h
  cases hgrouping : q.grouping with
  | none =>
    rw [hgrouping] at h
    cases h
    exact ⟨nofun, by simp⟩
  | some _ =>
    rw [hgrouping] at h
    cases h
    exact ⟨fun _ => rfl, rfl⟩

theorem openedBy_mono {b : BoundSource} {sources sources' : List SourceBinding}
    {defined : List (String × Nat)} {op : Instruction} (h : b.OpenedBy sources defined op)
    (hsources : sources <+: sources') : b.OpenedBy sources' defined op := by
  unfold BoundSource.OpenedBy at h ⊢
  split
  · rename_i horigin
    simp only [horigin] at h
    obtain ⟨k, comment, hk, hop⟩ := h
    exact ⟨k, comment, getElem?_of_isPrefix hsources hk, hop⟩
  · rename_i horigin
    simpa only [horigin] using h

theorem opening_ok {b : BoundSource} {op : Instruction} (h : opening b g = .ok op g') :
    b.OpenedBy g'.sources g.defined op ∧ ∃ more, g' = { g with sources := g.sources ++ more } := by
  unfold opening at h
  unfold BoundSource.OpenedBy
  cases horigin : b.origin with
  | schema schema name method args =>
    rw [horigin] at h
    replace h := eq_ok_of_bind h rfl
    obtain ⟨rfl, rfl⟩ := pure_eq_ok.mp h
    exact ⟨⟨_, _, List.getElem?_concat_length, rfl⟩, _, rfl⟩
  | table name =>
    rw [horigin] at h
    obtain ⟨n, hn, rfl⟩ := bind_pure_eq_ok.mp h
    replace hn := eq_ok_of_bind hn rfl
    cases hlookup : g.defined.lookup (Text.lower name) with
    | none =>
      rw [hlookup] at hn
      cases hn
    | some n' =>
      rw [hlookup] at hn
      obtain ⟨rfl, rfl⟩ := pure_eq_ok.mp hn
      exact ⟨⟨_, _, hlookup, rfl⟩, [], by simp⟩

theorem openings_ok {bs : List BoundSource} {ops : List Instruction}
    (h : openings bs g = .ok ops g') :
    List.Forall₂ (fun b op => b.OpenedBy g'.sources g.defined op) bs ops ∧
      ∃ more, g' = { g with sources := g.sources ++ more } := by
  induction bs generalizing g ops with
  | nil =>
    obtain ⟨rfl, rfl⟩ := pure_eq_ok.mp h
    exact ⟨.nil, [], by simp⟩
  | cons b bs ih =>
    obtain ⟨op, g₁, hop, h⟩ := bind_eq_ok.mp h
    obtain ⟨rest, hrest, rfl⟩ := bind_pure_eq_ok.mp h
    obtain ⟨hopened, more, rfl⟩ := opening_ok hop
    obtain ⟨hopenings, more', rfl⟩ := ih hrest
    refine ⟨.cons (openedBy_mono hopened (List.prefix_append _ _)) hopenings, more ++ more', ?_⟩
    simp

theorem query_ok {q : BoundQuery} {name : Option String} {n : Nat} (h : query q name g = .ok n g') :
    ∃ sites, q.Generated name sites g g' ∧ n = g.tables.length := by
  replace h := eq_ok_of_bind h rfl
  by_cases hempty : q.sources.isEmpty = true
  · rw [hempty] at h
    cases h
  · rw [Bool.not_eq_true] at hempty
    rw [hempty] at h
    obtain ⟨skip, g₂, hskip, h⟩ := bind_eq_ok.mp h
    obtain ⟨take, g₃, htake, h⟩ := bind_eq_ok.mp h
    obtain ⟨group, g₄, hgroup, h⟩ := bind_eq_ok.mp h
    obtain ⟨opens, g₅, hopens, h⟩ := bind_eq_ok.mp h
    replace h := eq_ok_of_bind h rfl
    obtain ⟨rfl, rfl⟩ := pure_eq_ok.mp h
    obtain ⟨rfl, rfl⟩ := register_ok hskip
    obtain ⟨rfl, rfl⟩ := register_ok htake
    obtain ⟨hnumber, rfl⟩ := groupingNumber_ok hgroup
    obtain ⟨hopened, more, rfl⟩ := openings_ok hopens
    refine ⟨⟨g.tables.length, _, _, group, opens⟩, ⟨rfl, rfl, rfl, ?_, rfl, hnumber, rfl, rfl, rfl, hopened,
      ?_, rfl, rfl⟩, rfl⟩
    · exact List.prefix_append _ _
    · simpa using hempty

end Generate

/-! ### What sources bring -/

theorem RowSource.fits_of_delivery {columns : List Column} {feed : RowSource} {row : List Value}
    (h : .ok row ∈ feed.delivery columns) : RowFits columns row := by
  induction feed with
  | nil => cases h
  | cons event feed ih =>
    cases event with
    | row r =>
      rcases List.mem_cons.mp h with h | h
      · exact (r.keeps_materialize (F := .faultless) columns).value row h.symm
      · exact ih h
    | failure e =>
      rcases List.mem_cons.mp h with h | h
      · cases h
      · exact ih h
    | cancel => exact ih h
    | checkpoint => exact ih h

namespace BoundSource

variable (b : BoundSource) (context : SourceContext) (defined : List (String × Nat))
variable (T : Nat → Option Table)

/-- What opening the source brings. -/
def brings : Except Error Delivery :=
  match b.origin with
  | .schema schema _ method args => RowSource.delivery b.columns <$> schema.rows context method args
  | .table name => match (defined.lookup (Text.lower name)).bind T with
    | some t => .ok (t.rows.toList.map .ok)
    | none => .error (.tableUnknown name)

/-- The source leaves the stop flag alone, or it is a table that is there and whose rows fit. -/
def Readable : Prop :=
  match b.origin with
  | .schema schema _ method args => ∀ feed, schema.rows context method args = .ok feed → feed.Quiet
  | .table name => ∃ n t, defined.lookup (Text.lower name) = some n ∧ T n = some t ∧
      ∀ row ∈ t.rows.toList, RowFits b.columns row

variable {b context defined T} {ctx : RunContext} {op : Instruction}

theorem fits_brings (hreadable : b.Readable context defined T) {rows : Delivery}
    (hrows : b.brings context defined T = .ok rows) {row : List Value} (hrow : .ok row ∈ rows) : RowFits b.columns row := by
  unfold Readable at hreadable
  unfold brings at hrows
  cases horigin : b.origin with
  | schema schema name method args =>
    rw [horigin] at hrows
    obtain ⟨feed, -, rfl⟩ := except_map_eq_ok.mp hrows
    exact RowSource.fits_of_delivery hrow
  | table name =>
    rw [horigin] at hrows hreadable
    obtain ⟨n, t, hn, ht, hfits⟩ := hreadable
    simp only [hn, Option.bind_some, ht] at hrows
    cases hrows
    obtain ⟨row', hrow', hsame⟩ := List.mem_map.mp hrow
    cases hsame
    exact hfits row hrow'

theorem supplied (hopened : b.OpenedBy ctx.program.sources defined op)
    (hreadable : b.Readable ctx.sources defined T) {width : Nat} (hwidth : b.cursor < width) :
    Machine.Supplied ctx T width (op, b, b.brings ctx.sources defined T) := by
  have hfits : ∀ rows, b.brings ctx.sources defined T = .ok rows → ∀ row, .ok row ∈ rows → RowFits b.columns row :=
    fun _ hrows _ hrow => fits_brings hreadable hrows hrow
  unfold OpenedBy at hopened
  unfold Readable at hreadable
  unfold brings at hfits ⊢
  cases horigin : b.origin with
  | schema schema name method args =>
    rw [horigin] at hopened hreadable hfits
    obtain ⟨k, comment, hk, rfl⟩ := hopened
    exact ⟨hwidth, hfits, Machine.opens_source hk hreadable comment, rfl⟩
  | table name =>
    rw [horigin] at hopened hreadable hfits
    obtain ⟨n, comment, hn, rfl⟩ := hopened
    obtain ⟨n', t, hn', ht, -⟩ := hreadable
    rw [hn] at hn'
    cases hn'
    simp only [hn, Option.bind_some, ht] at hfits ⊢
    exact ⟨hwidth, hfits, Machine.opens_table ht comment, rfl⟩

end BoundSource

namespace BoundQuery

variable {env : Environment} {scopes : ScopeStack} {first : Nat} {q : BoundQuery} {entries : SourceList}
variable {name : Option String} {sites : QuerySites} {g g' : GenerateState} {ctx : RunContext}
variable {T : Nat → Option Table}

/-- The sources of a query, each with what it brings. -/
def supplies (q : BoundQuery) (context : SourceContext) (defined : List (String × Nat))
    (T : Nat → Option Table) : List (BoundSource × Except Error Delivery) :=
  q.sources.map fun b => (b, b.brings context defined T)

/-- The loops of a query, with the instructions that open its sources. -/
def loops (q : BoundQuery) (sites : QuerySites) (context : SourceContext) (defined : List (String × Nat))
    (T : Nat → Option Table) : List Machine.Loop :=
  (sites.opens.zip q.sources).map fun (op, b) => (op, b, b.brings context defined T)

theorem Generated.map_zip_opens (h : q.Generated name sites g g') :
    (sites.opens.zip q.sources).map Prod.fst = sites.opens ∧
      (sites.opens.zip q.sources).map Prod.snd = q.sources := by
  have hlen := h.opens.length_eq
  exact ⟨List.map_fst_zip (by omega), List.map_snd_zip (by omega)⟩

theorem Generated.map_loops (h : q.Generated name sites g g') (context : SourceContext)
    (T : Nat → Option Table) :
    (q.loops sites context g.defined T).map Prod.snd = q.supplies context g.defined T := by
  rw [loops, List.map_map, supplies]
  conv_rhs => rw [← h.map_zip_opens.2]
  rw [List.map_map]
  rfl

theorem Generated.grows (h : q.Generated name sites g g') : g.Grows g' where
  procedures := h.procedures ▸ List.prefix_append _ _
  tables := h.tables ▸ List.prefix_append _ _
  sources := h.sources
  groupings := h.groupings ▸ List.prefix_append _ _
  cursors := Nat.le_of_eq h.cursors.symm
  registers := by rw [h.registers]; omega

/-- The declaration of the query's table. -/
def declaration (q : BoundQuery) (name : Option String) : TableDeclaration :=
  ⟨name.getD q.name, q.fields.map BoundField.column⟩

theorem Generated.declared (h : q.Generated name sites g g') {p : Program} (hwithin : g'.Within p) :
    sites.Declared p q (q.declaration name) where
  table := by
    refine getElem?_of_isPrefix hwithin.tables ?_
    rw [h.tables, h.table]
    exact List.getElem?_concat_length
  columns := rfl
  skip := by rw [h.skip, Option.isSome_map]
  take := by rw [h.take, Option.isSome_map]
  skip_lt r hr := by
    have hle := hwithin.registers
    rw [h.registers] at hle
    rw [h.skip] at hr
    obtain ⟨n, hn, rfl⟩ := Option.map_eq_some_iff.mp hr
    rw [hn, Option.elim_some] at hle
    omega
  take_lt r hr := by
    have hle := hwithin.registers
    rw [h.registers] at hle
    rw [h.take] at hr
    obtain ⟨n, hn, rfl⟩ := Option.map_eq_some_iff.mp hr
    rw [hn, Option.elim_some] at hle
    omega
  apart r hs ht := by
    rw [h.skip] at hs
    rw [h.take] at ht
    obtain ⟨n, hn, rfl⟩ := Option.map_eq_some_iff.mp hs
    obtain ⟨k, hk, hr⟩ := Option.map_eq_some_iff.mp ht
    rw [hn, Option.elim_some] at hr
    omega

/-- A query that was bound and generated is placed in every program that goes on from there. -/
theorem placed (hbound : QueryBound env scopes first q entries) (hgen : q.Generated name sites g g')
    (hwithin : g'.Within ctx.program) (hcursors : first + q.sources.length ≤ ctx.program.cursorCount)
    (hreadable : ∀ b ∈ q.sources, b.Readable ctx.sources g.defined T) :
    q.Placed ctx T entries.Offers sites (q.declaration name) (q.loops sites ctx.sources g.defined T) where
  declared := hgen.declared hwithin
  names := hbound.names
  sources := by
    rw [loops, List.map_map]
    exact hgen.map_zip_opens.2
  opens := by
    rw [loops, List.map_map]
    exact hgen.map_zip_opens.1
  supplied l hl := by
    obtain ⟨⟨op, b⟩, hmem, rfl⟩ := List.mem_map.mp hl
    have hb : b ∈ q.sources := (List.of_mem_zip hmem).2
    have hcursor : b.cursor ∈ List.range' first q.sources.length :=
      hbound.sources.cursors ▸ List.mem_map_of_mem hb
    have hopened : b.OpenedBy g'.sources g.defined op := List.forall₂_zip hgen.opens.flip hmem
    refine BoundSource.supplied (Generate.openedBy_mono hopened hwithin.sources) (hreadable b hb) ?_
    rw [List.mem_range'_1] at hcursor
    omega
  nested := hbound.nested

end BoundQuery

end TabularQuery
