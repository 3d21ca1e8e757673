import TabularQuery.Proofs.CodeLoops
import TabularQuery.Proofs.Independence
import TabularQuery.Source.Memory

/-!
Closed code. Operands number cursors, registers, tables, row sources, groupings and their slots. In the code of a program
that was generated every such number is below what the program declares, every jump stays in its procedure, which
ends in its only Halt, and a table is used only after the first instruction of a procedure has created it: procedure
`i` creates table `i` and uses no later one. Bound statements always become such a program, and its result is the table
of the last one.
-/

namespace TabularQuery

/-- What an operand can number. -/
inductive Numbered where
  | cursor
  | register
  | table
  | source
  | grouping
  /-- An accumulator of a grouping. -/
  | slot (grouping : Int)
  deriving DecidableEq

/-- The operands that number something, each with what it numbers. -/
def Instruction.numbers (op : Instruction) : List (Numbered × Int) :=
  match op.opcode with
  | .ifPos | .ifNotPos | .addImm | .setInteger => [(.register, op.p1)]
  | .openSource => [(.cursor, op.p1), (.source, op.p2)]
  | .openTable => [(.cursor, op.p1), (.table, op.p2)]
  | .next | .column => [(.cursor, op.p1)]
  | .resetGroups | .groupKey | .rewindGroups | .nextGroup => [(.grouping, op.p1)]
  | .accumulate | .aggregateValue => [(.grouping, op.p1), (.slot op.p1, op.p2)]
  | .createTable | .addIndex | .makeRecord => [(.table, op.p1)]
  | .found | .notFound | .copyRow => [(.cursor, op.p1), (.table, op.p3)]
  | _ => []

namespace Program

/-- How many of them the program declares. -/
def count (p : Program) : Numbered → Nat
  | .cursor => p.cursorCount
  | .register => p.registerCount
  | .table => p.tables.length
  | .source => p.sources.length
  | .grouping => p.groupings.length
  | .slot grouping => (((place? grouping).bind (p.groupings[·]?)).map fun d => d.slots.length).getD 0

/-- Procedure `i` creates the table before it does anything else. -/
def Creates (p : Program) (i table : Nat) : Prop :=
  ∃ procedure op, p.procedures[i]? = some procedure ∧ procedure.code[0]? = some op ∧ op.opcode = .createTable ∧
    op.p1 = (table : Int)

theorem count_slot {p : Program} {grouping : Nat} {d : GroupingDeclaration} (h : p.groupings[grouping]? = some d) :
    p.count (.slot grouping) = d.slots.length := by
  simp [count, h]

end Program

namespace Instruction

/-- The instruction at address `a` goes on and jumps to `last` at most, its numbers are those of what the program
declares, and the tables that it uses are those before `table`, or that one after the first instruction. -/
structure Closed (program : Program) (table last a : Nat) (op : Instruction) : Prop where
  goesOn : op.opcode ≠ .halt
  jumps : op.opcode.isJump = true → ∃ target : Nat, op.p2 = target ∧ target ≤ last
  declared : ∀ x ∈ op.numbers, ∃ n : Nat, x.2 = n ∧ n < program.count x.1
  tables : op.opcode ≠ .createTable → ∀ x ∈ op.numbers, x.1 = .table → ∃ n : Nat, x.2 = n ∧ (n < table ∨ n = table ∧ 0 < a)

variable {program : Program} {table last a : Nat} {op : Instruction}

/-- An instruction that numbers nothing is closed if its jump is. -/
theorem Closed.of_numbers (hnumbers : op.numbers = []) (hhalt : op.opcode ≠ .halt)
    (hjumps : op.opcode.isJump = true → ∃ target : Nat, op.p2 = target ∧ target ≤ last) : Closed program table last a op where
  goesOn := hhalt
  jumps := hjumps
  declared := by simp [hnumbers]
  tables := by simp [hnumbers]

theorem Closed.plain (hnumbers : op.numbers = []) (hhalt : op.opcode ≠ .halt) (hjump : op.opcode.isJump = false) :
    Closed program table last a op :=
  .of_numbers hnumbers hhalt (by simp [hjump])

theorem Closed.jump (hnumbers : op.numbers = []) (hhalt : op.opcode ≠ .halt) {target : Nat} (htarget : op.p2 = target)
    (hle : target ≤ last) : Closed program table last a op :=
  .of_numbers hnumbers hhalt fun _ => ⟨target, htarget, hle⟩

theorem closed_createTable (htable : table < program.tables.length) (comment : Option String) :
    Closed program table last a { opcode := .createTable, p1 := table, comment } := by
  constructor <;> simp [numbers, Opcode.isJump, Program.count, htable]

theorem closed_opening {b : BoundSource} {defined : List (String × Nat)} (h : b.OpenedBy program.sources defined op)
    (hcursor : b.cursor < program.cursorCount) (hdefined : ∀ entry ∈ defined, entry.2 < table)
    (htable : table < program.tables.length) : Closed program table last a op := by
  unfold BoundSource.OpenedBy at h
  cases horigin : b.origin with
  | schema =>
    rw [horigin] at h
    obtain ⟨k, comment, hk, rfl⟩ := h
    have hlt : k < program.sources.length := (List.getElem?_eq_some_iff.mp hk).1
    constructor <;> simp [numbers, Opcode.isJump, Program.count, hcursor, hlt]
  | table name =>
    rw [horigin] at h
    obtain ⟨n, comment, hn, rfl⟩ := h
    obtain ⟨before, after, hsplit, -⟩ := List.lookup_eq_some_iff.mp hn
    have hlt : n < table := hdefined (Text.lower name, n) (by simp [hsplit])
    constructor <;> simp [numbers, Opcode.isJump, Program.count, hcursor, hlt, Nat.lt_trans hlt htable]

end Instruction

open Instruction (Closed)

/-! ### Queries -/

/-- The numbers in the code of a query are those of what the program declares. -/
structure BoundQuery.Numbered (q : BoundQuery) (program : Program) (sites : QuerySites) : Prop where
  table : sites.table < program.tables.length
  skip : ∀ r, sites.skip = some r → r < program.registerCount
  take : ∀ r, sites.take = some r → r < program.registerCount
  cursors : ∀ b ∈ q.sources, b.cursor < program.cursorCount
  group : q.grouping.isSome = true → ∃ d, program.groupings[sites.group]? = some d ∧ d.slots.length = q.slots.length

/-- What works for a query is closed, if the program declares what the query uses. -/
theorem Instruction.InQuery.closed {program : Program} {q : BoundQuery} {sites : QuerySites} {supplies : List Supply}
    {heads : List Nat} {last a : Nat} {op : Instruction} (h : op.InQuery q sites supplies heads last a)
    (hq : q.Numbered program sites) : Closed program sites.table last a op := by
  have hjumps : op.opcode.isJump = true → ∃ target : Nat, op.p2 = target ∧ target ≤ last := by
    intro hjump
    obtain ⟨target, htarget, -, hle⟩ := h.jumps hjump
    exact ⟨target, htarget, hle⟩
  cases h.works with
  | free hop =>
    have hnumbers : op.numbers = [] ∧ op.opcode ≠ .halt := by
      unfold numbers
      revert hop
      cases op.opcode <;> simp [Opcode.isFree]
    exact .of_numbers hnumbers.1 hnumbers.2 hjumps
  | cursor hop b hb hcursor =>
    have hlt : b.cursor < program.cursorCount := hq.cursors b hb
    refine ⟨?_, hjumps, ?_, ?_⟩ <;> rcases hop with hop | hop <;> simp [numbers, Program.count, hop, hcursor, hlt]
  | count hop r hr hregister =>
    have hlt : r < program.registerCount := hr.elim (hq.skip r) (hq.take r)
    have hnumbers : op.numbers = [(.register, op.p1)] ∧ op.opcode ≠ .halt := by
      unfold numbers
      revert hop
      cases op.opcode <;> simp [Opcode.isCount]
    refine ⟨hnumbers.2, hjumps, ?_, ?_⟩ <;> simp [hnumbers.1, hregister, Program.count, hlt]
  | record hop htable hlater =>
    refine ⟨by simp [hop], hjumps, ?_, ?_⟩ <;> simp [numbers, hop, htable, Program.count, hq.table, hlater]
  | groups hop hgrouped hgroup =>
    obtain ⟨d, hd, -⟩ := hq.group hgrouped
    have hlt : sites.group < program.groupings.length := (List.getElem?_eq_some_iff.mp hd).1
    refine ⟨?_, hjumps, ?_, ?_⟩ <;> rcases hop with hop | hop | hop <;> simp [numbers, hop, hgroup, Program.count, hlt]
  | nextGroup hop hgrouped hgroup =>
    obtain ⟨d, hd, -⟩ := hq.group hgrouped
    have hlt : sites.group < program.groupings.length := (List.getElem?_eq_some_iff.mp hd).1
    refine ⟨by simp [hop], hjumps, ?_, ?_⟩ <;> simp [numbers, hop, hgroup, Program.count, hlt]
  | slot hop hgrouped hgroup k hslot hlt =>
    obtain ⟨d, hd, hlength⟩ := hq.group hgrouped
    have hgroups : sites.group < program.groupings.length := (List.getElem?_eq_some_iff.mp hd).1
    have hslots : k < program.count (.slot sites.group) := by rwa [Program.count_slot hd, hlength]
    refine ⟨?_, hjumps, ?_, ?_⟩ <;> rcases hop with hop | hop <;>
      simp [numbers, hop, hgroup, hslot, hslots] <;> exact hgroups

/-- Code that creates the table first and is closed up to the Halt at its end. -/
def SealedCode (program : Program) (table : Nat) (code : List Instruction) : Prop :=
  ∃ body op, code = body ++ [{ opcode := .halt }] ∧ AllAt (Closed program table body.length) 0 body ∧
    body.head? = some op ∧ op.opcode = .createTable ∧ op.p1 = table

open QueryCode

namespace BoundQuery

variable {program : Program} {env : Environment} {scopes : ScopeStack} {first : Nat} {q : BoundQuery}
variable {entries : SourceList} {sites : QuerySites}

/-- The code of a bound query is sealed, if its numbers are declared and its sources are opened by closed code. -/
theorem Numbered.sealed (hq : q.Numbered program sites) (hbound : QueryBound env scopes first q entries)
    (hopens : ∀ l ∈ sites.opens.zip q.sources, ∀ a last, Closed program sites.table last a l.1)
    (hzip : (sites.opens.zip q.sources).map Prod.snd = q.sources) : SealedCode program sites.table (q.code sites) := by
  obtain ⟨loopsDone, done, body, after, hlaid⟩ := hbound.exists_laidOut sites
  have hloops := hlaid.loops
  have hrest := hlaid.rest
  let start := (prologue q sites).length
  -- Where the loops have their heads does not matter here.
  let heads := (loopsDone + 1) :: (loopHeads q.sources start).map Prod.fst
  have hsupply : Supply.grouping sites.group ∈ [Supply.grouping sites.group] := List.mem_singleton_self _
  have hclosed : ∀ a op, Instruction.InQuery q sites [.grouping sites.group] heads done a op →
      Closed program sites.table done a op := fun a op h => h.closed hq
  obtain ⟨hbefore, hlooping⟩ := hbound.allAt_loops hlaid hsupply hclosed hzip (Instruction.closed_createTable hq.table _)
    (fun l hl a => hopens l hl a done) fun head hhead => List.mem_cons_of_mem _ (List.mem_map_of_mem hhead)
  have hafter : AllAt (Closed program sites.table done) loopsDone after := by
    rcases hlaid.outside with rfl | ⟨g, hgrouping, rfl⟩
    · trivial
    · rw [length_groupLoopCode] at hrest
      exact (hbound.inQuery_groupLoop hgrouping List.mem_cons_self hsupply ⟨.inl (by omega), Nat.le_refl _⟩
        (by omega)).mono hclosed
  refine ⟨prologue q sites ++ (loopsCode (sites.opens.zip q.sources) loopsDone start ++
    roundCode q.filter body (innermost q.sources loopsDone start) (start + loopsSize q.sources) ++ after), _, ?_, ?_, rfl, rfl, rfl⟩
  · simp only [hlaid.code, List.append_assoc, start]
  · have hlength : (loopsCode (sites.opens.zip q.sources) loopsDone start ++ roundCode q.filter body
        (innermost q.sources loopsDone start) (start + loopsSize q.sources)).length = loopsDone - start := by
      rw [List.length_append, length_loopsCode, hzip, length_roundCode]
      omega
    have hdone : start + (loopsDone - start) = loopsDone := by omega
    rw [List.length_append, List.length_append, hlength, ← Nat.add_assoc, hdone, ← hrest, allAt_append, allAt_append, hlength,
      Nat.zero_add, hdone]
    exact ⟨hbefore, hlooping, hafter⟩

variable {name : Option String} {g g' : GenerateState}

theorem Generated.numbered (hgen : q.Generated name sites g g') (hwithin : g'.Within program)
    (hbound : QueryBound env scopes first q entries) (hcursors : first + q.sources.length ≤ program.cursorCount) :
    q.Numbered program sites where
  table := (List.getElem?_eq_some_iff.mp (hgen.declared hwithin).table).1
  skip := (hgen.declared hwithin).skip_lt
  take := (hgen.declared hwithin).take_lt
  cursors b hb := by
    have hcursor : b.cursor ∈ List.range' first q.sources.length := hbound.sources.cursors ▸ List.mem_map_of_mem hb
    rw [List.mem_range'_1] at hcursor
    omega
  group hgrouped := by
    obtain ⟨grouping, hgrouping⟩ := Option.isSome_iff_exists.mp hgrouped
    refine ⟨Generate.groupingDeclaration q grouping, getElem?_of_isPrefix hwithin.groupings ?_, ?_⟩
    · simp [hgen.groupings, hgen.group hgrouped, hgrouping]
    · simp [Generate.groupingDeclaration]

theorem Generated.sealed (hgen : q.Generated name sites g g') (hwithin : g'.Within program)
    (hbound : QueryBound env scopes first q entries) (hcursors : first + q.sources.length ≤ program.cursorCount)
    (hdefined : ∀ entry ∈ g.defined, entry.2 < g.tables.length) : SealedCode program sites.table (q.code sites) := by
  have hq := hgen.numbered hwithin hbound hcursors
  refine hq.sealed hbound (fun l hl a last => ?_) hgen.map_zip_opens.2
  have hopened : l.2.OpenedBy g'.sources g.defined l.1 := List.forall₂_zip hgen.opens.flip hl
  apply Instruction.closed_opening (Generate.openedBy_mono hopened hwithin.sources)
  · exact hq.cursors l.2 (List.of_mem_zip hl).2
  · rwa [hgen.table]
  · exact hq.table

end BoundQuery

/-! ### Set operations and descriptions -/

namespace SetCode

theorem closed_copyLoop {program : Program} {cursor source output done start last : Nat} {probe : Option Probe}
    (hcursor : cursor < program.cursorCount) (hsource : source < output) (houtput : output < program.tables.length)
    (htests : Tests probe) (hprobe : ∀ x, probe = some x → x.table ≤ output) (hdone : done ≤ last)
    (hle : start + copyLoopSize probe ≤ last) :
    AllAt (Closed program output last) start (copyLoop cursor source output probe done start) := by
  have hhead : start + 1 ≤ last := by
    unfold copyLoopSize at hle
    split at hle <;> omega
  simp only [copyLoop, allAt_append, allAt_cons, allAt_nil, and_true]
  refine ⟨⟨⟨?_, ?_⟩, ?_⟩, ?_, .jump rfl (by simp) rfl hhead⟩
  · constructor <;> simp [Instruction.numbers, Opcode.isJump, Program.count, hcursor, hsource, Nat.lt_trans hsource houtput]
  · constructor <;> simp [Instruction.numbers, Opcode.isJump, Program.count, hcursor, hdone]
  · cases probe with
    | none => trivial
    | some x =>
      have htable : x.table ≤ output := hprobe x rfl
      refine ⟨?_, trivial⟩
      rcases htests x rfl with hop | hop
      all_goals
        constructor
        · simp [hop]
        · exact fun _ => ⟨start + 1, rfl, hhead⟩
        · simp [Instruction.numbers, hop, Program.count, hcursor, Nat.lt_of_le_of_lt htable houtput]
        · simp [Instruction.numbers, hop]
          omega
  · constructor <;> simp [Instruction.numbers, Opcode.isJump, Program.count, hcursor, houtput]

end SetCode

open SetCode

theorem SetOperator.sealed (op : SetOperator) (name : String) (keyId : Nat) (keys : List Nat) {program : Program}
    {sites : SetSites} (hleft : sites.left < sites.output) (hright : sites.right < sites.output)
    (houtput : sites.output < program.tables.length) (hleftCursor : sites.leftCursor < program.cursorCount)
    (hrightCursor : op.copiesRight = true → sites.rightCursor < program.cursorCount) :
    SealedCode program sites.output (op.code name keyId keys sites) := by
  have htests : Tests (probe? op keys sites) := tests_probe? op keys sites
  have htable : ∀ x, probe? op keys sites = some x → x.table ≤ sites.output := by
    intro x hx
    cases op <;> cases hx
    · exact Nat.le_refl _
    · exact Nat.le_of_lt hright
    · exact Nat.le_of_lt hright
  unfold code
  generalize probe? op keys sites = probe at htests htable
  let before : List Instruction := { opcode := .createTable, p1 := sites.output, comment := some name } ::
    indexCode keyId keys probe
  let leftDone := before.length + copyLoopSize probe
  let last := leftDone + if op.copiesRight then copyLoopSize probe else 0
  let left := copyLoop sites.leftCursor sites.left sites.output probe leftDone before.length
  let right := if op.copiesRight then copyLoop sites.rightCursor sites.right sites.output probe last leftDone else []
  have hlength : (before ++ left ++ right).length = last := by
    simp only [List.length_append, left, right, last, leftDone, length_copyLoop]
    split <;> simp
  have hbefore : AllAt (Closed program sites.output last) 0 before := by
    refine ⟨Instruction.closed_createTable houtput _, ?_⟩
    cases probe with
    | none => trivial
    | some x =>
      have hle : x.table ≤ sites.output := htable x rfl
      refine ⟨?_, trivial⟩
      constructor <;> simp [Instruction.numbers, Opcode.isJump, Program.count, Nat.lt_of_le_of_lt hle houtput]
      omega
  have hcopied : AllAt (Closed program sites.output last) before.length left :=
    closed_copyLoop hleftCursor hleft houtput htests htable (by omega) (by omega)
  refine ⟨before ++ left ++ right, _, rfl, ?_, rfl, rfl, rfl⟩
  rw [hlength, allAt_append, allAt_append, List.length_append, length_copyLoop, Nat.zero_add, Nat.zero_add]
  refine ⟨⟨hbefore, hcopied⟩, ?_⟩
  cases hcopies : op.copiesRight with
  | false => simp [right, hcopies]
  | true =>
    have hlast : last = leftDone + copyLoopSize probe := by simp [last, hcopies]
    simp only [right, hcopies, if_true]
    exact closed_copyLoop (hrightCursor hcopies) hright houtput htests htable (Nat.le_refl last) (by omega)

theorem closed_describeRows {program : Program} {table last start : Nat} (htable : table < program.tables.length)
    (hstart : 0 < start) (columns : List Column) : AllAt (Closed program table last) start (columns.flatMap fun c =>
      [{ opcode := .pushText, operand := .text c.name }, { opcode := .pushText, operand := .text c.type.name },
       { opcode := .makeRecord, p1 := table, p3 := 2, operand := .types [.text, .text] }]) := by
  induction columns generalizing start with
  | nil => trivial
  | cons c columns ih =>
    rw [List.flatMap_cons, allAt_append]
    refine ⟨⟨.plain rfl (by simp) rfl, .plain rfl (by simp) rfl, ?_, trivial⟩, ih (by omega)⟩
    constructor <;> simp [Instruction.numbers, Opcode.isJump, Program.count, htable]

theorem sealed_describe {program : Program} {table : Nat} (htable : table < program.tables.length) (source : String)
    (columns : List Column) : SealedCode program table (describeCode source columns table) := by
  refine ⟨_, _, rfl, ?_, rfl, rfl, rfl⟩
  exact ⟨Instruction.closed_createTable htable _, closed_describeRows htable (Nat.succ_pos 0) columns⟩

/-! ### Generation -/

theorem sealed_rule (env : Environment) (program : Program) :
    ProcedureRule env program (fun _ => True) (fun i p => SealedCode program i p.code.toList) where
  query hbound _ hcursors _ hdefined hgen hwithin := hgen.sealed hwithin hbound hcursors hdefined
  operation _ hgen hwithin hlt hlt' _ _ _ _ := by
    have houtput := (List.getElem?_eq_some_iff.mp (getElem?_of_isPrefix hwithin.tables hgen.declared)).1
    exact SetOperator.sealed _ _ _ _ (Nat.lt_trans hlt hlt') hlt' houtput
      (Nat.lt_of_lt_of_le hgen.leftCursor hwithin.cursors)
      fun hcopies => Nat.lt_of_lt_of_le (hgen.rightCursor hcopies) hwithin.cursors
  description source columns hd := sealed_describe (List.getElem?_eq_some_iff.mp hd).1 source columns

/-! ### Programs -/

/-- The procedure ends in its only Halt, it jumps nowhere else than into its code, and its numbers are those of what the
program declares. -/
structure Procedure.Closed (program : Program) (p : Procedure) : Prop where
  halts : ∃ code, p.code.toList = code ++ [{ opcode := .halt }] ∧ ∀ op ∈ code, op.opcode ≠ .halt
  jumps : ∀ op ∈ p.code, op.opcode.isJump = true → ∃ target : Nat, op.p2 = target ∧ target < p.code.size
  declared : ∀ op ∈ p.code, ∀ x ∈ op.numbers, ∃ n : Nat, x.2 = n ∧ n < program.count x.1

/-- A table that the instruction at address `a` of procedure `i` uses was created before, by the first instruction of a
procedure. -/
def Program.CreatesFirst (program : Program) (i a : Nat) (op : Instruction) : Prop :=
  op.opcode ≠ .createTable → ∀ x ∈ op.numbers, x.1 = .table →
    ∃ j n : Nat, x.2 = n ∧ program.Creates j n ∧ (j < i ∨ j = i ∧ 0 < a)

theorem allAt_getElem? {Q : Nat → Instruction → Prop} {start a : Nat} {op : Instruction} {code : List Instruction}
    (h : AllAt Q start code) (hop : code[a]? = some op) : Q (start + a) op := by
  induction code generalizing start a with
  | nil => cases hop
  | cons op' code ih =>
    cases a with
    | zero =>
      cases hop
      exact h.1
    | succ a =>
      rw [List.getElem?_cons_succ] at hop
      rw [Nat.add_comm a 1, ← Nat.add_assoc]
      exact ih h.2 hop

namespace SealedCode

variable {program : Program} {table a : Nat} {p : Procedure} {op : Instruction}

theorem getElem? (h : SealedCode program table p.code.toList) (hop : p.code[a]? = some op) :
    op = { opcode := .halt } ∨ ∃ last, last < p.code.size ∧ Closed program table last a op := by
  obtain ⟨body, -, hbody, hclosed, -⟩ := h
  rw [← Array.getElem?_toList, hbody] at hop
  by_cases hlt : a < body.length
  · rw [List.getElem?_append_left hlt] at hop
    have hsize : body.length < p.code.size := by simp [← Array.length_toList, hbody]
    refine .inr ⟨body.length, hsize, ?_⟩
    simpa using allAt_getElem? hclosed hop
  · rw [List.getElem?_append_right (Nat.not_lt.mp hlt), List.getElem?_singleton] at hop
    split at hop <;> cases hop
    exact .inl rfl

theorem closed (h : SealedCode program table p.code.toList) : p.Closed program where
  halts := by
    obtain ⟨body, -, hbody, hclosed, -⟩ := h
    refine ⟨body, hbody, fun op hop => ?_⟩
    obtain ⟨a, ha⟩ := List.mem_iff_getElem?.mp hop
    exact (allAt_getElem? hclosed ha).goesOn
  jumps op hop hjump := by
    obtain ⟨a, ha⟩ := Array.mem_iff_getElem?.mp hop
    rcases h.getElem? ha with rfl | ⟨last, hlast, hclosed⟩
    · cases hjump
    · obtain ⟨target, htarget, hle⟩ := hclosed.jumps hjump
      exact ⟨target, htarget, Nat.lt_of_le_of_lt hle hlast⟩
  declared op hop := by
    obtain ⟨a, ha⟩ := Array.mem_iff_getElem?.mp hop
    rcases h.getElem? ha with rfl | ⟨last, -, hclosed⟩
    · simp [Instruction.numbers]
    · exact hclosed.declared

theorem creates {i : Nat} (h : SealedCode program i p.code.toList) (hp : program.procedures[i]? = some p) :
    program.Creates i i := by
  obtain ⟨body, op, hbody, -, hhead, hcreates, htable⟩ := h
  refine ⟨p, op, hp, ?_, hcreates, htable⟩
  rw [← Array.getElem?_toList, hbody]
  cases body with
  | nil => cases hhead
  | cons first body => exact hhead

end SealedCode

namespace Program

/-- The code of the program is closed. -/
structure Closed (program : Program) : Prop where
  procedures : ∀ p ∈ program.procedures, p.Closed program
  creates : ∀ (i a : Nat) (p : Procedure) (op : Instruction), program.procedures[i]? = some p → p.code[a]? = some op →
    program.CreatesFirst i a op

/-- The result is the table of the statement, which the last procedure creates. -/
structure ResultOf (program : Program) (last : BoundStatement) : Prop where
  table : program.tables[program.result]? = some ⟨last.name, last.columns⟩
  procedure : program.procedures.getLast?.map Procedure.name = some last.name
  last : program.result + 1 = program.procedures.length
  creates : program.Creates program.result program.result

variable {program : Program}

/-- If procedure `i` has sealed code for table `i`, the program is closed. -/
theorem closed_of_sealed (hpaired : program.procedures.length = program.tables.length)
    (hsealed : ∀ (i : Nat) (p : Procedure), program.procedures[i]? = some p → SealedCode program i p.code.toList) :
    program.Closed where
  procedures p hp := by
    obtain ⟨i, hi⟩ := List.mem_iff_getElem?.mp hp
    exact (hsealed i p hi).closed
  creates i a p op hp hop hother x hx htable := by
    rcases (hsealed i p hp).getElem? hop with rfl | ⟨last, -, hclosed⟩
    · simp [Instruction.numbers] at hx
    · obtain ⟨n, hn, hbefore⟩ := hclosed.tables hother x hx htable
      obtain ⟨n', hn', hlt⟩ := hclosed.declared x hx
      obtain rfl : n = n' := by omega
      have hdeclared : n < program.procedures.length := by
        rw [hpaired]
        rwa [htable] at hlt
      have hprocedure := List.getElem?_eq_getElem hdeclared
      exact ⟨n, n, hn, (hsealed n _ hprocedure).creates hprocedure, hbefore⟩

end Program

/-- The program of bound statements is closed, and its result is that of the last one. -/
theorem closed_generate {env : Environment} {bs : List BoundStatement} {b : BoundStatement} {libraries : List String}
    {cursorCount : Nat} {p : Program} (hbound : ∀ s ∈ bs ++ [b], s.Bound env cursorCount)
    (h : generate ⟨bs ++ [b], libraries, cursorCount⟩ = .ok p) : p.Closed ∧ p.ResultOf b := by
  obtain ⟨g, n, last, rfl, hsealed, hlast, hends⟩ := (sealed_rule env p).generate h hbound fun _ _ => trivial
  rw [List.getLast?_concat] at hlast
  cases hlast
  have hcount : n + 1 = g.procedures.length := by rw [hends.last, hsealed.paired]
  refine ⟨Program.closed_of_sealed hsealed.paired hsealed.procedures, hends.table, ?_, hcount, ?_⟩
  · have hindex : (g.program n libraries).procedures.length - 1 = n := Nat.sub_eq_of_eq_add hcount.symm
    rw [List.getLast?_eq_getElem?, hindex]
    exact hends.procedure
  · have hn := List.getElem?_eq_getElem (l := g.procedures) (i := n) (by omega)
    exact (hsealed.procedures n _ hn).creates hn

end TabularQuery
