import TabularQuery.Proofs.StatementRun
import TabularQuery.Proofs.Supplies

/-!
Loops of generated code. `InQuery` says once what the instructions of a query can be: each works on the stacks, on a cursor,
a counter, the table or the groups of the query, and jumps forward or back to the head of a loop. Heads are those of the
loops over sources, of the loop over the groups, and of the loop that copies an operand of a set operation; each has its own
supply, and what is inside its loop leaves that supply alone. So the procedures of queries, set operations and descriptions
wind down.
-/

namespace TabularQuery

theorem Procedure.HasCode.ofEq (name : String) {code code' : List Instruction} (h : code = code') :
    Procedure.HasCode ⟨name, code.toArray⟩ 0 code' :=
  h ▸ .ofCode name code

/-- Every instruction of the code, which starts at the address, is as `Q` says. -/
def AllAt (Q : Nat → Instruction → Prop) : Nat → List Instruction → Prop
  | _, [] => True
  | a, op :: rest => Q a op ∧ AllAt Q (a + 1) rest

section AllAt

variable {Q : Nat → Instruction → Prop} {start a : Nat} {op : Instruction} {code more : List Instruction}

@[simp] theorem allAt_nil : AllAt Q start [] := trivial

@[simp] theorem allAt_cons : AllAt Q start (op :: code) ↔ Q start op ∧ AllAt Q (start + 1) code := Iff.rfl

@[simp] theorem allAt_append :
    AllAt Q start (code ++ more) ↔ AllAt Q start code ∧ AllAt Q (start + code.length) more := by
  induction code generalizing start with
  | nil => simp
  | cons op code ih => simp [ih, and_assoc, Nat.add_assoc, Nat.add_comm 1]

theorem allAt_of_forall (h : ∀ op ∈ code, ∀ a, Q a op) : AllAt Q start code := by
  induction code generalizing start with
  | nil => trivial
  | cons op code ih =>
    obtain ⟨hop, hcode⟩ := List.forall_mem_cons.mp h
    exact ⟨hop start, ih hcode⟩

theorem AllAt.mono {Q' : Nat → Instruction → Prop} (h : AllAt Q start code) (hQ : ∀ a op, Q a op → Q' a op) :
    AllAt Q' start code := by
  induction code generalizing start with
  | nil => trivial
  | cons op code ih => exact ⟨hQ _ _ h.1, ih h.2⟩

theorem AllAt.get (h : AllAt Q start code) {p : Procedure} (hcode : p.HasCode start code) (hle : start ≤ a)
    (hlt : a < start + code.length) (hop : p.code[a]? = some op) : Q a op := by
  induction code generalizing start with
  | nil => exact absurd hlt (Nat.not_lt.mpr hle)
  | cons op' code ih =>
    rcases Nat.eq_or_lt_of_le hle with rfl | hlt'
    · obtain rfl : op' = op := Option.some.inj (hcode.head.symm.trans hop)
      exact h.1
    · exact ih h.2 hcode.tail hlt' (by rw [List.length_cons] at hlt; omega)

end AllAt

/-! ### Instructions of queries -/

/-- Works on the stacks alone, or goes elsewhere by what is on them. -/
def Opcode.isFree : Opcode → Bool
  | .halt | .ifPos | .ifNotPos | .addImm | .setInteger | .openSource | .openTable | .next | .column | .resetGroups
  | .groupKey | .accumulate | .aggregateValue | .rewindGroups | .nextGroup | .createTable | .addIndex | .makeRecord
  | .found | .notFound | .copyRow => false
  | _ => true

/-- Works on a register. -/
def Opcode.isCount : Opcode → Bool
  | .ifPos | .ifNotPos | .addImm | .setInteger => true
  | _ => false

/-- The target comes no earlier than `next` or is one of the heads, and not after `last`. -/
def Goes (heads : List Nat) (last next target : Nat) : Prop := (next ≤ target ∨ target ∈ heads) ∧ target ≤ last

theorem Goes.earlier {heads : List Nat} {last next next' target : Nat} (h : Goes heads last next target)
    (hle : next' ≤ next) : Goes heads last next' target :=
  ⟨h.1.imp_left (Nat.le_trans hle), h.2⟩

namespace Instruction

/-- What an instruction of a query works on. -/
inductive WorksFor (q : BoundQuery) (sites : QuerySites) (supplies : List Supply) (a : Nat) (op : Instruction) : Prop
  | free (hop : op.opcode.isFree = true)
  | cursor (hop : op.opcode = .next ∨ op.opcode = .column) (b : BoundSource) (hb : b ∈ q.sources) (hcursor : op.p1 = b.cursor)
  | count (hop : op.opcode.isCount = true) (r : Nat) (hr : sites.skip = some r ∨ sites.take = some r) (hregister : op.p1 = r)
  | record (hop : op.opcode = .makeRecord) (htable : op.p1 = sites.table) (hlater : 0 < a)
  /-- The groups are filled up, or put back to the first. -/
  | groups (hop : op.opcode = .resetGroups ∨ op.opcode = .groupKey ∨ op.opcode = .rewindGroups)
      (hgrouped : q.grouping.isSome = true) (hgroup : op.p1 = sites.group) (hsupply : .grouping sites.group ∈ supplies)
  | nextGroup (hop : op.opcode = .nextGroup) (hgrouped : q.grouping.isSome = true) (hgroup : op.p1 = sites.group)
  | slot (hop : op.opcode = .accumulate ∨ op.opcode = .aggregateValue) (hgrouped : q.grouping.isSome = true)
      (hgroup : op.p1 = sites.group) (k : Nat) (hslot : op.p2 = k) (hlt : k < q.slots.length)

/-- The instruction at address `a` works for the query, fills up none but the supplies, and jumps forward or to one of the
heads, to `last` at most. -/
structure InQuery (q : BoundQuery) (sites : QuerySites) (supplies : List Supply) (heads : List Nat) (last a : Nat)
    (op : Instruction) : Prop where
  works : op.WorksFor q sites supplies a
  jumps : op.opcode.isJump = true → ∃ target : Nat, op.p2 = target ∧ Goes heads last (a + 1) target

variable {q : BoundQuery} {sites : QuerySites} {supplies : List Supply} {heads : List Nat} {last a : Nat} {op : Instruction}

theorem InQuery.plain (hworks : op.WorksFor q sites supplies a) (hjump : op.opcode.isJump = false) :
    op.InQuery q sites supplies heads last a :=
  ⟨hworks, by simp [hjump]⟩

theorem InQuery.jump (hworks : op.WorksFor q sites supplies a) {target : Nat} (htarget : op.p2 = target)
    (hgoes : Goes heads last (a + 1) target) : op.InQuery q sites supplies heads last a :=
  ⟨hworks, fun _ => ⟨target, htarget, hgoes⟩⟩

theorem inQuery_push (v : Value) : (push v).InQuery q sites supplies heads last a := by
  cases v with
  | integer | real | text | boolean => exact .plain (.free rfl) rfl

theorem inQuery_operation {op : BinaryOp} (h : op.decidedBy? = none) (left result : ColumnType) :
    (operation op left result).InQuery q sites supplies heads last a := by
  cases op with
  | and | or => cases h
  | add =>
    by_cases htext : result = .text
    · apply InQuery.plain (.free ?_) <;> simp [operation, BinaryOp.opcode, Opcode.isJump, Opcode.isFree, htext]
    · apply InQuery.plain (.free ?_) <;> simp [operation, BinaryOp.opcode, Opcode.isJump, Opcode.isFree, htext]
  | _ => exact .plain (.free rfl) rfl

end Instruction

open Instruction (InQuery)

/-- What can be looked at are cursors and slots of the query. -/
structure Sight.Of (g : Sight) (q : BoundQuery) (sites : QuerySites) (group : Nat) : Prop where
  cursors : ∀ c ∈ g.cursors, ∃ b ∈ q.sources, b.cursor = c.1
  slots : ∀ k ∈ g.slots, group = sites.group ∧ q.grouping.isSome = true ∧ k < q.slots.length

namespace QueryBound

variable {env : Environment} {scopes : ScopeStack} {first : Nat} {q : BoundQuery} {entries : SourceList}
variable (hbound : QueryBound env scopes first q entries) (sites : QuerySites)

include hbound

/-- An expression over some of the query's sources looks at its cursors. -/
theorem sight_of (group : Nat) {some : SourceList} (hsome : some ⊆ entries) : (some.sight []).Of q sites group where
  cursors c hc := by
    obtain ⟨e, he, rfl⟩ := List.mem_map.mp hc
    have hmem : (e.cursor, e.columns) ∈ q.sources.map fun b => (b.cursor, b.columns) :=
      hbound.sources.cursors_eq ▸ List.mem_map_of_mem (hsome he)
    obtain ⟨b, hb, hsame⟩ := List.mem_map.mp hmem
    exact ⟨b, hb, (Prod.mk.inj hsame).1⟩
  slots := nofun

theorem slot_lt {s : AggregateSlot} (hs : s ∈ q.slots) : q.grouping.isSome = true ∧ s.slot < q.slots.length := by
  obtain ⟨i, hi⟩ := List.mem_iff_getElem?.mp hs
  refine ⟨?_, (hbound.slots i s hi).1 ▸ (List.getElem?_eq_some_iff.mp hi).1⟩
  cases hgrouping : q.grouping with
  | some => rfl
  | none => simp [hbound.flat hgrouping] at hs

/-- Its fields and HAVING look at its slots, too. -/
theorem output_of : (entries.sight (q.slots.map AggregateSlot.slot)).Of q sites sites.group where
  cursors := (hbound.sight_of sites 0 (List.Subset.refl entries)).cursors
  slots k hk := by
    obtain ⟨s, hs, rfl⟩ := List.mem_map.mp hk
    exact ⟨rfl, hbound.slot_lt hs⟩

end QueryBound

section Parts

variable {q : BoundQuery} {sites : QuerySites} {supplies : List Supply} {heads : List Nat} {last group start : Nat} {g : Sight}

namespace TypedExpr

mutual

/-- The code of an expression jumps forward only. -/
theorem inQuery_code (hg : g.Of q sites group) :
    ∀ (e : TypedExpr) (start : Nat), e.WellTyped g → start + e.codeSize ≤ last →
      AllAt (InQuery q sites supplies heads last) start (e.code group start)
  | .literal v, start, _, _ => ⟨Instruction.inQuery_push v, trivial⟩
  | .column cursor ordinal name ty, start, hwell, _ => by
    obtain ⟨columns, hmem, -⟩ := hwell
    obtain ⟨b, hb, hcursor⟩ := hg.cursors _ hmem
    exact ⟨.plain (.cursor (.inr rfl) b hb (by rw [hcursor])) rfl, trivial⟩
  | .aggregate slot ty, start, hwell, _ => by
    obtain ⟨hgroup, hgrouped, hlt⟩ := hg.slots slot hwell
    exact ⟨.plain (.slot (.inr rfl) hgrouped (by rw [hgroup]) slot rfl hlt) rfl, trivial⟩
  | .call f args, start, hwell, hle => by
    rw [codeSize] at hle
    rw [code, allAt_append]
    exact ⟨inQuery_codes hg args start hwell.2.2 (by omega), .plain (.free rfl) rfl, trivial⟩
  | .unary op operand ty, start, hwell, hle => by
    rw [codeSize] at hle
    rw [code, allAt_append]
    refine ⟨inQuery_code hg operand start hwell.2 (by omega), ?_, trivial⟩
    cases op with
    | neg | not => exact .plain (.free rfl) rfl
  | .binary op left right ty, start, hwell, hle => by
    rw [codeSize] at hle
    have hleft := inQuery_code hg left start hwell.2.1 (by omega)
    have hright : ∀ middle, middle + right.codeSize ≤ last →
        AllAt (InQuery q sites supplies heads last) middle (right.code group middle) :=
      fun middle => inQuery_code hg right middle hwell.2.2
    rw [code]
    cases h : op.decidedBy? with
    | none =>
      simp only [allAt_append, length_code]
      exact ⟨⟨hleft, hright _ (by omega)⟩, Instruction.inQuery_operation h _ _, trivial⟩
    | some value =>
      rw [h, Option.isSome_some, if_pos rfl] at hle
      simp only [allAt_append, length_code, List.length_append, List.length_singleton]
      refine ⟨⟨⟨⟨hleft, ?_, trivial⟩, hright _ (by omega)⟩, ?_, trivial⟩, .plain (.free rfl) rfl, trivial⟩
      · cases op with
        | and | or => exact .jump (.free rfl) rfl ⟨.inl (by omega), by omega⟩
        | _ => cases h
      · exact .jump (.free rfl) rfl ⟨.inl (by omega), by omega⟩

theorem inQuery_codes (hg : g.Of q sites group) :
    ∀ (es : List TypedExpr) (start : Nat), AllWellTyped g es → start + codesSize es ≤ last →
      AllAt (InQuery q sites supplies heads last) start (codes group es start)
  | [], _, _, _ => trivial
  | e :: es, start, hwell, hle => by
    rw [codesSize] at hle
    rw [codes, allAt_append, length_code]
    exact ⟨inQuery_code hg e start hwell.1 (by omega), inQuery_codes hg es _ hwell.2 (by omega)⟩

end

end TypedExpr

namespace QueryCode

theorem inQuery_test (hg : g.Of q sites group) {test : Option TypedExpr} (htest : g.Tests test) {otherwise : Nat}
    (comment : Option String) (hgoes : Goes heads last (start + testSize test) otherwise)
    (hle : start + testSize test ≤ last) :
    AllAt (InQuery q sites supplies heads last) start (testCode group test otherwise comment start) := by
  cases test with
  | none => trivial
  | some e =>
    rw [testSize] at hle hgoes
    rw [testCode, allAt_append, TypedExpr.length_code]
    exact ⟨e.inQuery_code hg start (htest e rfl).1 (by omega), .jump (.free rfl) rfl hgoes, trivial⟩

theorem inQuery_limit {register : Option Nat} (hregister : ∀ r, register = some r → sites.skip = some r ∨ sites.take = some r)
    (count : Option Int64) (comment : String) :
    AllAt (InQuery q sites supplies heads last) start (limitCode register count comment) := by
  unfold limitCode
  split
  · rename_i r n
    exact ⟨.plain (.count rfl r (hregister r rfl) rfl) rfl, trivial⟩
  · trivial

theorem inQuery_output (hg : g.Of q sites sites.group)
    (hfields : TypedExpr.AllWellTyped g (q.fields.map BoundField.expr)) {skipped done : Nat}
    (hskipped : Goes heads last (start + outputSize q sites) skipped) (hdone : Goes heads last (start + outputSize q sites) done)
    (hstart : 0 < start) (hle : start + outputSize q sites ≤ last) :
    AllAt (InQuery q sites supplies heads last) start (outputCode q sites skipped done start) := by
  have hlength := length_outputCode q sites skipped done start
  simp only [outputCode, List.length_append, List.length_singleton, TypedExpr.length_codes] at hlength
  simp only [outputCode, allAt_append, List.length_append]
  refine ⟨⟨⟨⟨?_, ?_⟩, TypedExpr.inQuery_codes hg _ _ hfields (by omega)⟩, .plain (.record rfl rfl (by omega)) rfl, trivial⟩, ?_⟩
  · cases hskip : sites.skip with
    | none => trivial
    | some r => exact ⟨.jump (.count rfl r (.inl hskip) rfl) rfl (hskipped.earlier (by omega)), trivial⟩
  · cases htake : sites.take with
    | none => trivial
    | some r =>
      rw [htake] at hlength
      simp only [takeTest, List.length_singleton] at hlength
      exact ⟨.jump (.count rfl r (.inr htake) rfl) rfl (hdone.earlier (by omega)), trivial⟩
  · cases htake : sites.take with
    | none => trivial
    | some r => exact ⟨.plain (.count rfl r (.inr htake) rfl) rfl, trivial⟩

theorem inQuery_accumulate (hg : g.Of q sites sites.group) {slots : List AggregateSlot}
    (hargs : ∀ s ∈ slots, TypedExpr.AllWellTyped g s.args)
    (hslots : ∀ s ∈ slots, q.grouping.isSome = true ∧ s.slot < q.slots.length) (hle : start + accumulateSize slots ≤ last) :
    AllAt (InQuery q sites supplies heads last) start (accumulateCode sites.group slots start) := by
  induction slots generalizing start with
  | nil => trivial
  | cons s rest ih =>
    rw [accumulateSize] at hle
    obtain ⟨⟨hgrouped, hlt⟩, hslots⟩ := List.forall_mem_cons.mp hslots
    obtain ⟨hhead, hargs⟩ := List.forall_mem_cons.mp hargs
    simp only [accumulateCode, allAt_append, List.length_append, TypedExpr.length_codes, List.length_singleton,
      ← Nat.add_assoc]
    exact ⟨⟨TypedExpr.inQuery_codes hg s.args start hhead (by omega),
      .plain (.slot (.inl rfl) hgrouped rfl s.slot rfl hlt) rfl, trivial⟩, ih hargs hslots (by omega)⟩

theorem inQuery_prologue (hsupply : .grouping sites.group ∈ supplies) :
    ∃ rest, prologue q sites = { opcode := .createTable, p1 := sites.table, comment := some q.name } :: rest ∧
      AllAt (InQuery q sites supplies heads last) 1 rest := by
  refine ⟨limitCode sites.skip q.skip "skip" ++ limitCode sites.take q.take "take" ++
    if q.isGrouped then [{ opcode := .resetGroups, p1 := sites.group }] else [], rfl, ?_⟩
  rw [allAt_append, allAt_append]
  refine ⟨⟨inQuery_limit (fun r hr => .inl hr) _ _, inQuery_limit (fun r hr => .inr hr) _ _⟩, ?_⟩
  split
  · rename_i hgrouped
    exact ⟨.plain (.groups (.inl rfl) hgrouped rfl hsupply) rfl, trivial⟩
  · trivial

/-- What the innermost loop of a query does for each row: the filter, the body, and back. -/
def roundCode (filter : Option TypedExpr) (body : List Instruction) (inner start : Nat) : List Instruction :=
  testCode 0 filter inner none start ++ body ++ [.jump .goto inner]

theorem length_roundCode (filter : Option TypedExpr) (body : List Instruction) (inner start : Nat) :
    (roundCode filter body inner start).length = testSize filter + body.length + 1 := by
  simp [roundCode, Nat.add_assoc]

/-- What is done for each group. -/
def groupBody (q : BoundQuery) (g : Grouping) (sites : QuerySites) (done start : Nat) : List Instruction :=
  let following := start + testSize g.having + outputSize q sites
  testCode sites.group g.having following (some "having") start ++
    outputCode q sites following done (start + testSize g.having)

theorem groupLoopCode_eq (q : BoundQuery) (g : Grouping) (sites : QuerySites) (done start : Nat) :
    groupLoopCode q g sites done start = { opcode := .rewindGroups, p1 := sites.group, p2 := done } ::
      (groupBody q g sites done (start + 1) ++ [{ opcode := .nextGroup, p1 := sites.group, p2 := (start + 1 : Nat) }]) := by
  simp [groupLoopCode, groupBody]

theorem length_groupBody {grouping : Grouping} {done : Nat} :
    (groupBody q grouping sites done start).length = testSize grouping.having + outputSize q sites := by
  simp [groupBody]

/-- The loops over sources: the address of each head, and its cursor. -/
def loopHeads : List BoundSource → (start : Nat) → List (Nat × Nat)
  | [], _ => []
  | s :: rest, start => (start + 1, s.cursor) :: loopHeads rest (start + loopSize s)

theorem inQuery_advance {s : BoundSource} {exhausted : Nat} (hs : s ∈ q.sources) (hg : g.Of q sites 0) (htest : g.Tests s.on)
    (hhead : start + 1 ∈ heads) (hexhausted : Goes heads last (start + loopSize s) exhausted)
    (hle : start + loopSize s ≤ last) :
    AllAt (InQuery q sites supplies heads last) (start + 1) ({ opcode := .next, p1 := s.cursor, p2 := exhausted } ::
      testCode 0 s.on (start + 1) (some ("join " ++ s.aliasName)) (start + 2)) := by
  have hsize : loopSize s = 2 + testSize s.on := rfl
  exact ⟨.jump (.cursor (.inl rfl) s hs rfl) rfl (hexhausted.earlier (by omega)),
    inQuery_test hg htest _ ⟨.inr hhead, by omega⟩ (by omega)⟩

/-- Loops that are opened by instructions as `Q` says are as `Q` says, if instructions of the query are. -/
theorem allAt_loops {Q : Nat → Instruction → Prop} (hQ : ∀ a op, op.InQuery q sites supplies heads last a → Q a op)
    (loops : List (Instruction × BoundSource)) {exhausted : Nat} (hopens : ∀ l ∈ loops, ∀ a, Q a l.1)
    (hsources : ∀ l ∈ loops, l.2 ∈ q.sources) (hon : ∀ l ∈ loops, ∃ g : Sight, g.Of q sites 0 ∧ g.Tests l.2.on)
    (hheads : ∀ head ∈ loopHeads (loops.map Prod.snd) start, head.1 ∈ heads)
    (hexhausted : Goes heads last (start + loopsSize (loops.map Prod.snd)) exhausted)
    (hle : start + loopsSize (loops.map Prod.snd) ≤ last) : AllAt Q start (loopsCode loops exhausted start) := by
  induction loops generalizing exhausted start with
  | nil => trivial
  | cons l rest ih =>
    obtain ⟨opening, s⟩ := l
    obtain ⟨hopen, hopens⟩ := List.forall_mem_cons.mp hopens
    obtain ⟨hsource, hsources⟩ := List.forall_mem_cons.mp hsources
    obtain ⟨⟨g, hg, htest⟩, hon⟩ := List.forall_mem_cons.mp hon
    simp only [List.map_cons, loopHeads, loopsSize] at hheads hexhausted hle
    obtain ⟨hhead, hheads⟩ := List.forall_mem_cons.mp hheads
    have hsize : loopSize s = 2 + testSize s.on := rfl
    rw [loopsCode, allAt_append, length_loopCode]
    exact ⟨⟨hopen start, (inQuery_advance (s := s) hsource hg htest hhead (hexhausted.earlier (by omega)) (by omega)).mono hQ⟩,
      ih hopens hsources hon hheads ⟨.inr hhead, by omega⟩ (by omega)⟩

end QueryCode

end Parts

/-! ### Layout of queries -/

namespace QueryCode

theorem innermost_mem {sources : List BoundSource} (h : sources ≠ []) (exhausted start : Nat) :
    innermost sources exhausted start ∈ (loopHeads sources start).map Prod.fst := by
  induction sources generalizing exhausted start with
  | nil => exact absurd rfl h
  | cons s rest ih =>
    cases rest with
    | nil => exact List.mem_cons_self
    | cons s' rest => exact List.mem_cons_of_mem _ (ih (List.cons_ne_nil _ _) (start + 1) (start + loopSize s))

theorem innermost_le (sources : List BoundSource) {exhausted start last : Nat} (hexhausted : exhausted ≤ last)
    (hle : start + loopsSize sources ≤ last) : innermost sources exhausted start ≤ last := by
  induction sources generalizing exhausted start with
  | nil => exact hexhausted
  | cons s rest ih =>
    have hsize : loopSize s = 2 + testSize s.on := rfl
    rw [loopsSize] at hle
    exact ih (by omega) (by omega)

end QueryCode

namespace BoundQuery

open QueryCode

/-- The code of a query makes its table, runs through the nested loops around the body, then comes to what is done after
them, which is nothing but the loop over the groups, and halts. -/
structure LaidOut (q : BoundQuery) (sites : QuerySites) (loopsDone done : Nat) (body after : List Instruction) : Prop where
  code : q.code sites = prologue q sites ++ ((loopsCode (sites.opens.zip q.sources) loopsDone (prologue q sites).length ++
    roundCode q.filter body (innermost q.sources loopsDone (prologue q sites).length)
      ((prologue q sites).length + loopsSize q.sources)) ++ (after ++ [{ opcode := .halt }]))
  loops : loopsDone = (prologue q sites).length + loopsSize q.sources + testSize q.filter + body.length + 1
  rest : done = loopsDone + after.length
  inside : ∀ {supplies heads}, .grouping sites.group ∈ supplies →
    innermost q.sources loopsDone (prologue q sites).length ∈ heads →
    innermost q.sources loopsDone (prologue q sites).length ≤ done → AllAt (InQuery q sites supplies heads done)
      ((prologue q sites).length + loopsSize q.sources + testSize q.filter) body
  outside : after = [] ∨ ∃ g, q.grouping = some g ∧ after = groupLoopCode q g sites done loopsDone

end BoundQuery

namespace QueryBound

open QueryCode

variable {env : Environment} {scopes : ScopeStack} {first : Nat} {q : BoundQuery} {entries : SourceList}
variable (hbound : QueryBound env scopes first q entries) (sites : QuerySites)

include hbound

theorem exists_laidOut : ∃ loopsDone done body after, q.LaidOut sites loopsDone done body after := by
  let bodyAt := (prologue q sites).length + loopsSize q.sources + testSize q.filter
  have hstart : 0 < bodyAt := by
    simp only [bodyAt, prologue, setupCode, List.length_append, List.length_singleton]
    omega
  cases hgrouping : q.grouping with
  | none =>
    let done := bodyAt + outputSize q sites + 1
    refine ⟨done, done, outputCode q sites (innermost q.sources done (prologue q sites).length) done bodyAt, [], ?_, ?_, rfl,
      ?_, .inl rfl⟩
    · simp only [BoundQuery.code, hgrouping, roundCode, List.append_assoc, List.nil_append, done, bodyAt]
    · rw [length_outputCode]
    · intro supplies heads _ hinner hle
      exact inQuery_output (hbound.output_of sites) hbound.fields ⟨.inr hinner, hle⟩ ⟨.inl (Nat.le_succ _), Nat.le_refl _⟩
        hstart (Nat.le_succ _)
  | some g =>
    let loopsDone := bodyAt + groupRowSize g q.slots + 1
    let last := loopsDone + groupLoopSize q g sites
    refine ⟨loopsDone, last, groupRowCode g q.slots sites.group bodyAt, groupLoopCode q g sites last loopsDone, ?_, ?_, ?_, ?_,
      .inr ⟨g, hgrouping, rfl⟩⟩
    · simp only [BoundQuery.code, hgrouping, roundCode, List.append_assoc, loopsDone, last, bodyAt]
    · rw [length_groupRowCode]
    · rw [length_groupLoopCode]
    · intro supplies heads hsupply _ _
      have hg : (entries.sight []).Of q sites sites.group := hbound.sight_of sites sites.group (List.Subset.refl entries)
      have hargs : ∀ s ∈ q.slots, TypedExpr.AllWellTyped (entries.sight []) s.args := by
        intro s hs
        obtain ⟨i, hi⟩ := List.mem_iff_getElem?.mp hs
        exact (hbound.slots i s hi).2.args
      have hsize : groupRowSize g q.slots = TypedExpr.codesSize g.keys + 1 + accumulateSize q.slots := rfl
      simp only [groupRowCode, allAt_append, List.length_append, TypedExpr.length_codes, List.length_singleton, ← Nat.add_assoc]
      refine ⟨⟨TypedExpr.inQuery_codes hg _ _ (hbound.keys g hgrouping) (by omega),
        .plain (.groups (.inr (.inl rfl)) (by rw [hgrouping]; rfl) rfl hsupply) rfl, trivial⟩,
        inQuery_accumulate hg hargs (fun s hs => hbound.slot_lt hs) (by omega)⟩

variable {sites} {supplies : List Supply} {heads : List Nat} {last start : Nat}

theorem inQuery_groupBody {g : Grouping} (hgrouping : q.grouping = some g) {done : Nat} (hstart : 0 < start)
    (hdone : Goes heads last (start + (testSize g.having + outputSize q sites)) done)
    (hle : start + (testSize g.having + outputSize q sites) ≤ last) :
    AllAt (InQuery q sites supplies heads last) start (groupBody q g sites done start) := by
  have hg := hbound.output_of sites
  rw [groupBody, allAt_append, length_testCode]
  refine ⟨inQuery_test hg (hbound.having g hgrouping) _ ⟨.inl (by omega), by omega⟩ (by omega), ?_⟩
  exact inQuery_output hg hbound.fields ⟨.inl (Nat.le_refl _), by omega⟩ (hdone.earlier (by omega)) (by omega) (by omega)

theorem inQuery_groupLoop {g : Grouping} (hgrouping : q.grouping = some g) {done : Nat} (hhead : start + 1 ∈ heads)
    (hsupply : .grouping sites.group ∈ supplies) (hdone : Goes heads last (start + groupLoopSize q g sites) done)
    (hle : start + groupLoopSize q g sites ≤ last) :
    AllAt (InQuery q sites supplies heads last) start (groupLoopCode q g sites done start) := by
  have hgrouped : q.grouping.isSome = true := by rw [hgrouping]; rfl
  have hsize : groupLoopSize q g sites = testSize g.having + outputSize q sites + 2 := rfl
  rw [groupLoopCode_eq, allAt_cons, allAt_append]
  exact ⟨.jump (.groups (.inr (.inr rfl)) hgrouped rfl hsupply) rfl (hdone.earlier (by omega)),
    hbound.inQuery_groupBody hgrouping (by omega) (hdone.earlier (by omega)) (by omega),
    .jump (.nextGroup rfl hgrouped rfl) rfl ⟨.inr hhead, by omega⟩, trivial⟩

theorem on_of (sites : QuerySites) {b : BoundSource} (hb : b ∈ q.sources) : ∃ g : Sight, g.Of q sites 0 ∧ g.Tests b.on := by
  obtain ⟨i, hi⟩ := List.mem_iff_getElem?.mp hb
  refine ⟨_, ?_, hbound.sources.on i b hi⟩
  rw [ScopeStack.entries_push_query, List.nil_append]
  exact hbound.sight_of sites 0 (List.take_subset _ _)

variable {loopsDone done : Nat} {body after : List Instruction} (hlaid : q.LaidOut sites loopsDone done body after)
variable (hsupply : .grouping sites.group ∈ supplies)

include hlaid hsupply

theorem inQuery_round (hinner : innermost q.sources loopsDone (prologue q sites).length ∈ heads) :
    AllAt (InQuery q sites supplies heads done) ((prologue q sites).length + loopsSize q.sources)
      (roundCode q.filter body (innermost q.sources loopsDone (prologue q sites).length)
        ((prologue q sites).length + loopsSize q.sources)) := by
  have hloops := hlaid.loops
  have hrest := hlaid.rest
  have hle : innermost q.sources loopsDone (prologue q sites).length ≤ done := innermost_le q.sources (by omega) (by omega)
  simp only [roundCode, allAt_append, length_testCode]
  exact ⟨⟨inQuery_test (hbound.sight_of sites 0 (List.Subset.refl entries)) hbound.filter _ ⟨.inr hinner, hle⟩ (by omega),
    hlaid.inside hsupply hinner hle⟩, .jump (.free rfl) rfl ⟨.inr hinner, hle⟩, trivial⟩

/-- The code up to the end of the loops is as `Q` says, if instructions of the query and those that open its sources are. -/
theorem allAt_loops {Q : Nat → Instruction → Prop} (hQ : ∀ a op, Instruction.InQuery q sites supplies heads done a op → Q a op)
    (hzip : (sites.opens.zip q.sources).map Prod.snd = q.sources)
    (hcreate : Q 0 { opcode := .createTable, p1 := sites.table, comment := some q.name })
    (hopens : ∀ l ∈ sites.opens.zip q.sources, ∀ a, Q a l.1)
    (hheads : ∀ head ∈ loopHeads q.sources (prologue q sites).length, head.1 ∈ heads) :
    AllAt Q 0 (prologue q sites) ∧ AllAt Q (prologue q sites).length
      (loopsCode (sites.opens.zip q.sources) loopsDone (prologue q sites).length ++
        roundCode q.filter body (innermost q.sources loopsDone (prologue q sites).length)
          ((prologue q sites).length + loopsSize q.sources)) := by
  have hloops := hlaid.loops
  have hrest := hlaid.rest
  have hsources : ∀ l ∈ sites.opens.zip q.sources, l.2 ∈ q.sources := fun l hl => (List.of_mem_zip hl).2
  obtain ⟨head, hhead, hinner⟩ := List.mem_map.mp
    (innermost_mem hbound.sources.nonempty loopsDone (prologue q sites).length)
  have hround := (hbound.inQuery_round hlaid hsupply (hinner ▸ hheads head hhead)).mono hQ
  rw [← hzip] at hheads
  constructor
  · obtain ⟨rest, hprologue, hrest⟩ := inQuery_prologue (q := q) hsupply
    rw [hprologue]
    exact ⟨hcreate, hrest.mono hQ⟩
  · rw [allAt_append, length_loopsCode, hzip]
    refine ⟨QueryCode.allAt_loops hQ _ hopens hsources (fun l hl => hbound.on_of sites (hsources l hl)) hheads ?_ ?_, hround⟩
    · exact hzip.symm ▸ ⟨.inl (by omega), by omega⟩
    · exact hzip.symm ▸ (by omega)

end QueryBound

namespace Instruction

/-- The instruction at address `a` jumps forward or to one of the heads, fills up none but the supplies, adds rows to the
table alone and reads none but those before it. -/
structure Tame (table : Nat) (heads : List Nat) (supplies : List Supply) (a : Nat) (op : Instruction) : Prop where
  jumps : op.opcode.isJump = true → ∃ target : Nat, op.p2 = target ∧ (a < target ∨ target ∈ heads)
  fills : ∀ s, op.fillsUp = some s → s ∈ supplies
  reads : ∀ n, op.reads = some n → n < table
  writes : ∀ n, op.writes = some n → n = table

end Instruction

/-- Concerned with neither supplies nor rows of tables. -/
def Opcode.isQuiet : Opcode → Bool
  | .openSource | .openTable | .resetGroups | .groupKey | .rewindGroups | .makeRecord | .copyRow => false
  | _ => true

namespace Instruction

variable {table : Nat} {heads : List Nat} {supplies : List Supply} {a : Nat} {op : Instruction}

theorem Tame.mono {heads' : List Nat} {supplies' : List Supply} (h : Tame table heads supplies a op) (hheads : heads ⊆ heads')
    (hsupplies : supplies ⊆ supplies') : Tame table heads' supplies' a op where
  jumps hop := by
    obtain ⟨target, htarget, hgoes⟩ := h.jumps hop
    exact ⟨target, htarget, hgoes.imp_right fun hmem => hheads hmem⟩
  fills s hs := hsupplies (h.fills s hs)
  reads := h.reads
  writes := h.writes

theorem Tame.of_isQuiet (h : op.opcode.isQuiet = true)
    (hjumps : op.opcode.isJump = true → ∃ target : Nat, op.p2 = target ∧ (a < target ∨ target ∈ heads)) :
    Tame table heads supplies a op where
  jumps := hjumps
  fills s hs := by
    unfold fillsUp at hs
    split at hs <;> simp_all [Opcode.isQuiet]
  reads n hn := by
    unfold Instruction.reads at hn
    split at hn <;> simp_all [Opcode.isQuiet]
  writes n hn := by
    unfold Instruction.writes at hn
    split at hn <;> simp_all [Opcode.isQuiet]

theorem Tame.quiet (h : op.opcode.isQuiet = true) (hjump : op.opcode.isJump = false) : Tame table heads supplies a op :=
  .of_isQuiet h (by simp [hjump])

theorem Tame.jump (h : op.opcode.isQuiet = true) {target : Nat} (htarget : op.p2 = target)
    (hgoes : a < target ∨ target ∈ heads) : Tame table heads supplies a op :=
  .of_isQuiet h fun _ => ⟨target, htarget, hgoes⟩

theorem Tame.record (hop : op.opcode = .makeRecord ∧ op.p1 = table ∨ op.opcode = .copyRow ∧ op.p3 = table) :
    Tame table heads supplies a op := by
  obtain ⟨opcode, p1, p2, p3, operand, comment⟩ := op
  rcases hop with ⟨rfl, rfl⟩ | ⟨rfl, rfl⟩
  all_goals constructor <;> simp [Opcode.isJump, fillsUp, Instruction.reads, Instruction.writes]

theorem Tame.groups (hop : op.opcode = .resetGroups ∨ op.opcode = .groupKey ∨ op.opcode = .rewindGroups) {k : Nat}
    (hk : op.p1 = k) (h : .grouping k ∈ supplies)
    (hjumps : op.opcode.isJump = true → ∃ target : Nat, op.p2 = target ∧ (a < target ∨ target ∈ heads)) :
    Tame table heads supplies a op := by
  refine ⟨hjumps, ?_, ?_, ?_⟩ <;>
    rcases hop with hop | hop | hop <;> simp [fillsUp, Instruction.reads, Instruction.writes, hop, hk, h]

theorem InQuery.tame {q : BoundQuery} {sites : QuerySites} {last : Nat} (h : op.InQuery q sites supplies heads last a) :
    Tame sites.table heads supplies a op := by
  have hjumps : op.opcode.isJump = true → ∃ target : Nat, op.p2 = target ∧ (a < target ∨ target ∈ heads) := by
    intro hjump
    obtain ⟨target, htarget, hgoes, -⟩ := h.jumps hjump
    exact ⟨target, htarget, hgoes⟩
  cases h.works with
  | free hop =>
    refine .of_isQuiet ?_ hjumps
    revert hop
    cases op.opcode <;> simp [Opcode.isFree, Opcode.isQuiet]
  | cursor hop | slot hop => rcases hop with hop | hop <;> exact .of_isQuiet (by rw [hop]; rfl) hjumps
  | count hop =>
    refine .of_isQuiet ?_ hjumps
    revert hop
    cases op.opcode <;> simp [Opcode.isCount, Opcode.isQuiet]
  | record hop htable => exact .record (.inl ⟨hop, htable⟩)
  | groups hop hgrouped hgroup hsupply => exact .groups hop hgroup hsupply hjumps
  | nextGroup hop => exact .of_isQuiet (by rw [hop]; rfl) hjumps

end Instruction

/-! ### Heads -/

theorem Opcode.isJump_of_mem_flows {opcode : Opcode} (h : Flow.jump ∈ opcode.flows) : opcode.isJump = true := by
  cases opcode with
  | goto | ifTrue | ifNot | ifPos | ifNotPos | next | rewindGroups | nextGroup | found | notFound => rfl
  | _ => exact absurd h (by decide)

namespace Procedure

variable {p : Procedure} {table a b l : Nat} {heads : List Nat} {supplies : List Supply} {op : Instruction} {flow : Flow}

/-- From a tame instruction a way back goes to one of the heads. -/
theorem Leads.of_tame (h : p.Leads a flow b) (hop : p.code[a]? = some op) (htame : op.Tame table heads supplies a) :
    a < b ∨ b ∈ heads := by
  obtain ⟨op', hop', hflow, hgoes, hb⟩ := h
  obtain rfl : op = op' := Option.some.inj (hop.symm.trans hop')
  cases flow with
  | next =>
    obtain rfl : a + 1 = b := Option.some.inj hb
    exact .inl (Nat.lt_succ_self a)
  | jump =>
    obtain ⟨target, htarget, hforward⟩ := htame.jumps (Opcode.isJump_of_mem_flows hflow)
    simp only [Machine.following, htarget, place?_natCast, Option.some.injEq] at hb
    exact hb ▸ hforward
  | halt => exact absurd rfl hgoes

/-- The last code of a procedure is closed if it is tame and has its heads inside. -/
theorem closedFrom_of_tame {rest : List Instruction} (htame : AllAt (Instruction.Tame table heads supplies) l rest)
    (hrest : p.HasCode l rest) (hsize : p.code.size = l + rest.length) (hheads : ∀ head ∈ heads, l ≤ head) :
    p.ClosedFrom l := by
  intro a flow b hl hleads
  have ⟨op, hop, _⟩ := hleads
  have hlt := (Array.getElem?_eq_some_iff.mp hop).1
  rcases hleads.of_tame hop (htame.get hrest hl (hsize ▸ hlt) hop) with hforward | hmem
  · omega
  · exact hheads b hmem

theorem head_of_next {c exhausted : Nat} (hop : p.code[a]? = some { opcode := .next, p1 := c, p2 := exhausted })
    (hout : exhausted < a ∨ l ≤ exhausted) (hlt : a < l) (hclosed : p.ClosedFrom l)
    (hkeeps : ∀ b op, a ≤ b → b < l → p.code[b]? = some op → op.fillsUp ≠ some (.cursor c)) :
    p.Head a l (.cursor c) := by
  refine ⟨hlt, hclosed, hkeeps, .inl fun flow b op hop' hleads hle hb => ?_⟩
  obtain rfl : _ = op := Option.some.inj (hop.symm.trans hop')
  obtain ⟨op', hop', hflow, hgoes, hfollows⟩ := hleads
  obtain rfl : _ = op' := Option.some.inj (hop.symm.trans hop')
  cases flow with
  | next => rfl
  | jump =>
    simp only [Machine.following, place?_natCast, Option.some.injEq] at hfollows
    omega
  | halt => exact absurd rfl hgoes

/-- The procedure winds down, adds rows to table `i` alone and reads none but those before it. -/
structure Orderly (p : Procedure) (i : Nat) : Prop extends p.Owns i where
  windsDown : p.WindsDown

theorem orderly_of_tame {name : String} {code : List Instruction} (htame : AllAt (Instruction.Tame table heads supplies) 0 code)
    (hheads : ∀ a ∈ heads, ∃ l s, Head ⟨name, code.toArray⟩ a l s) : Orderly ⟨name, code.toArray⟩ table := by
  have hget : ∀ (a : Nat) (op : Instruction), code.toArray[a]? = some op → op.Tame table heads supplies a := by
    intro a op hop
    rw [List.getElem?_toArray] at hop
    refine htame.get (.ofCode name code) (Nat.zero_le a) ?_ (by rwa [List.getElem?_toArray])
    rw [Nat.zero_add]
    exact (List.getElem?_eq_some_iff.mp hop).1
  refine ⟨⟨fun a op n hop => (hget a op hop).reads n, fun a op n hop => (hget a op hop).writes n⟩, ?_⟩
  refine windsDown_of_heads fun b flow a hleads hle => ?_
  have ⟨op, hop, _⟩ := hleads
  rcases hleads.of_tame hop (hget b op hop) with hlt | hmem
  · omega
  · exact hheads a hmem

/-- Loops, and then code that does not go back to them, make an orderly procedure. -/
theorem orderly_of_parts {name : String} {before loops after code : List Instruction} {loopHeads afterHeads : List Nat}
    {loopsDone : Nat} (hcode : code = before ++ (loops ++ after)) (hdone : loopsDone = before.length + loops.length)
    (hbefore : AllAt (Instruction.Tame table loopHeads supplies) 0 before)
    (hloops : AllAt (Instruction.Tame table loopHeads supplies) before.length loops)
    (hafter : AllAt (Instruction.Tame table afterHeads supplies) loopsDone after)
    (hloopHeads : HasCode ⟨name, code.toArray⟩ before.length loops → ClosedFrom ⟨name, code.toArray⟩ loopsDone →
      ∀ a ∈ loopHeads, ∃ l s, Head ⟨name, code.toArray⟩ a l s)
    (hafterHeads : HasCode ⟨name, code.toArray⟩ loopsDone after → code.length = loopsDone + after.length →
      ∀ a ∈ afterHeads, loopsDone ≤ a ∧ ∃ l s, Head ⟨name, code.toArray⟩ a l s) :
    Orderly ⟨name, code.toArray⟩ table := by
  have hparts := HasCode.ofEq name hcode
  have hfirst := hparts.right.left
  have hlast := hparts.right.right
  rw [Nat.zero_add] at hfirst hlast
  rw [← hdone] at hlast
  have hlength : code.length = loopsDone + after.length := by
    simp only [hcode, List.length_append]
    omega
  have hlater := hafterHeads hlast hlength
  have hearlier := hloopHeads hfirst (closedFrom_of_tame hafter hlast hlength fun a ha => (hlater a ha).1)
  have htame : AllAt (Instruction.Tame table (loopHeads ++ afterHeads) supplies) 0 code := by
    rw [hcode]
    simp only [allAt_append, Nat.zero_add, ← hdone]
    exact ⟨hbefore.mono fun a op h => h.mono (List.subset_append_left _ _) (List.Subset.refl _),
      hloops.mono fun a op h => h.mono (List.subset_append_left _ _) (List.Subset.refl _),
      hafter.mono fun a op h => h.mono (List.subset_append_right _ _) (List.Subset.refl _)⟩
  refine orderly_of_tame htame fun a ha => ?_
  rcases List.mem_append.mp ha with hmem | hmem
  · exact hearlier a hmem
  · exact (hlater a hmem).2

end Procedure

namespace QueryCode

open Instruction (Tame)

/-- The instruction opens the cursor, over a source of rows or a table before `table`. -/
def Opens (table cursor : Nat) (op : Instruction) : Prop :=
  op.opcode = .openSource ∧ op.p1 = cursor ∨
    op.opcode = .openTable ∧ op.p1 = cursor ∧ ∃ n : Nat, op.p2 = n ∧ n < table

section Loops

variable {p : Procedure} {q : BoundQuery} {sites : QuerySites} {start exhausted l : Nat} {heads : List Nat}
variable {supplies : List Supply} {op : Instruction} {table cursor a : Nat}

theorem Opens.fills (h : Opens table cursor op) : op.fillsUp = some (.cursor cursor) := by
  rcases h with ⟨hop, hcursor⟩ | ⟨hop, hcursor, -⟩ <;> simp [Instruction.fillsUp, hop, hcursor]

theorem Opens.tame (h : Opens table cursor op) (hsupplies : .cursor cursor ∈ supplies) :
    Tame table heads supplies a op := by
  have hfills := h.fills
  rcases h with ⟨hop, -⟩ | ⟨hop, -, n, hn, hlt⟩
  · constructor <;> simp [Opcode.isJump, Instruction.reads, Instruction.writes, hop, hfills, hsupplies]
  · constructor <;> simp [Opcode.isJump, Instruction.reads, Instruction.writes, hop, hfills, hsupplies, hn, hlt]

/-- Nested loops over different cursors have heads, if what they go round leaves the cursors alone. -/
theorem heads_of_loops (loops : List (Instruction × BoundSource)) (hsources : ∀ l ∈ loops, l.2 ∈ q.sources)
    (hon : ∀ l ∈ loops, ∃ g : Sight, g.Of q sites 0 ∧ g.Tests l.2.on)
    (hopens : ∀ l ∈ loops, Opens sites.table l.2.cursor l.1) (hnodup : (loops.map fun l => l.2.cursor).Nodup)
    (hcode : p.HasCode start (loopsCode loops exhausted start)) (hexhausted : exhausted ≤ start ∨ exhausted = l)
    (hle : start + loopsSize (loops.map Prod.snd) ≤ l) (hclosed : p.ClosedFrom l)
    (hinside : ∀ a op c, start + loopsSize (loops.map Prod.snd) ≤ a → a < l → p.code[a]? = some op →
      op.fillsUp ≠ some (.cursor c)) :
    ∀ head ∈ loopHeads (loops.map Prod.snd) start, p.Head head.1 l (.cursor head.2) := by
  induction loops generalizing exhausted start with
  | nil => simp [loopHeads]
  | cons first rest ih =>
    obtain ⟨opening, s⟩ := first
    obtain ⟨hsource, hsources⟩ := List.forall_mem_cons.mp hsources
    obtain ⟨⟨g, hg, htest⟩, hon⟩ := List.forall_mem_cons.mp hon
    obtain ⟨hopen, hopens⟩ := List.forall_mem_cons.mp hopens
    obtain ⟨hnew, hnodup⟩ := List.nodup_cons.mp hnodup
    simp only [List.map_cons, loopsSize, ← Nat.add_assoc] at hle hinside
    have hsize : loopSize s = 2 + testSize s.on := rfl
    have hround : p.HasCode (start + 1) (_ :: _) := hcode.left.tail
    have hrest := hcode.right
    rw [length_loopCode] at hrest
    have hback : start + 1 ≤ start + loopSize s := by omega
    refine List.forall_mem_cons.mpr ⟨?_, ih hsources hon hopens hnodup hrest (.inl hback) hle hinside⟩
    -- The rest of the round fills nothing up, the inner loops other cursors.
    let heads := (start + 1) :: exhausted :: (loopHeads (rest.map Prod.snd) (start + loopSize s)).map Prod.fst
    have hnone : ∀ a op, Instruction.InQuery q sites [] heads l a op → op.fillsUp ≠ some (.cursor s.cursor) := fun a op h hfills =>
      absurd (h.tame.fills _ hfills) List.not_mem_nil
    have hfirst : AllAt (fun _ op => op.fillsUp ≠ some (.cursor s.cursor)) (start + 1) _ :=
      (inQuery_advance (s := s) hsource hg htest List.mem_cons_self
        ⟨.inr (List.mem_cons_of_mem _ List.mem_cons_self), by omega⟩ (by omega)).mono hnone
    have hinner : AllAt (fun _ op => op.fillsUp ≠ some (.cursor s.cursor)) (start + loopSize s)
        (loopsCode rest (start + 1) (start + loopSize s)) := by
      refine allAt_loops hnone rest (fun first hmem a hfills => ?_) hsources hon
        (fun head hhead => List.mem_cons_of_mem _ (List.mem_cons_of_mem _ (List.mem_map_of_mem hhead)))
        ⟨.inr List.mem_cons_self, by omega⟩ hle
      rw [(hopens first hmem).fills] at hfills
      exact hnew (List.mem_map.mpr ⟨first, hmem, Supply.cursor.inj (Option.some.inj hfills)⟩)
    refine Procedure.head_of_next hround.head (by omega) (by omega) hclosed fun b op hb hlt hop => ?_
    rcases Nat.lt_or_ge b (start + loopSize s) with hbefore | hlater
    · exact hfirst.get hround hb (by simp only [List.length_cons, length_testCode]; omega) hop
    · rcases Nat.lt_or_ge b (start + loopSize s + loopsSize (rest.map Prod.snd)) with hbefore | hlast
      · exact hinner.get hrest hlater (by rwa [length_loopsCode]) hop
      · exact hinside b op s.cursor hlast hlt hop

end Loops

/-- The loop over the groups has its head where it comes back for the next group. -/
theorem head_of_groupLoop {p : Procedure} {env : Environment} {scopes : ScopeStack} {first : Nat} {q : BoundQuery}
    {entries : SourceList} {sites : QuerySites} {g : Grouping} {start done : Nat}
    (hbound : QueryBound env scopes first q entries) (hgrouping : q.grouping = some g)
    (hcode : p.HasCode start (groupLoopCode q g sites done start)) (hdone : start + groupLoopSize q g sites ≤ done)
    (hclosed : p.ClosedFrom (start + groupLoopSize q g sites)) :
    p.Head (start + 1) (start + groupLoopSize q g sites) (.grouping sites.group) := by
  unfold groupLoopSize at hdone hclosed ⊢
  rw [groupLoopCode_eq] at hcode
  have hbody := hcode.tail.left
  have hnext := hcode.tail.right.head
  rw [length_groupBody] at hnext
  have hleaves : Goes [] done (start + 1 + (testSize g.having + outputSize q sites)) done := ⟨.inl (by omega), Nat.le_refl _⟩
  have htame : AllAt (Tame sites.table [] []) (start + 1) (groupBody q g sites done (start + 1)) :=
    (hbound.inQuery_groupBody hgrouping (by omega) hleaves (by omega)).mono fun a op h => h.tame
  have hinside : ∀ b op, start + 1 ≤ b → b < start + (testSize g.having + outputSize q sites + 2) → p.code[b]? = some op →
      op.Tame sites.table [] [] b ∨ op = { opcode := .nextGroup, p1 := sites.group, p2 := (start + 1 : Nat) } := by
    intro b op hle hlt hop
    rcases Nat.lt_or_ge b (start + 1 + (testSize g.having + outputSize q sites)) with hfirst | hlast
    · exact .inl (htame.get hbody hle (by rwa [length_groupBody]) hop)
    · obtain rfl : b = start + 1 + (testSize g.having + outputSize q sites) := by omega
      exact .inr (Option.some.inj (hop.symm.trans hnext))
  refine ⟨by omega, hclosed, fun b op hle hlt hop hfills => ?_, .inr fun flow b op hop hle hlt hleads => ?_⟩
  · rcases hinside b op hle hlt hop with htame | rfl
    · exact absurd (htame.fills _ hfills) List.not_mem_nil
    · cases hfills
  · rcases hinside b op hle hlt hop with htame | rfl
    · exact absurd ((hleads.of_tame hop htame).resolve_right List.not_mem_nil) (by omega)
    · obtain ⟨op', hop', -, hgoes, hb⟩ := hleads
      cases flow with
      | next =>
        obtain h : b + 1 = start + 1 := Option.some.inj hb
        omega
      | jump => simp [Instruction.takesFrom]
      | halt => exact absurd rfl hgoes

end QueryCode

open Instruction (Tame)
open QueryCode

theorem BoundQuery.orderly {env : Environment} {scopes : ScopeStack} {first : Nat} {q : BoundQuery} {entries : SourceList}
    {sites : QuerySites} (hbound : QueryBound env scopes first q entries)
    (hopens : List.Forall₂ (fun b op => Opens sites.table b.cursor op) q.sources sites.opens) :
    Procedure.Orderly ⟨q.name, (q.code sites).toArray⟩ sites.table := by
  obtain ⟨loopsDone, done, body, after, hlaid⟩ := hbound.exists_laidOut sites
  have hlength := hopens.length_eq
  have hsnd : (sites.opens.zip q.sources).map Prod.snd = q.sources := List.map_snd_zip (by omega)
  have hsources : ∀ l ∈ sites.opens.zip q.sources, l.2 ∈ q.sources := fun l hl => (List.of_mem_zip hl).2
  have hon : ∀ l ∈ sites.opens.zip q.sources, ∃ g : Sight, g.Of q sites 0 ∧ g.Tests l.2.on := fun l hl =>
    hbound.on_of sites (hsources l hl)
  have hopened : ∀ l ∈ sites.opens.zip q.sources, Opens sites.table l.2.cursor l.1 := fun l hl =>
    List.forall₂_zip hopens.flip hl
  have hnodup : ((sites.opens.zip q.sources).map fun l => l.2.cursor).Nodup := by
    have hcursors : (q.sources.map BoundSource.cursor).Nodup := hbound.sources.cursors ▸ List.nodup_range'
    rwa [← hsnd, List.map_map] at hcursors
  let start := (prologue q sites).length
  let heads := (loopHeads q.sources start).map Prod.fst
  let supplies : List Supply := (sites.opens.zip q.sources).map (fun l => .cursor l.2.cursor) ++ [.grouping sites.group]
  have hgroup : .grouping sites.group ∈ supplies := List.mem_append_right _ (List.mem_singleton_self _)
  have hloops := hlaid.loops
  have hrest := hlaid.rest
  obtain ⟨hbefore, hlooping⟩ := hbound.allAt_loops hlaid hgroup (Q := Tame sites.table heads supplies)
    (fun a op h => h.tame) hsnd (.quiet rfl rfl)
    (fun l hl a => (hopened l hl).tame (List.mem_append_left _ (List.mem_map_of_mem hl)))
    fun head hhead => List.mem_map_of_mem hhead
  have hround := hbound.inQuery_round hlaid (List.mem_singleton_self (Supply.grouping sites.group))
    (innermost_mem hbound.sources.nonempty loopsDone start)
  have horderly : ∀ afterHeads, AllAt (Tame sites.table afterHeads supplies) loopsDone (after ++ [{ opcode := .halt }]) →
      (Procedure.HasCode ⟨q.name, (q.code sites).toArray⟩ loopsDone (after ++ [{ opcode := .halt }]) →
        (q.code sites).length = loopsDone + (after.length + 1) →
        ∀ a ∈ afterHeads, loopsDone ≤ a ∧ ∃ l s, Procedure.Head ⟨q.name, (q.code sites).toArray⟩ a l s) →
      Procedure.Orderly ⟨q.name, (q.code sites).toArray⟩ sites.table := by
    intro afterHeads hafter hafterHeads
    rw [← List.length_singleton, ← List.length_append] at hafterHeads
    refine Procedure.orderly_of_parts hlaid.code ?_ hbefore hlooping hafter ?_ hafterHeads
    · rw [List.length_append, length_loopsCode, hsnd, length_roundCode]
      omega
    · intro hparts hclosed a ha
      obtain ⟨head, hhead, rfl⟩ := List.mem_map.mp ha
      rw [← hsnd] at hhead
      have hinside := hparts.right
      rw [length_loopsCode, hsnd] at hinside
      refine ⟨_, _, heads_of_loops _ hsources hon hopened hnodup hparts.left (.inr rfl) (by rw [hsnd]; omega) hclosed ?_ head hhead⟩
      rw [hsnd]
      intro a op c hle hlt hop hfills
      have htame := (hround.get hinside hle (by rw [length_roundCode]; omega) hop).tame
      cases List.mem_singleton.mp (htame.fills _ hfills)
  have hhalt : ∀ a, AllAt (Tame sites.table [] []) a [{ opcode := .halt }] := fun a => ⟨.quiet rfl rfl, trivial⟩
  rcases hlaid.outside with rfl | ⟨g, hgrouping, rfl⟩
  · exact horderly [] ((hhalt _).mono fun a op h => h.mono (List.nil_subset _) (List.nil_subset _)) (by simp)
  · rw [length_groupLoopCode] at hrest
    have hleaves : Goes [loopsDone + 1] done (loopsDone + groupLoopSize q g sites) done := ⟨.inl (by omega), Nat.le_refl _⟩
    have hloop : AllAt (Tame sites.table [loopsDone + 1] supplies) loopsDone (groupLoopCode q g sites done loopsDone) :=
      (hbound.inQuery_groupLoop hgrouping (List.mem_singleton_self _) hgroup hleaves (by omega)).mono fun a op h => h.tame
    refine horderly [loopsDone + 1] (allAt_append.mpr ⟨hloop, .quiet rfl rfl, trivial⟩) fun hlast hlength a ha => ?_
    obtain rfl := List.mem_singleton.mp ha
    have hend := hlast.right
    rw [length_groupLoopCode] at hend
    refine ⟨Nat.le_succ _, _, _, head_of_groupLoop hbound hgrouping hlast.left (by omega) ?_⟩
    refine Procedure.closedFrom_of_tame (hhalt _) hend ?_ (by simp)
    rw [List.size_toArray, hlength, length_groupLoopCode]
    exact (Nat.add_assoc _ _ _).symm

/-! ### Set operations and descriptions -/

namespace SetCode

section Copies

variable {p : Procedure} {cursor source output done start : Nat} {probe : Option Probe}
variable {heads : List Nat} {supplies : List Supply}

/-- Passing a row over is a jump that leaves the supplies alone. -/
def Tests (probe : Option Probe) : Prop := ∀ x, probe = some x → x.opcode = .found ∨ x.opcode = .notFound

theorem tests_probe? (op : SetOperator) (keys : List Nat) (sites : SetSites) : Tests (probe? op keys sites) := by
  intro x h
  cases op <;> cases h
  · exact .inl rfl
  · exact .inl rfl
  · exact .inr rfl

/-- What a copy does for each row. -/
def copyRound (cursor output : Nat) (probe : Option Probe) (done head : Nat) : List Instruction :=
  { opcode := .next, p1 := cursor, p2 := done } :: (probeTest cursor head probe ++
    [{ opcode := .copyRow, p1 := cursor, p3 := output }, { opcode := .goto, p2 := head }])

theorem copyLoop_eq (cursor source output : Nat) (probe : Option Probe) (done start : Nat) :
    copyLoop cursor source output probe done start =
      { opcode := .openTable, p1 := cursor, p2 := source } :: copyRound cursor output probe done (start + 1) := rfl

theorem tame_copyRound (hprobe : Tests probe) (hdone : start + copyLoopSize probe ≤ done) (hhead : start + 1 ∈ heads) :
    AllAt (Tame output heads supplies) (start + 1) (copyRound cursor output probe done (start + 1)) := by
  have hforward : start + 1 < done := by
    unfold copyLoopSize at hdone
    split at hdone <;> omega
  refine ⟨.jump rfl rfl (.inl hforward),
    allAt_append.mpr ⟨?_, .record (.inr ⟨rfl, rfl⟩), .jump rfl rfl (.inr hhead), trivial⟩⟩
  cases probe with
  | none => trivial
  | some x =>
    refine ⟨?_, trivial⟩
    rcases hprobe x rfl with hop | hop
    · exact .jump (by rw [hop]; rfl) rfl (.inr hhead)
    · exact .jump (by rw [hop]; rfl) rfl (.inr hhead)

theorem tame_copyLoop (hprobe : Tests probe) (hdone : start + copyLoopSize probe ≤ done) (hhead : start + 1 ∈ heads)
    (hsource : source < output) (hcursor : .cursor cursor ∈ supplies) :
    AllAt (Tame output heads supplies) start (copyLoop cursor source output probe done start) := by
  have hopens : QueryCode.Opens output cursor { opcode := .openTable, p1 := cursor, p2 := source } :=
    .inr ⟨rfl, rfl, source, rfl, hsource⟩
  rw [copyLoop_eq, allAt_cons]
  exact ⟨hopens.tame hcursor, tame_copyRound hprobe hdone hhead⟩

/-- A copy has its head where it moves on. -/
theorem head_of_copyLoop (hcode : p.HasCode start (copyLoop cursor source output probe done start)) (hprobe : Tests probe)
    (hdone : start + copyLoopSize probe ≤ done) (hclosed : p.ClosedFrom (start + copyLoopSize probe)) :
    p.Head (start + 1) (start + copyLoopSize probe) (.cursor cursor) := by
  rw [copyLoop_eq] at hcode
  have hround := hcode.tail
  have hlength : (copyRound cursor output probe done (start + 1)).length + 1 = copyLoopSize probe :=
    length_copyLoop cursor source output probe done start
  have htame : AllAt (Tame output [start + 1] []) (start + 1) (copyRound cursor output probe done (start + 1)) :=
    tame_copyRound hprobe hdone List.mem_cons_self
  refine Procedure.head_of_next hround.head (.inr hdone) ?_ hclosed fun b op hle hlt hop hfills => ?_
  · rw [← hlength, copyRound, List.length_cons]
    omega
  · exact absurd ((htame.get hround hle (by omega) hop).fills _ hfills) List.not_mem_nil

end Copies

end SetCode

open SetCode

theorem SetOperator.orderly (op : SetOperator) (name : String) (keyId : Nat) (keys : List Nat) {sites : SetSites}
    (hleft : sites.left < sites.output) (hright : sites.right < sites.output) :
    Procedure.Orderly ⟨name, (op.code name keyId keys sites).toArray⟩ sites.output := by
  let probe := probe? op keys sites
  let before := [{ opcode := .createTable, p1 := sites.output, comment := some name }] ++ indexCode keyId keys probe
  let leftDone := before.length + copyLoopSize probe
  have hprobe : Tests probe := tests_probe? op keys sites
  let supplies : List Supply := [.cursor sites.leftCursor, .cursor sites.rightCursor]
  have hbefore : AllAt (Tame sites.output [before.length + 1] supplies) 0 before := by
    refine ⟨.quiet rfl rfl, ?_⟩
    cases probe with
    | none => trivial
    | some x => exact ⟨.quiet rfl rfl, trivial⟩
  have hcopy : AllAt (Tame sites.output [before.length + 1] supplies) before.length
      (copyLoop sites.leftCursor sites.left sites.output probe leftDone before.length) :=
    tame_copyLoop hprobe (Nat.le_refl _) List.mem_cons_self hleft List.mem_cons_self
  have hhead : ∀ p : Procedure,
      p.HasCode before.length (copyLoop sites.leftCursor sites.left sites.output probe leftDone before.length) →
      p.ClosedFrom leftDone → ∀ a ∈ [before.length + 1], ∃ l s, p.Head a l s := by
    intro p hcode hclosed a ha
    obtain rfl := List.mem_singleton.mp ha
    exact ⟨_, _, head_of_copyLoop hcode hprobe (Nat.le_refl _) hclosed⟩
  have hhalt : ∀ a, AllAt (Tame sites.output [] supplies) a [{ opcode := .halt }] := fun a => ⟨.quiet rfl rfl, trivial⟩
  cases hcopies : op.copiesRight with
  | false =>
    have hcode : op.code name keyId keys sites = before ++ (copyLoop sites.leftCursor sites.left sites.output probe leftDone
        before.length ++ [{ opcode := .halt }]) := by
      simp [code, hcopies, before, leftDone, probe]
    exact Procedure.orderly_of_parts hcode (by rw [length_copyLoop]) hbefore hcopy (hhalt leftDone) (hhead _)
      (by simp)
  | true =>
    let done := leftDone + copyLoopSize probe
    have hcode : op.code name keyId keys sites = before ++ (copyLoop sites.leftCursor sites.left sites.output probe leftDone
        before.length ++ (copyLoop sites.rightCursor sites.right sites.output probe done leftDone ++
          [{ opcode := .halt }])) := by
      simp [code, hcopies, before, leftDone, done, probe]
    have hsecond : AllAt (Tame sites.output [leftDone + 1] supplies) leftDone
        (copyLoop sites.rightCursor sites.right sites.output probe done leftDone) :=
      tame_copyLoop hprobe (Nat.le_refl _) List.mem_cons_self hright (List.mem_cons_of_mem _ List.mem_cons_self)
    refine Procedure.orderly_of_parts hcode (by rw [length_copyLoop]) hbefore hcopy
      (allAt_append.mpr ⟨hsecond, .quiet rfl rfl, trivial⟩) (hhead _) fun hlast hlength a ha => ?_
    obtain rfl := List.mem_singleton.mp ha
    have hend := hlast.right
    rw [length_copyLoop] at hend
    refine ⟨Nat.le_succ _, _, _, head_of_copyLoop hlast.left hprobe (Nat.le_refl _) ?_⟩
    refine Procedure.closedFrom_of_tame (hhalt _) hend ?_ (by simp)
    rw [List.size_toArray, hlength, List.length_append, length_copyLoop]
    exact (Nat.add_assoc _ _ _).symm

theorem orderly_describe (name source : String) (columns : List Column) (table : Nat) :
    Procedure.Orderly ⟨name, (describeCode source columns table).toArray⟩ table := by
  have htame : AllAt (Tame table [] []) 0 (describeCode source columns table) := by
    refine allAt_of_forall fun op hop a => ?_
    simp only [describeCode, List.mem_append, List.mem_flatMap, List.mem_cons, List.not_mem_nil, or_false] at hop
    rcases hop with (rfl | ⟨c, -, rfl | rfl | rfl⟩) | rfl
    · exact .quiet rfl rfl
    · exact .quiet rfl rfl
    · exact .quiet rfl rfl
    · exact .record (.inl ⟨rfl, rfl⟩)
    · exact .quiet rfl rfl
  exact Procedure.orderly_of_tame htame (by simp)

end TabularQuery
