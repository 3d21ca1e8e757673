import TabularQuery.Plan.Bound
import TabularQuery.Program.ExprCode

/-!
Code of queries. There is one loop for each source, an inner one inside the outer, with its join
condition tested in it. What passes the conditions and the filter is counted off against SKIP and TAKE
and written; in a grouped query it goes to its group, and a second loop over the groups does the
counting and the writing. Sizes are known before addresses, so that jumps can go forward.
-/

namespace TabularQuery

/-- The numbers of what a query's code uses. -/
structure QuerySites where
  /-- The table to write. -/
  table : Nat
  /-- Registers of SKIP and TAKE. -/
  skip : Option Nat
  take : Option Nat
  /-- The grouping, if the query has one. -/
  group : Nat
  /-- For each source the instruction that opens it. -/
  opens : List Instruction

namespace QueryCode

/-- A condition, after which only rows that meet it go on. -/
def testCode (group : Nat) (test : Option TypedExpr) (otherwise : Nat) (comment : Option String)
    (start : Nat) : List Instruction :=
  match test with
  | none => []
  | some e => e.code group start ++ [{ Instruction.jump .ifNot otherwise with comment }]

def testSize : Option TypedExpr → Nat
  | none => 0
  | some e => e.codeSize + 1

@[simp] theorem length_testCode (group : Nat) (test : Option TypedExpr) (otherwise : Nat)
    (comment : Option String) (start : Nat) :
    (testCode group test otherwise comment start).length = testSize test := by
  cases test <;> simp [testCode, testSize]

/-- Opens a source and moves on in it, going to `exhausted` at its end. The loop goes round at the
address after `start`. -/
def loopCode (opening : Instruction) (s : BoundSource) (exhausted start : Nat) : List Instruction :=
  [opening, { opcode := .next, p1 := s.cursor, p2 := exhausted }] ++
    testCode 0 s.on (start + 1) (some ("join " ++ s.aliasName)) (start + 2)

def loopSize (s : BoundSource) : Nat := 2 + testSize s.on

@[simp] theorem length_loopCode (opening : Instruction) (s : BoundSource) (exhausted start : Nat) :
    (loopCode opening s exhausted start).length = loopSize s := by
  simp [loopCode, loopSize]; omega

/-- Nested loops over sources with their opening instructions, the outermost first. -/
def loopsCode : List (Instruction × BoundSource) → (exhausted start : Nat) → List Instruction
  | [], _, _ => []
  | (opening, s) :: rest, exhausted, start =>
    loopCode opening s exhausted start ++ loopsCode rest (start + 1) (start + loopSize s)

def loopsSize : List BoundSource → Nat
  | [] => 0
  | s :: rest => loopSize s + loopsSize rest

theorem length_loopsCode (loops : List (Instruction × BoundSource)) (exhausted start : Nat) :
    (loopsCode loops exhausted start).length = loopsSize (loops.map Prod.snd) := by
  induction loops generalizing exhausted start with
  | nil => rfl
  | cons l rest ih => simp [loopsCode, loopsSize, ih]

/-- Where the innermost loop goes round. -/
def innermost : List BoundSource → (exhausted start : Nat) → Nat
  | [], exhausted, _ => exhausted
  | s :: rest, _, start => innermost rest (start + 1) (start + loopSize s)

/-- Passes a row over while there are rows to skip. -/
def skipTest (register : Option Nat) (skipped : Nat) : List Instruction :=
  match register with
  | some r => [{ opcode := .ifPos, p1 := r, p2 := skipped, p3 := 1 }]
  | none => []

/-- Ends when there are no more rows to take. -/
def takeTest (register : Option Nat) (done : Nat) : List Instruction :=
  match register with
  | some r => [{ opcode := .ifNotPos, p1 := r, p2 := done }]
  | none => []

/-- Counts a row that was taken. -/
def takeCount (register : Option Nat) : List Instruction :=
  match register with
  | some r => [{ opcode := .addImm, p1 := r, p3 := -1 }]
  | none => []

/-- Appends the values of the fields to a table. -/
def writeRow (q : BoundQuery) (table : Nat) : Instruction :=
  { opcode := .makeRecord, p1 := table, p3 := q.fields.length,
    operand := .types (q.fields.map BoundField.type) }

/-- Counts a row off and writes it: goes to `skipped` for a row to pass over, to `done` after the
last row to write. -/
def outputCode (q : BoundQuery) (sites : QuerySites) (skipped done start : Nat) :
    List Instruction :=
  let tests := skipTest sites.skip skipped ++ takeTest sites.take done
  tests ++ TypedExpr.codes sites.group (q.fields.map BoundField.expr) (start + tests.length) ++
    [writeRow q sites.table] ++ takeCount sites.take

def outputSize (q : BoundQuery) (sites : QuerySites) : Nat :=
  (if sites.skip.isSome then 1 else 0) + (if sites.take.isSome then 2 else 0) +
    TypedExpr.codesSize (q.fields.map BoundField.expr) + 1

@[simp] theorem length_outputCode (q : BoundQuery) (sites : QuerySites) (skipped done start : Nat) :
    (outputCode q sites skipped done start).length = outputSize q sites := by
  cases hs : sites.skip <;> cases ht : sites.take <;>
    simp [outputCode, outputSize, skipTest, takeTest, takeCount, hs, ht] <;> omega

/-- Hands a row to the accumulators of the current group. -/
def accumulateCode (group : Nat) : List AggregateSlot → (start : Nat) → List Instruction
  | [], _ => []
  | s :: rest, start =>
    TypedExpr.codes group s.args start ++
      [{ opcode := .accumulate, p1 := group, p2 := s.slot, p3 := s.args.length,
         operand := .types s.accumulator.params, comment := some s.accumulator.name }] ++
      accumulateCode group rest (start + TypedExpr.codesSize s.args + 1)

def accumulateSize : List AggregateSlot → Nat
  | [] => 0
  | s :: rest => TypedExpr.codesSize s.args + 1 + accumulateSize rest

@[simp] theorem length_accumulateCode (group : Nat) (slots : List AggregateSlot) (start : Nat) :
    (accumulateCode group slots start).length = accumulateSize slots := by
  induction slots generalizing start with
  | nil => rfl
  | cons s rest ih => simp [accumulateCode, accumulateSize, ih]; omega

/-- Finds the group of a row and hands the row to it. -/
def groupRowCode (g : Grouping) (slots : List AggregateSlot) (group start : Nat) :
    List Instruction :=
  let keysSize := TypedExpr.codesSize g.keys
  TypedExpr.codes group g.keys start ++
    [{ opcode := .groupKey, p1 := group, p3 := g.keys.length,
       operand := .types (g.keys.map TypedExpr.type) }] ++
    accumulateCode group slots (start + keysSize + 1)

def groupRowSize (g : Grouping) (slots : List AggregateSlot) : Nat :=
  TypedExpr.codesSize g.keys + 1 + accumulateSize slots

@[simp] theorem length_groupRowCode (g : Grouping) (slots : List AggregateSlot) (group start : Nat) :
    (groupRowCode g slots group start).length = groupRowSize g slots := by
  simp [groupRowCode, groupRowSize]; omega

/-- Goes over the groups and writes those that HAVING lets pass; `done` is the address after. -/
def groupLoopCode (q : BoundQuery) (g : Grouping) (sites : QuerySites) (done start : Nat) :
    List Instruction :=
  let head := start + 1
  let output := head + testSize g.having
  let following := output + outputSize q sites
  [{ opcode := .rewindGroups, p1 := sites.group, p2 := done }] ++
    testCode sites.group g.having following (some "having") head ++
    outputCode q sites following done output ++
    [{ opcode := .nextGroup, p1 := sites.group, p2 := head }]

def groupLoopSize (q : BoundQuery) (g : Grouping) (sites : QuerySites) : Nat :=
  testSize g.having + outputSize q sites + 2

@[simp] theorem length_groupLoopCode (q : BoundQuery) (g : Grouping) (sites : QuerySites)
    (done start : Nat) : (groupLoopCode q g sites done start).length = groupLoopSize q g sites := by
  simp [groupLoopCode, groupLoopSize]; omega

/-- Puts a count into its register. -/
def limitCode (register : Option Nat) (count : Option Int64) (comment : String) : List Instruction :=
  match register, count with
  | some r, some n => [{ opcode := .setInteger, p1 := r, operand := .integer n, comment }]
  | _, _ => []

/-- Makes the query's table and sets its counts. -/
def setupCode (q : BoundQuery) (sites : QuerySites) : List Instruction :=
  [{ opcode := .createTable, p1 := sites.table, comment := some q.name }] ++
    limitCode sites.skip q.skip "skip" ++ limitCode sites.take q.take "take"

/-- What is done before the loops. -/
def prologue (q : BoundQuery) (sites : QuerySites) : List Instruction :=
  setupCode q sites ++
    if q.isGrouped then [{ opcode := .resetGroups, p1 := sites.group }] else []

end QueryCode

open QueryCode

/-- The code of a query. -/
def BoundQuery.code (q : BoundQuery) (sites : QuerySites) : List Instruction :=
  let before := prologue q sites
  let filterAt := before.length + loopsSize q.sources
  let bodyAt := filterAt + testSize q.filter
  let bodySize := match q.grouping with
    | none => outputSize q sites
    | some g => groupRowSize g q.slots
  let loopsDone := bodyAt + bodySize + 1
  let done := match q.grouping with
    | none => loopsDone
    | some g => loopsDone + groupLoopSize q g sites
  let inner := innermost q.sources loopsDone before.length
  let body := match q.grouping with
    | none => outputCode q sites inner done bodyAt
    | some g => groupRowCode g q.slots sites.group bodyAt
  let groups := match q.grouping with
    | none => []
    | some g => groupLoopCode q g sites done loopsDone
  before ++ loopsCode (sites.opens.zip q.sources) loopsDone before.length ++
    testCode 0 q.filter inner none filterAt ++ body ++ [.jump .goto inner] ++ groups ++
    [{ opcode := .halt }]

end TabularQuery
