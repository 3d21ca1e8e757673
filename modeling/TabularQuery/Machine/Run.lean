import TabularQuery.Machine.Step

/-!
Runs of programs. Procedures run one after the other, each from its first instruction until it
halts. Code need not halt, so a run has a number of steps that no procedure may exceed; a run that
hits it has no result. With a limit on instructions, one step more than the limit is enough.
-/

namespace TabularQuery

namespace Machine

/-- The instruction at the current address. -/
def fetch? (p : Procedure) (m : Machine) : Option Instruction := m.address.bind fun a => p.code[a]?

/-- Counts an instruction, against the limit if there is one. -/
def countInstruction (limit : Nat) : MachineAction Unit := do
  modify fun m => { m with count := m.count + 1 }
  if 0 < limit && limit < (← get).count then throw (.limitExceeded limit)

/-- Goes to where an instruction leads. -/
def goOn (op : Instruction) (flow : Flow) : MachineAction Unit :=
  modify fun m => { m with
    address := match flow with
      | .jump => place? op.p2
      | _ => m.address.map (· + 1) }

/-- One instruction of a procedure. -/
def step (ctx : RunContext) (p : Procedure) : MachineAction Flow := do
  match fetch? p (← get) with
  | none => throw (.pastLastInstruction p.name)
  | some op =>
    countInstruction ctx.limit
    let flow ← exec ctx op
    goOn op flow
    return flow

/-- Steps until the procedure halts; tells whether it does within the fuel. -/
def runCode (ctx : RunContext) (p : Procedure) : (fuel : Nat) → MachineAction Bool
  | 0 => return false
  | fuel + 1 => do
    match ← step ctx p with
    | .halt => return true
    | _ => runCode ctx p fuel

/-- A procedure from its first instruction on. -/
def runProcedure (ctx : RunContext) (fuel : Nat) (p : Procedure) : MachineAction Bool := do
  checkCancelled
  modify fun m => { m with address := some 0 }
  runCode ctx p fuel

def runProcedures (ctx : RunContext) (fuel : Nat) : List Procedure → MachineAction Bool
  | [] => return true
  | p :: rest => do
    if ← runProcedure ctx fuel p then runProcedures ctx fuel rest else return false

/-- The table that the program gives. -/
def resultTable (p : Program) : MachineAction Table := do
  match (← get).tables[p.result]?.join with
  | some t => return t
  | none => throw (.resultAbsent p.result)

end Machine

/-- What a run comes to. -/
structure RunResult where
  result : Except Error Table
  /-- The stop flag after the run. -/
  cancelled : Bool

/-- Runs a program; there is no result if some procedure takes more steps than `fuel`. -/
def Program.run (p : Program) (sources : SourceContext) (limit : Nat) (cancelled : Bool)
    (fuel : Nat) : Option RunResult :=
  match Machine.runProcedures ⟨p, sources, limit⟩ fuel p.procedures (.init p cancelled) with
  | .ok false _ => none
  | .ok true m =>
    match Machine.resultTable p m with
    | .ok t m => some ⟨.ok t, m.cancelled⟩
    | .error e m => some ⟨.error e, m.cancelled⟩
  | .error e m => some ⟨.error e, m.cancelled⟩

end TabularQuery
