import TabularQuery.Config
import TabularQuery.Machine.Run
import TabularQuery.Plan.Bind
import TabularQuery.Program.Generate
import TabularQuery.Query.Parse

/-!
Queries from text to table: the text is read, its names are bound, a program is generated and run
under a configuration and a stop flag. No program comes of a text that fails at any stage.
-/

namespace TabularQuery

/-- The program of a query text. -/
def compile (env : Environment) (text : String) : Except Error Program := do
  generate (← bind env (← parse text))

/-- Steps for a run under a configuration: enough to reach the limit, or, if there is none, more
than any run takes in practice. -/
def Config.fuel (c : Config) : Nat :=
  if c.maxInstructions = 0 then 1 <<< 62 else c.maxInstructions + 1

structure Engine where
  config : Config
  /-- The stop flag. -/
  cancelled : Bool

namespace Engine

/-- The default configuration, not stopped. -/
def default : Engine := ⟨.default, false⟩

/-- Runs a program, whose sources may read the files. -/
def run (e : Engine) (files : Files) (p : Program) : Option RunResult :=
  p.run ⟨files, e.config.chunkSize⟩ e.config.maxInstructions e.cancelled e.config.fuel

/-- Compiles and runs a query text. -/
def execute (e : Engine) (env : Environment) (text : String) : Option RunResult :=
  match compile env text with
  | .ok p => e.run env.files p
  | .error error => some ⟨.error error, e.cancelled⟩

end Engine

end TabularQuery
