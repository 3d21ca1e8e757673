import TabularQuery.Engine
import TabularQuery.Proofs.Effects
import TabularQuery.Proofs.StatementRun

/-!
Runs under a budget. A run with a limit on instructions does step for step what it does without one, until it
would begin one instruction too many; there the limit stops it. So a budget never changes what a run comes to, it
only replaces it by the failure that names the limit. This holds of every program, also of one that was made by hand
and of one that never ends.
-/

namespace TabularQuery

namespace Machine

/-! ### Counting -/

/-- Instructions begun when an action is over, whether or not it fails. -/
def begun {α : Type} : EStateM.Result Error Machine α → Nat
  | .ok _ m => m.count
  | .error _ m => m.count

@[simp] theorem begun_ok {α : Type} (a : α) (m : Machine) : begun (.ok a m) = m.count := rfl
@[simp] theorem begun_error {α : Type} (e : Error) (m : Machine) :
    begun (.error e m : EStateM.Result Error Machine α) = m.count := rfl

variable {ctx : RunContext} {p : Procedure} {op : Instruction} {m m' : Machine} {flow : Flow} {fuel limit : Nat}

theorem Effect.count_eq (h : Effect ctx op m flow m') : m'.count = m.count := by
  cases h <;> rfl

theorem begun_exec (ctx : RunContext) (op : Instruction) (m : Machine) : begun (exec ctx op m) = m.count := by
  cases h : exec ctx op m with
  | ok flow m' => exact (exec_ok h).1.count_eq
  | error e m' =>
    rcases exec_error h with hframe | ⟨_, _, _, -, rfl⟩
    · rw [begun_error, hframe]
    · rfl

theorem begun_step (hop : fetch? p m = some op) (hroom : ctx.Allows (m.count + 1)) :
    begun (step ctx p m) = m.count + 1 := by
  have hlimit : ¬ (0 < ctx.limit ∧ ctx.limit < m.count + 1) := by cases hroom <;> omega
  have hexec := begun_exec ctx op { m with count := m.count + 1 }
  simp only [step, bind_apply, get_apply, hop, countInstruction_apply, if_neg hlimit, goOn, modify_apply, pure_apply]
  cases h : exec ctx op { m with count := m.count + 1 } <;> simpa [h] using hexec

theorem step_of_fetch?_none (ctx : RunContext) (hop : fetch? p m = none) :
    step ctx p m = .error (.pastLastInstruction p.name) m := by
  simp [step, hop]

/-! ### Free and limited actions -/

/-- `limited` does what `free` does as long as no more than `limit` instructions are begun; where `free` would begin
another one, the limit stops it. -/
structure CutAt {α : Type} (limit : Nat) (free limited : MachineAction α) : Prop where
  forward : ∀ m, m.count ≤ begun (free m)
  same : ∀ m, begun (free m) ≤ limit → limited m = free m
  stopped : ∀ m, m.count ≤ limit → limit < begun (free m) → ∃ m', limited m = .error (.limitExceeded limit) m'

namespace CutAt

variable {α β : Type} {free limited : MachineAction α} {f g : α → MachineAction β}

theorem of_begun (h : ∀ m, begun (free m) = m.count) : CutAt limit free free where
  forward m := Nat.le_of_eq (h m).symm
  same _ _ := rfl
  stopped m hm hover := by rw [h m] at hover; omega

theorem bind (hx : CutAt limit free limited) (hf : ∀ a, CutAt limit (f a) (g a)) :
    CutAt limit (free >>= f) (limited >>= g) where
  forward m := by
    have hfirst := hx.forward m
    rw [bind_apply]
    cases h : free m with
    | ok a m₁ =>
      have hsecond := (hf a).forward m₁
      simp only [h, begun_ok] at hfirst ⊢
      omega
    | error e m₁ => simpa [h] using hfirst
  same m hle := by
    rw [bind_apply] at hle
    cases h : free m with
    | ok a m₁ =>
      have hsecond := (hf a).forward m₁
      simp only [h] at hle
      have hfirst : limited m = free m := hx.same m (by rw [h, begun_ok]; omega)
      simp only [bind_apply, hfirst, h]
      exact (hf a).same m₁ hle
    | error e m₁ =>
      simp only [h, begun_error] at hle
      have hfirst : limited m = free m := hx.same m (by simpa [h] using hle)
      simp [hfirst, h]
  stopped m hm hover := by
    rw [bind_apply] at hover
    by_cases hfirst : begun (free m) ≤ limit
    · have hsame := hx.same m hfirst
      cases h : free m with
      | ok a m₁ =>
        simp only [h, begun_ok] at hover hfirst
        obtain ⟨m', hm'⟩ := (hf a).stopped m₁ hfirst hover
        exact ⟨m', by simp [hsame, h, hm']⟩
      | error e m₁ =>
        simp only [h, begun_error] at hover hfirst
        omega
    · obtain ⟨m', hm'⟩ := hx.stopped m hm (by omega)
      exact ⟨m', by simp [hm']⟩

end CutAt

theorem cutAt_step (hlimit : 0 < ctx.limit) (p : Procedure) :
    CutAt ctx.limit (step { ctx with limit := 0 } p) (step ctx p) where
  forward m := by
    cases hop : fetch? p m with
    | none => simp [step_of_fetch?_none _ hop]
    | some op => rw [begun_step hop (.inl rfl)]; omega
  same m hle := by
    cases hop : fetch? p m with
    | none => simp [step_of_fetch?_none _ hop]
    | some op =>
      rw [begun_step hop (.inl rfl)] at hle
      exact (step_of_allows (.inr hle)).symm
  stopped m hm hover := by
    cases hop : fetch? p m with
    | none =>
      rw [step_of_fetch?_none _ hop, begun_error] at hover
      omega
    | some op =>
      rw [begun_step hop (.inl rfl)] at hover
      exact ⟨{ m with count := m.count + 1 }, by simp [step, hop, countInstruction_apply, hlimit, hover]⟩

theorem cutAt_runCode (hlimit : 0 < ctx.limit) (p : Procedure) (fuel : Nat) :
    CutAt ctx.limit (runCode { ctx with limit := 0 } p fuel) (runCode ctx p fuel) := by
  induction fuel with
  | zero => exact .of_begun fun m => rfl
  | succ fuel ih =>
    apply (cutAt_step hlimit p).bind
    intro flow
    cases flow with
    | halt => exact .of_begun fun m => rfl
    | next => exact ih
    | jump => exact ih

theorem cutAt_runProcedures (ctx : RunContext) (hlimit : 0 < ctx.limit) (fuel : Nat) (ps : List Procedure) :
    CutAt ctx.limit (runProcedures { ctx with limit := 0 } fuel ps) (runProcedures ctx fuel ps) := by
  induction ps with
  | nil => exact .of_begun fun m => rfl
  | cons p ps ih =>
    have hcheck : CutAt ctx.limit checkCancelled checkCancelled := .of_begun fun m => by
      simp only [checkCancelled, bind_apply, get_apply]
      split <;> rfl
    have hstart : CutAt ctx.limit (modify fun m => { m with address := some 0 } : MachineAction Unit)
        (modify fun m => { m with address := some 0 }) := .of_begun fun m => rfl
    apply (hcheck.bind fun _ => hstart.bind fun _ => cutAt_runCode hlimit p fuel).bind
    intro through
    cases through with
    | false => exact .of_begun fun m => rfl
    | true => exact ih

/-! ### Fuel -/

/-- Code that is under way has begun an instruction for each unit of fuel. -/
theorem count_of_underway (h : runCode ctx p fuel m = .ok false m') : m'.count = m.count + fuel := by
  induction fuel generalizing m with
  | zero =>
    obtain ⟨-, rfl⟩ := pure_eq_ok.mp h
    rfl
  | succ fuel ih =>
    obtain ⟨flow, m₁, hstep, hrest⟩ := bind_eq_ok.mp h
    have hcount : m₁.count = m.count + 1 := by
      obtain ⟨op, m₂, -, hexec, rfl⟩ := step_eq_ok hstep
      exact (exec_ok hexec).1.count_eq
    cases flow with
    | halt => cases hrest
    | next => rw [ih hrest]; omega
    | jump => rw [ih hrest]; omega

theorem fuel_le_of_underway {ps : List Procedure} (h : runProcedures ctx fuel ps m = .ok false m') :
    fuel ≤ m'.count := by
  induction ps generalizing m with
  | nil => cases h
  | cons p ps ih =>
    obtain ⟨through, m₁, hfirst, hrest⟩ := bind_eq_ok.mp h
    cases through with
    | false =>
      obtain ⟨-, rfl⟩ := pure_eq_ok.mp hrest
      have hcount := count_of_underway (runProcedure_eq_ok hfirst)
      omega
    | true => exact ih hrest

theorem runProcedures_more {ps : List Procedure} (hover : ∀ m', runProcedures ctx fuel ps m ≠ .ok false m')
    (more : Nat) : runProcedures ctx (fuel + more) ps m = runProcedures ctx fuel ps m := by
  induction ps generalizing m with
  | nil => rfl
  | cons p ps ih =>
    have hunderway : ∀ m', runProcedure ctx fuel p m ≠ .ok false m' := by
      intro m' hp
      exact hover m' (by simp [runProcedures, hp])
    have hfirst : runProcedure ctx (fuel + more) p m = runProcedure ctx fuel p m := by
      cases hcancelled : m.cancelled with
      | true => simp [runProcedure_cancelled hcancelled]
      | false =>
        simp only [runProcedure_apply hcancelled] at hunderway ⊢
        exact runCode_add rfl hunderway more
    simp only [runProcedures, bind_apply, hfirst] at hover ⊢
    cases hp : runProcedure ctx fuel p m with
    | error e m₁ => rfl
    | ok through m₁ =>
      cases through with
      | false => rfl
      | true => exact ih fun m' => by simpa [hp] using hover m'

end Machine

/-! ### Programs -/

namespace Program

variable {p : Program} {sources : SourceContext} {cancelled : Bool} {limit fuel more : Nat} {r r' : RunResult}

/-- Instructions begun in a run, as far as it gets with the fuel. -/
def begun (p : Program) (sources : SourceContext) (limit : Nat) (cancelled : Bool) (fuel : Nat) : Nat :=
  Machine.begun (Machine.runProcedures ⟨p, sources, limit⟩ fuel p.procedures (.init p cancelled))

/-- A run has a result exactly if no procedure is still under way. -/
theorem run_eq_none_iff : p.run sources limit cancelled fuel = none ↔
    ∃ m, Machine.runProcedures ⟨p, sources, limit⟩ fuel p.procedures (.init p cancelled) = .ok false m := by
  unfold run
  cases Machine.runProcedures ⟨p, sources, limit⟩ fuel p.procedures (.init p cancelled) with
  | error e m => simp
  | ok through m =>
    cases through with
    | false => simp
    | true =>
      dsimp only
      cases Machine.resultTable p m <;> simp

theorem run_more (h : p.run sources limit cancelled fuel = some r) (hle : fuel ≤ more) :
    p.run sources limit cancelled more = some r := by
  obtain ⟨extra, rfl⟩ := Nat.exists_eq_add_of_le hle
  have hover : ∀ m, Machine.runProcedures ⟨p, sources, limit⟩ fuel p.procedures (.init p cancelled) ≠ .ok false m := by
    intro m hm
    rw [run_eq_none_iff.mpr ⟨m, hm⟩] at h
    cases h
  simpa only [run, Machine.runProcedures_more hover extra] using h

theorem run_unique (h : p.run sources limit cancelled fuel = some r)
    (h' : p.run sources limit cancelled more = some r') : r = r' := by
  have hmax := run_more h (Nat.le_max_left fuel more)
  rw [run_more h' (Nat.le_max_right fuel more)] at hmax
  exact (Option.some.inj hmax).symm

theorem fuel_le_begun (h : p.run sources limit cancelled fuel = none) : fuel ≤ p.begun sources limit cancelled fuel := by
  obtain ⟨m, hm⟩ := run_eq_none_iff.mp h
  rw [begun, hm]
  exact Machine.fuel_le_of_underway hm

theorem run_of_begun_le (hlimit : 0 < limit) (h : p.begun sources 0 cancelled fuel ≤ limit) :
    p.run sources limit cancelled fuel = p.run sources 0 cancelled fuel := by
  have hcut := Machine.cutAt_runProcedures ⟨p, sources, limit⟩ hlimit fuel p.procedures
  simp only [run, hcut.same _ h]

theorem run_of_lt_begun (hlimit : 0 < limit) (h : limit < p.begun sources 0 cancelled fuel) :
    ∃ stopped, p.run sources limit cancelled fuel = some ⟨.error (.limitExceeded limit), stopped⟩ := by
  have hcut := Machine.cutAt_runProcedures ⟨p, sources, limit⟩ hlimit fuel p.procedures
  obtain ⟨m, hm⟩ := hcut.stopped (.init p cancelled) (Nat.zero_le limit) h
  exact ⟨m.cancelled, by simp only [run, hm]⟩

/-- One step more than the limit is enough. -/
theorem exists_run_of_limit (p : Program) (sources : SourceContext) (cancelled : Bool) (hlimit : 0 < limit) :
    ∃ r, p.run sources limit cancelled (limit + 1) = some r := by
  by_cases h : p.begun sources 0 cancelled (limit + 1) ≤ limit
  · rw [run_of_begun_le hlimit h]
    cases hrun : p.run sources 0 cancelled (limit + 1) with
    | some r => exact ⟨r, rfl⟩
    | none =>
      have hfuel := fuel_le_begun hrun
      omega
  · obtain ⟨stopped, hrun⟩ := run_of_lt_begun hlimit (Nat.lt_of_not_le h)
    exact ⟨_, hrun⟩

/-- What a run comes to within the limit it comes to under the limit. -/
theorem run_limited (hlimit : 0 < limit) (h : p.run sources 0 cancelled fuel = some r)
    (hle : p.begun sources 0 cancelled fuel ≤ limit) : p.run sources limit cancelled (limit + 1) = some r := by
  obtain ⟨r', hr'⟩ := exists_run_of_limit p sources cancelled hlimit
  have hsame := (run_of_begun_le hlimit hle).trans h
  rw [hr', run_unique hr' hsame]

theorem run_stopped (hlimit : 0 < limit) (h : limit < p.begun sources 0 cancelled fuel) :
    ∃ stopped, p.run sources limit cancelled (limit + 1) = some ⟨.error (.limitExceeded limit), stopped⟩ := by
  obtain ⟨r', hr'⟩ := exists_run_of_limit p sources cancelled hlimit
  obtain ⟨stopped, hstopped⟩ := run_of_lt_begun hlimit h
  exact ⟨stopped, by rw [hr', run_unique hr' hstopped]⟩

end Program

theorem Engine.run_withMaxInstructions (config : Config) (cancelled : Bool) (files : Files) (p : Program) {limit : Nat}
    (hlimit : 0 < limit) : Engine.run ⟨config.withMaxInstructions limit, cancelled⟩ files p =
      p.run ⟨files, config.chunkSize⟩ limit cancelled (limit + 1) := by
  simp [Engine.run, Config.fuel, Config.withMaxInstructions, Nat.ne_of_gt hlimit]

/-- A budget of instructions only ever replaces a result by the failure that names the budget. What a run without a
budget comes to, after at most `limit` instructions, is what it comes to under the budget; if it begins more, or never
ends, the budget stops it. So a result under one budget is the result under every larger one. -/
theorem budgeted_run (p : Program) (files : Files) (config : Config) (cancelled : Bool) {limit : Nat}
    (hlimit : 0 < limit) :
    let free := p.run ⟨files, config.chunkSize⟩ 0 cancelled
    let begun := p.begun ⟨files, config.chunkSize⟩ 0 cancelled
    let budgeted (n : Nat) := Engine.run ⟨config.withMaxInstructions n, cancelled⟩ files p
    (∀ fuel r, free fuel = some r → begun fuel ≤ limit → budgeted limit = some r) ∧
    ((∃ fuel, limit < begun fuel) ∨ (∀ fuel, free fuel = none) →
      ∃ stopped, budgeted limit = some ⟨.error (.limitExceeded limit), stopped⟩) ∧
    ∀ more r, limit ≤ more → budgeted limit = some r → r.result ≠ .error (.limitExceeded limit) →
      budgeted more = some r := by
  intro free begun budgeted
  have hbudgeted : ∀ n, 0 < n → budgeted n = p.run ⟨files, config.chunkSize⟩ n cancelled (n + 1) :=
    fun n hn => Engine.run_withMaxInstructions config cancelled files p hn
  refine ⟨?_, ?_, ?_⟩
  · intro fuel r hfree hle
    rw [hbudgeted limit hlimit]
    exact Program.run_limited hlimit hfree hle
  · intro hmore
    rw [hbudgeted limit hlimit]
    rcases hmore with ⟨fuel, hfuel⟩ | hnever
    · exact Program.run_stopped hlimit hfuel
    · -- a run that never ends begins as many instructions as it has fuel
      exact Program.run_stopped hlimit (Program.fuel_le_begun (hnever (limit + 1)))
  · intro more r hle hrun hresult
    rw [hbudgeted limit hlimit] at hrun
    rw [hbudgeted more (by omega)]
    by_cases hbegun : begun (limit + 1) ≤ limit
    · rw [Program.run_of_begun_le hlimit hbegun] at hrun
      exact Program.run_limited (by omega) hrun (Nat.le_trans hbegun hle)
    · obtain ⟨stopped, hstopped⟩ := Program.run_of_lt_begun hlimit (Nat.lt_of_not_le hbegun)
      rw [hstopped] at hrun
      cases hrun
      exact absurd rfl hresult

/-- Two instructions fit into a budget of two and not into one of one, and a jump to itself fits into none. -/
theorem budgeted_run_boundary :
    let short : Program :=
      ⟨[⟨"short", #[{ opcode := .createTable }, { opcode := .halt }]⟩], [⟨"t", []⟩], [], [], 0, 0, 0, []⟩
    let loop : Program := ⟨[⟨"loop", #[{ opcode := .goto }]⟩], [], [], [], 0, 0, 0, []⟩
    let budgeted (p : Program) (n : Nat) := Engine.run ⟨Config.default.withMaxInstructions n, false⟩ .empty p
    (∃ t, budgeted short 2 = some ⟨.ok t, false⟩) ∧
    (∃ stopped, budgeted short 1 = some ⟨.error (.limitExceeded 1), stopped⟩) ∧
    ∃ stopped, budgeted loop 5 = some ⟨.error (.limitExceeded 5), stopped⟩ := by
  intro short loop budgeted
  have hnever : ∀ fuel, loop.run ⟨.empty, 1000⟩ 0 false fuel = none := by
    intro fuel
    let ctx : RunContext := ⟨loop, ⟨.empty, 1000⟩, 0⟩
    let code : Procedure := ⟨"loop", #[{ opcode := .goto }]⟩
    have hloop : ∀ m : Machine, m.address = some 0 → ∃ m', Machine.runCode ctx code fuel m = .ok false m' := by
      induction fuel with
      | zero => exact fun m _ => ⟨m, rfl⟩
      | succ fuel ih =>
        intro m hm
        have hstep : Machine.step ctx code m = .ok .jump { m with count := m.count + 1, address := some 0 } := by
          rw [Machine.step_eq hm rfl (.inl rfl)]
          rfl
        rw [Machine.runCode_step hstep (by decide)]
        exact ih _ rfl
    obtain ⟨m', hm'⟩ := hloop { Machine.init loop false with address := some 0 } rfl
    have hrun : Machine.runProcedures ctx fuel [code] (.init loop false) = .ok false m' := by
      rw [Machine.runProcedures, bind_apply, Machine.runProcedure_apply rfl, hm']
      rfl
    exact Program.run_eq_none_iff.mpr ⟨m', hrun⟩
  refine ⟨⟨_, (budgeted_run short .empty .default false (by decide : 0 < 2)).1 2 _ rfl (by decide)⟩, ?_, ?_⟩
  · exact (budgeted_run short .empty .default false (by decide : 0 < 1)).2.1 (.inl ⟨2, by decide⟩)
  · exact (budgeted_run loop .empty .default false (by decide : 0 < 5)).2.1 (.inr hnever)

end TabularQuery
