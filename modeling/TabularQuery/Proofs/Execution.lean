import TabularQuery.Machine.Run
import TabularQuery.Proofs.Action

/-!
Runs of a procedure seen from outside: which states come one after the other, and what a stretch of
code computes. `Path` joins steps that do not halt; `Runs` says that from a state the machine does
what a computation with failures says, and it composes as the computation does. Both are built up
without a limit on instructions; under a limit the machine does the same or is stopped by it.
-/

namespace TabularQuery

/-- The code stands in the procedure from an address on. -/
def Procedure.HasCode (p : Procedure) (start : Nat) (code : List Instruction) : Prop :=
  ∀ i op, code[i]? = some op → p.code[start + i]? = some op

namespace Procedure.HasCode

variable {p : Procedure} {start : Nat} {code more : List Instruction} {op : Instruction}

theorem head (h : p.HasCode start (op :: code)) : p.code[start]? = some op :=
  h 0 op rfl

theorem tail (h : p.HasCode start (op :: code)) : p.HasCode (start + 1) code := by
  intro i op' hi
  have := h (i + 1) op' (by simpa using hi)
  rwa [show start + 1 + i = start + (i + 1) by omega]

theorem left (h : p.HasCode start (code ++ more)) : p.HasCode start code := by
  intro i op hi
  have hlt : i < code.length := (List.getElem?_eq_some_iff.mp hi).1
  exact h i op (by rw [List.getElem?_append_left hlt, hi])

theorem right (h : p.HasCode start (code ++ more)) : p.HasCode (start + code.length) more := by
  intro i op hi
  have := h (code.length + i) op (by rw [List.getElem?_append_right (by omega)]; simpa using hi)
  rwa [Nat.add_assoc]

theorem ofCode (name : String) (code : List Instruction) :
    Procedure.HasCode ⟨name, code.toArray⟩ 0 code := by
  intro i op hi
  simpa using hi

end Procedure.HasCode

/-- The limit leaves room for `n` instructions. -/
def RunContext.Allows (ctx : RunContext) (n : Nat) : Prop := ctx.limit = 0 ∨ n ≤ ctx.limit

namespace Machine

variable {ctx : RunContext} {p : Procedure} {P P' : Machine → Prop} {m m₁ m₂ : Machine}
variable {a : Nat} {op : Instruction}

theorem countInstruction_apply (limit : Nat) (m : Machine) :
    countInstruction limit m =
      if 0 < limit ∧ limit < m.count + 1 then
        .error (.limitExceeded limit) { m with count := m.count + 1 }
      else .ok ⟨⟩ { m with count := m.count + 1 } := by
  simp only [countInstruction, bind_apply, modify_apply, get_apply]
  split <;> split <;> simp_all

/-- What a step does when the limit has room for it. -/
theorem step_eq (haddr : m.address = some a) (hop : p.code[a]? = some op)
    (hlimit : ctx.Allows (m.count + 1)) :
    step ctx p m =
      match exec ctx op { m with count := m.count + 1 } with
      | .ok flow m' => .ok flow { m' with
          address := match flow with
            | .jump => place? op.p2
            | _ => m'.address.map (· + 1) }
      | .error e m' => .error e m' := by
  have hf : fetch? p m = some op := by simp [fetch?, haddr, hop]
  have hroom : ¬ (0 < ctx.limit ∧ ctx.limit < m.count + 1) := by
    cases hlimit <;> omega
  simp only [step, bind_apply, get_apply, hf, countInstruction_apply, if_neg hroom, goOn, modify_apply,
    pure_apply]
  cases exec ctx op { m with count := m.count + 1 } <;> rfl

/-- `m` comes to `m'` by steps that do not halt, each from a state with the property `P`. -/
inductive Path (ctx : RunContext) (p : Procedure) (P : Machine → Prop) : Machine → Machine → Prop
  | refl (m : Machine) : Path ctx p P m m
  | step {m m₁ m₂ : Machine} {flow : Flow} (here : P m) (once : Machine.step ctx p m = .ok flow m₁)
      (goes : flow ≠ .halt) (rest : Path ctx p P m₁ m₂) : Path ctx p P m m₂

namespace Path

theorem trans (h : Path ctx p P m m₁) (h' : Path ctx p P m₁ m₂) : Path ctx p P m m₂ := by
  induction h with
  | refl => exact h'
  | step here once goes _ ih => exact .step here once goes (ih h')

theorem mono (hP : ∀ m, P m → P' m) (h : Path ctx p P m m₁) : Path ctx p P' m m₁ := by
  induction h with
  | refl => exact .refl _
  | step here once goes _ ih => exact .step (hP _ here) once goes ih

end Path

/-- From `m` the machine does what `r` says: if `r` succeeds with `a`, it comes to a state with the
property `Q a`; if `r` fails, a step fails in the same way. -/
def Runs (ctx : RunContext) (p : Procedure) (P : Machine → Prop) (m : Machine) (r : Except Error α)
    (Q : α → Machine → Prop) : Prop :=
  match r with
  | .ok a => ∃ m₁, Path ctx p P m m₁ ∧ Q a m₁
  | .error e => ∃ m₁ m₂, Path ctx p P m m₁ ∧ P m₁ ∧ Machine.step ctx p m₁ = .error e m₂

namespace Runs

variable {α β : Type} {r : Except Error α} {f : α → Except Error β}
variable {Q Q' : α → Machine → Prop} {R : β → Machine → Prop} {x : α}

theorem ok (h : Q x m) : Runs ctx p P m (.ok x) Q := ⟨m, .refl m, h⟩

theorem after (h : Path ctx p P m m₁) (h' : Runs ctx p P m₁ r Q) : Runs ctx p P m r Q := by
  cases r with
  | ok x =>
    obtain ⟨m₂, hpath, hq⟩ := h'
    exact ⟨m₂, h.trans hpath, hq⟩
  | error e =>
    obtain ⟨m₂, m₃, hpath, hp, hstep⟩ := h'
    exact ⟨m₂, m₃, h.trans hpath, hp, hstep⟩

theorem mono (h : Runs ctx p P m r Q) (hP : ∀ m, P m → P' m)
    (hQ : ∀ x m, r = .ok x → Q x m → Q' x m) : Runs ctx p P' m r Q' := by
  cases r with
  | ok x =>
    obtain ⟨m₁, hpath, hq⟩ := h
    exact ⟨m₁, hpath.mono hP, hQ x m₁ rfl hq⟩
  | error e =>
    obtain ⟨m₁, m₂, hpath, hp, hstep⟩ := h
    exact ⟨m₁, m₂, hpath.mono hP, hP _ hp, hstep⟩

theorem followed (h : Runs ctx p P m r Q)
    (hnext : ∀ x m₁, r = .ok x → Q x m₁ → Runs ctx p P m₁ (.ok x) Q') : Runs ctx p P m r Q' := by
  cases r with
  | ok x =>
    obtain ⟨m₁, hpath, hq⟩ := h
    exact (hnext x m₁ rfl hq).after hpath
  | error e => exact h

theorem bind (h : Runs ctx p P m r Q)
    (hf : ∀ x m₁, r = .ok x → Q x m₁ → Runs ctx p P m₁ (f x) R) :
    Runs ctx p P m (r >>= f) R := by
  cases r with
  | ok x =>
    obtain ⟨m₁, hpath, hq⟩ := h
    exact (hf x m₁ rfl hq).after hpath
  | error e => exact h

theorem ofMap {F : α → β} (h : Runs ctx p P m (F <$> r) R) : Runs ctx p P m r fun x => R (F x) := by
  cases r <;> exact h

theorem next (hlimit : ctx.limit = 0) (haddr : m.address = some a) (hop : p.code[a]? = some op)
    (here : P m) (hexec : exec ctx op { m with count := m.count + 1 } = .ok .next m₁)
    (hstay : m₁.address = some a)
    (h : Runs ctx p P { m₁ with address := some (a + 1) } r Q) : Runs ctx p P m r Q := by
  have hstep : Machine.step ctx p m = .ok .next { m₁ with address := some (a + 1) } := by
    rw [step_eq haddr hop (.inl hlimit), hexec]
    simp [hstay]
  exact h.after (.step here hstep (by decide) (.refl _))

theorem jump {target : Nat} (hlimit : ctx.limit = 0) (haddr : m.address = some a)
    (hop : p.code[a]? = some op) (here : P m)
    (hexec : exec ctx op { m with count := m.count + 1 } = .ok .jump m₁) (htarget : op.p2 = target)
    (h : Runs ctx p P { m₁ with address := some target } r Q) : Runs ctx p P m r Q := by
  have hstep : Machine.step ctx p m = .ok .jump { m₁ with address := some target } := by
    rw [step_eq haddr hop (.inl hlimit), hexec]
    simp [htarget]
  exact h.after (.step here hstep (by decide) (.refl _))

theorem fail {e : Error} (hlimit : ctx.limit = 0) (haddr : m.address = some a)
    (hop : p.code[a]? = some op) (here : P m)
    (hexec : exec ctx op { m with count := m.count + 1 } = .error e m₁) :
    Runs ctx p P m (.error e) Q := by
  refine ⟨m, m₁, .refl m, here, ?_⟩
  rw [step_eq haddr hop (.inl hlimit), hexec]

end Runs

/-! ### Limits -/

/-- The limit stops the run at a state with the property `P`. -/
def Exhausts (ctx : RunContext) (p : Procedure) (P : Machine → Prop) (m : Machine) : Prop :=
  ∃ m₁ m₂, Path ctx p P m m₁ ∧ P m₁ ∧ ¬ ctx.Allows (m₁.count + 1) ∧
    Machine.step ctx p m₁ = .error (.limitExceeded ctx.limit) m₂

theorem step_of_allows (h : ctx.Allows (m.count + 1)) :
    step { ctx with limit := 0 } p m = step ctx p m := by
  have hroom : ¬ (0 < ctx.limit ∧ ctx.limit < m.count + 1) := by
    cases h <;> omega
  simp only [step, bind_apply, get_apply]
  cases fetch? p m with
  | none => rfl
  | some op =>
    simp only [bind_apply, countInstruction_apply, if_neg hroom, Nat.lt_irrefl, false_and, if_false]
    rfl

theorem step_of_not_allows (h : ¬ ctx.Allows (m.count + 1)) :
    step ctx p m = step { ctx with limit := 0 } p m ∨
      step ctx p m = .error (.limitExceeded ctx.limit) { m with count := m.count + 1 } := by
  have hover : 0 < ctx.limit ∧ ctx.limit < m.count + 1 := by
    unfold RunContext.Allows at h
    omega
  simp only [step, bind_apply, get_apply]
  cases fetch? p m with
  | none => exact .inl rfl
  | some op =>
    right
    simp only [bind_apply, countInstruction_apply, if_pos hover]

theorem step_limited (ctx : RunContext) (p : Procedure) (m : Machine) :
    step ctx p m = step { ctx with limit := 0 } p m ∨ ¬ ctx.Allows (m.count + 1) ∧
      step ctx p m = .error (.limitExceeded ctx.limit) { m with count := m.count + 1 } := by
  by_cases h : ctx.Allows (m.count + 1)
  · exact .inl (step_of_allows h).symm
  · exact (step_of_not_allows h).imp_right fun hstep => ⟨h, hstep⟩

theorem Exhausts.after (h : Path ctx p P m m₁) (h' : Exhausts ctx p P m₁) : Exhausts ctx p P m := by
  obtain ⟨m₂, m₃, hpath, rest⟩ := h'
  exact ⟨m₂, m₃, h.trans hpath, rest⟩

theorem Path.limited (h : Path { ctx with limit := 0 } p P m m₁) :
    Path ctx p P m m₁ ∨ Exhausts ctx p P m := by
  induction h with
  | refl => exact .inl (.refl _)
  | step here once goes _ ih =>
    rcases step_limited ctx p _ with hstep | ⟨hover, hstep⟩
    · rw [← hstep] at once
      exact ih.imp (.step here once goes) (Exhausts.after (.step here once goes (.refl _)))
    · exact .inr ⟨_, _, .refl _, here, hover, hstep⟩

/-- Under a limit the machine does what it does without, or the limit stops it. -/
theorem Runs.limited {α : Type} {r : Except Error α} {Q : α → Machine → Prop}
    (h : Runs { ctx with limit := 0 } p P m r Q) : Runs ctx p P m r Q ∨ Exhausts ctx p P m := by
  cases r with
  | ok a =>
    obtain ⟨m₁, hpath, hq⟩ := h
    exact hpath.limited.imp_left fun hpath => ⟨m₁, hpath, hq⟩
  | error e =>
    obtain ⟨m₁, m₂, hpath, here, hstep⟩ := h
    rcases hpath.limited with hpath | hover
    · rcases step_limited ctx p m₁ with hsame | ⟨hover, hlimit⟩
      · exact .inl ⟨m₁, m₂, hpath, here, hsame.trans hstep⟩
      · exact .inr ⟨m₁, _, hpath, here, hover, hlimit⟩
    · exact .inr hover

/-! ### Paths and runs with fuel -/

/-- Running from `m` comes to `m'`. -/
def Reaches (ctx : RunContext) (p : Procedure) (m m' : Machine) : Prop :=
  ∃ k, ∀ fuel, runCode ctx p (k + fuel) m = runCode ctx p fuel m'

/-- Running from `m` fails with `e`. -/
def Stops (ctx : RunContext) (p : Procedure) (m : Machine) (e : Error) : Prop :=
  ∃ k m', ∀ fuel, runCode ctx p (k + fuel) m = .error e m'

theorem runCode_step {flow : Flow} (h : step ctx p m = .ok flow m₁) (hflow : flow ≠ .halt) (fuel : Nat) :
    runCode ctx p (fuel + 1) m = runCode ctx p fuel m₁ := by
  rw [runCode, bind_apply, h]
  cases flow with
  | halt => exact absurd rfl hflow
  | next => rfl
  | jump => rfl

theorem Path.reaches (h : Path ctx p P m m₁) : Reaches ctx p m m₁ := by
  induction h with
  | refl => exact ⟨0, fun fuel => by rw [Nat.zero_add]⟩
  | step _ once goes _ ih =>
    obtain ⟨k, hk⟩ := ih
    refine ⟨k + 1, fun fuel => ?_⟩
    rw [← hk fuel, Nat.add_right_comm, runCode_step once goes]

theorem Reaches.stops {e : Error} (h : Reaches ctx p m m₁) (hstep : step ctx p m₁ = .error e m₂) :
    Stops ctx p m e := by
  obtain ⟨k, hk⟩ := h
  refine ⟨k + 1, m₂, fun fuel => ?_⟩
  rw [Nat.add_assoc, hk, Nat.add_comm, runCode, bind_apply, hstep]

theorem Exhausts.stops (h : Exhausts ctx p P m) : Stops ctx p m (.limitExceeded ctx.limit) := by
  obtain ⟨m₁, m₂, hpath, _, _, hstep⟩ := h
  exact hpath.reaches.stops hstep

end Machine

end TabularQuery
