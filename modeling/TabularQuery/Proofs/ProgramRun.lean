import TabularQuery.Proofs.Faults
import TabularQuery.Proofs.QueryRun

/-!
Runs of whole programs. A sound procedure, started when the tables before its own are filled, fills its
own or has one of the failures that are taken into account. A program of sound procedures then has no
others, comes to an end, and is safe at every instruction on the way, whatever the limit.
-/

namespace TabularQuery

namespace Machine

/-! ### Runs and fuel -/

/-- A run as a function of its fuel. With too little it is under way, in a state with the property `P`;
from some number on it is through, in a state with the property `Q`, or it has one of the failures. -/
def Settles (F : Failures) (P Q : Machine → Prop) (run : Nat → EStateM.Result Error Machine Bool) : Prop :=
  ∃ enough, (∀ fuel, fuel < enough → ∃ m, P m ∧ run fuel = .ok false m) ∧
    ((∃ m, Q m ∧ ∀ fuel, enough ≤ fuel → run fuel = .ok true m) ∨
      ∃ e m, F.Has e ∧ ∀ fuel, enough ≤ fuel → run fuel = .error e m)

namespace Settles

variable {F : Failures} {P P' Q Q' : Machine → Prop} {run run' : Nat → EStateM.Result Error Machine Bool}
variable {fuel : Nat} {m : Machine} {e : Error}

theorem found (h : Settles F P Q run) (fuel : Nat) : (∃ m, P m ∧ run fuel = .ok false m) ∨
    (∃ m, Q m ∧ run fuel = .ok true m) ∨ ∃ e m, F.Has e ∧ run fuel = .error e m := by
  obtain ⟨enough, hbefore, hafter⟩ := h
  by_cases hfuel : fuel < enough
  · exact .inl (hbefore fuel hfuel)
  · have hle := Nat.not_lt.mp hfuel
    exact .inr (hafter.imp (fun ⟨m, hm, hrun⟩ => ⟨m, hm, hrun fuel hle⟩)
      fun ⟨e, m, he, hrun⟩ => ⟨e, m, he, hrun fuel hle⟩)

theorem underway (h : Settles F P Q run) (hrun : run fuel = .ok false m) : P m := by
  obtain ⟨m', hm', hfound⟩ | ⟨_, -, hfound⟩ | ⟨_, _, -, hfound⟩ := h.found fuel <;> rw [hfound] at hrun <;> cases hrun
  exact hm'

theorem through (h : Settles F P Q run) (hrun : run fuel = .ok true m) : Q m := by
  obtain ⟨_, -, hfound⟩ | ⟨m', hm', hfound⟩ | ⟨_, _, -, hfound⟩ := h.found fuel <;> rw [hfound] at hrun <;> cases hrun
  exact hm'

theorem ends (h : Settles F P Q run) : ∃ enough, ∀ fuel, enough ≤ fuel → ∀ m, run fuel ≠ .ok false m := by
  obtain ⟨enough, -, hafter⟩ := h
  refine ⟨enough, fun fuel hfuel m hrun => ?_⟩
  obtain ⟨m', -, hm'⟩ | ⟨e, m', -, hm'⟩ := hafter <;> rw [hm' fuel hfuel] at hrun <;> cases hrun

theorem mono (h : Settles F P Q run) (hP : ∀ m, P m → P' m) (hQ : ∀ m, Q m → Q' m) : Settles F P' Q' run := by
  obtain ⟨enough, hbefore, hafter⟩ := h
  refine ⟨enough, fun fuel hfuel => ?_, hafter.imp_left fun ⟨m, hm, hrun⟩ => ⟨m, hQ m hm, hrun⟩⟩
  obtain ⟨m, hm, hrun⟩ := hbefore fuel hfuel
  exact ⟨m, hP m hm, hrun⟩

theorem after (hP : P m) (hzero : run 0 = .ok false m) (hsucc : ∀ fuel, run (fuel + 1) = run' fuel)
    (h : Settles F P Q run') : Settles F P Q run := by
  obtain ⟨enough, hbefore, hafter⟩ := h
  refine ⟨enough + 1, fun fuel hfuel => ?_, ?_⟩
  · cases fuel with
    | zero => exact ⟨m, hP, hzero⟩
    | succ fuel =>
      rw [hsucc]
      exact hbefore fuel (Nat.lt_of_succ_lt_succ hfuel)
  · have hshift : ∀ (r : EStateM.Result Error Machine Bool), (∀ fuel, enough ≤ fuel → run' fuel = r) →
        ∀ fuel, enough + 1 ≤ fuel → run fuel = r := by
      intro r hr fuel hfuel
      obtain ⟨fuel, rfl⟩ := Nat.exists_eq_add_of_le' (Nat.le_trans (Nat.le_add_left 1 enough) hfuel)
      rw [hsucc]
      exact hr fuel (Nat.le_of_succ_le_succ hfuel)
    exact hafter.imp (fun ⟨m, hm, hrun⟩ => ⟨m, hm, hshift _ hrun⟩)
      fun ⟨e, m, he, hrun⟩ => ⟨e, m, he, hshift _ hrun⟩

theorem now (hQ : Q m) (hrun : ∀ fuel, run fuel = .ok true m) : Settles F P Q run :=
  ⟨0, fun _ hfuel => absurd hfuel (Nat.not_lt_zero _), .inl ⟨m, hQ, fun fuel _ => hrun fuel⟩⟩

theorem never (he : F.Has e) (hrun : ∀ fuel, run fuel = .error e m) : Settles F P Q run :=
  ⟨0, fun _ hfuel => absurd hfuel (Nat.not_lt_zero _), .inr ⟨e, m, he, fun fuel _ => hrun fuel⟩⟩

theorem seq {next : Nat → Machine → EStateM.Result Error Machine Bool} {whole : Nat → EStateM.Result Error Machine Bool}
    (h : Settles F P Q run) (hnext : ∀ m, Q m → Settles F P' Q' fun fuel => next fuel m)
    (hunderway : ∀ fuel m, run fuel = .ok false m → whole fuel = .ok false m)
    (hthrough : ∀ fuel m, run fuel = .ok true m → whole fuel = next fuel m)
    (hfailure : ∀ fuel e m, run fuel = .error e m → whole fuel = .error e m) :
    Settles F (fun m => P m ∨ P' m) Q' whole := by
  obtain ⟨enough, hbefore, ⟨m, hm, hrun⟩ | ⟨e, m, he, hrun⟩⟩ := h
  · obtain ⟨more, hbefore', hafter'⟩ := hnext m hm
    refine ⟨max enough more, fun fuel hfuel => ?_, ?_⟩
    · by_cases hfirst : fuel < enough
      · obtain ⟨m', hm', hrun'⟩ := hbefore fuel hfirst
        exact ⟨m', .inl hm', hunderway fuel m' hrun'⟩
      · obtain ⟨m', hm', hrun'⟩ := hbefore' fuel (by omega)
        exact ⟨m', .inr hm', (hthrough fuel m (hrun fuel (Nat.not_lt.mp hfirst))).trans hrun'⟩
    · have hwhole : ∀ (r : EStateM.Result Error Machine Bool), (∀ fuel, more ≤ fuel → next fuel m = r) →
          ∀ fuel, max enough more ≤ fuel → whole fuel = r := by
        intro r hr fuel hfuel
        rw [hthrough fuel m (hrun fuel (by omega))]
        exact hr fuel (by omega)
      exact hafter'.imp (fun ⟨m, hm, hrun⟩ => ⟨m, hm, hwhole _ hrun⟩)
        fun ⟨e, m, he, hrun⟩ => ⟨e, m, he, hwhole _ hrun⟩
  · refine ⟨enough, fun fuel hfuel => ?_, .inr ⟨e, m, he, fun fuel hfuel => hfailure fuel e m (hrun fuel hfuel)⟩⟩
    obtain ⟨m', hm', hrun'⟩ := hbefore fuel hfuel
    exact ⟨m', .inl hm', hunderway fuel m' hrun'⟩

end Settles

section Code

variable {F : Failures} {ctx : RunContext} {p : Procedure} {P Q : Machine → Prop} {m m₁ m₂ : Machine}

theorem settles_halt (here : P m) (hstep : step ctx p m = .ok .halt m₁) (hQ : Q m₁) :
    Settles F P Q fun fuel => runCode ctx p fuel m := by
  refine Settles.after here rfl (fun fuel => ?_) (Settles.now hQ fun _ => rfl)
  rw [runCode, bind_apply, hstep]
  rfl

theorem settles_error {e : Error} (here : P m) (hstep : step ctx p m = .error e m₁) (he : F.Has e) :
    Settles F P Q fun fuel => runCode ctx p fuel m := by
  refine Settles.after here rfl (fun fuel => ?_) (Settles.never (m := m₁) he fun _ => rfl)
  rw [runCode, bind_apply, hstep]

theorem Path.settles (h : Path ctx p P m m₁) (h₁ : Settles F P Q fun fuel => runCode ctx p fuel m₁) :
    Settles F P Q fun fuel => runCode ctx p fuel m := by
  induction h with
  | refl => exact h₁
  | step here once goes _ ih => exact .after here rfl (runCode_step once goes) (ih h₁)

theorem Exhausts.settles (h : Exhausts ctx p P m) : Settles F P Q fun fuel => runCode ctx p fuel m := by
  obtain ⟨m₁, m₂, hpath, here, -, hstep⟩ := h
  exact hpath.settles (settles_error here hstep (F.ordinary _ rfl))

/-- Code that finishes without a limit settles under any. -/
theorem Finishes.settles {α : Type} {r : Except Error α} {R : α → Machine → Prop}
    (h : Finishes { ctx with limit := 0 } p P m r R) (hr : ∀ e, r = .error e → F.Has e)
    (hR : ∀ x m, R x m → Q m) : Settles F P Q fun fuel => runCode ctx p fuel m := by
  unfold Finishes at h
  rcases h.limited with hruns | hexhausts
  · cases r with
    | ok x =>
      obtain ⟨m₁, hpath, m₂, here, hhalt, hfinal⟩ := hruns
      refine hpath.settles ?_
      rcases step_limited ctx p m₁ with hstep | ⟨-, hstep⟩
      · exact settles_halt here (hstep.trans hhalt) (hR x m₂ hfinal)
      · exact settles_error here hstep (F.ordinary _ rfl)
    | error e =>
      obtain ⟨m₁, m₂, hpath, here, hstep⟩ := hruns
      exact hpath.settles (settles_error here hstep (hr e rfl))
  · exact hexhausts.settles

end Code

/-- The first `n` tables of the program are there and fit their declarations. -/
def Filled (program : Program) (n : Nat) (m : Machine) : Prop :=
  ∀ j, j < n → ∃ d t, program.tables[j]? = some d ∧ m.tables[j]? = some (some t) ∧ t.Fits d.columns

theorem Filled.table {program : Program} {n j : Nat} {m : Machine} (h : m.Filled program n) (hj : j < n)
    {d : TableDeclaration} (hd : program.tables[j]? = some d) :
    ∃ t, m.tables[j]? = some (some t) ∧ t.Fits d.columns := by
  obtain ⟨d', t, hd', ht, hfits⟩ := h j hj
  rw [hd] at hd'
  cases hd'
  exact ⟨t, ht, hfits⟩

theorem Wrote.filled {program : Program} {base m : Machine} {n : Nat} {columns : List Column} {t : Table}
    (h : Wrote program base n columns t m) (hbase : base.Filled program n) {d : TableDeclaration}
    (hd : program.tables[n]? = some d) (hcolumns : d.columns = columns) (hn : n < base.tables.length) :
    m.Filled program (n + 1) := by
  intro j hj
  rw [h.tables]
  rcases Nat.lt_succ_iff_lt_or_eq.mp hj with hj | rfl
  · rw [List.getElem?_set_ne (Nat.ne_of_gt hj)]
    exact hbase j hj
  · exact ⟨d, t, hd, List.getElem?_set_self hn, hcolumns ▸ h.fits⟩

end Machine

/-! ### Procedures -/

/-- Started when the tables before its own are filled, procedure `i` fills its own or has one of the
failures, and it is safe all the time. -/
def Procedure.Sound (F : Failures) (ctx : RunContext) (i : Nat) (p : Procedure) : Prop :=
  ∀ m : Machine, m.Ready ctx.program → m.Filled ctx.program i → m.address = some 0 →
    ∃ r : Except Error Table, (∀ e, r = .error e → F.Has e) ∧
      Machine.Finishes { ctx with limit := 0 } p (Machine.Safe p) m r fun _ m₁ =>
        m₁.Ready ctx.program ∧ m₁.Filled ctx.program (i + 1)

namespace Machine

variable {F : Failures} {ctx : RunContext} {p : Procedure} {m : Machine} {i : Nat}

theorem runProcedure_apply (hrunning : m.cancelled = false) (fuel : Nat) :
    runProcedure ctx fuel p m = runCode ctx p fuel { m with address := some 0 } := by
  simp [runProcedure, checkCancelled, hrunning]

theorem runProcedure_cancelled (hcancelled : m.cancelled = true) (fuel : Nat) :
    runProcedure ctx fuel p m = .error .cancelled m := by
  simp [runProcedure, checkCancelled, hcancelled]

theorem settles_procedure (hsound : p.Sound F ctx i) (hready : m.Ready ctx.program)
    (hfilled : m.Filled ctx.program i) :
    Settles F (Safe p) (fun m => m.Ready ctx.program ∧ m.Filled ctx.program (i + 1))
      fun fuel => runProcedure ctx fuel p m := by
  obtain ⟨r, hr, hfinishes⟩ := hsound { m with address := some 0 } hready.start hfilled rfl
  simp only [runProcedure_apply hready.running]
  exact hfinishes.settles hr fun _ _ h => h

/-- Sound procedures one after the other fill their tables. -/
theorem settles_procedures {procedures : List Procedure}
    (hsound : ∀ (j : Nat) (p : Procedure), procedures[j]? = some p → p.Sound F ctx (i + j)) (hready : m.Ready ctx.program)
    (hfilled : m.Filled ctx.program i) :
    Settles F (fun _ => True) (fun m => m.Ready ctx.program ∧ m.Filled ctx.program (i + procedures.length))
      fun fuel => runProcedures ctx fuel procedures m := by
  induction procedures generalizing i m with
  | nil => exact .now ⟨hready, hfilled⟩ fun _ => rfl
  | cons p rest ih =>
    have hrest : ∀ (j : Nat) (p : Procedure), rest[j]? = some p → p.Sound F ctx (i + 1 + j) := by
      intro j p hj
      rw [Nat.add_right_comm]
      exact hsound (j + 1) p hj
    refine (Settles.seq (settles_procedure (hsound 0 p rfl) hready hfilled)
      (fun m₁ h₁ => ih hrest h₁.1 h₁.2) ?_ ?_ ?_).mono (fun _ _ => trivial) ?_
    · intro fuel m₁ hrun
      simp [runProcedures, hrun]
    · intro fuel m₁ hrun
      simp [runProcedures, hrun]
    · intro fuel e m₁ hrun
      simp [runProcedures, hrun]
    · rintro m₁ ⟨hready₁, hfilled₁⟩
      refine ⟨hready₁, ?_⟩
      rwa [List.length_cons, Nat.add_comm rest.length 1, ← Nat.add_assoc]

end Machine

/-! ### Programs -/

/-- In a run of the program the procedure comes to the state: those before it are through, and it has
made some steps. -/
def RunContext.Visits (ctx : RunContext) (cancelled : Bool) (p : Procedure) (m : Machine) : Prop :=
  ∃ before after fuel m₀ steps, ctx.program.procedures = before ++ p :: after ∧
    Machine.runProcedures ctx fuel before (.init ctx.program cancelled) = .ok true m₀ ∧
    Machine.runProcedure ctx steps p m₀ = .ok false m

/-- Every procedure is sound, and the result is the table of one of them. -/
structure RunContext.Sound (F : Failures) (ctx : RunContext) : Prop where
  procedures : ∀ (i : Nat) (p : Procedure), ctx.program.procedures[i]? = some p → p.Sound F ctx i
  result : ctx.program.result < ctx.program.procedures.length

namespace RunContext.Sound

open Machine

variable {F : Failures} {ctx : RunContext} {cancelled : Bool}

theorem settles (h : ctx.Sound F) {before after : List Procedure} (hsplit : ctx.program.procedures = before ++ after) :
    Settles F (fun _ => True) (fun m => m.Ready ctx.program ∧ m.Filled ctx.program before.length)
      fun fuel => runProcedures ctx fuel before (.init ctx.program false) := by
  have hsound : ∀ (j : Nat) (p : Procedure), before[j]? = some p → p.Sound F ctx (0 + j) := by
    intro j p hj
    rw [Nat.zero_add]
    refine h.procedures j p ?_
    rw [hsplit, List.getElem?_append_left (List.getElem?_eq_some_iff.mp hj).1, hj]
  have hempty : (init ctx.program false).Filled ctx.program 0 := fun j hj => absurd hj (Nat.not_lt_zero j)
  have hsettles := settles_procedures hsound (ready_init ctx.program) hempty
  rwa [Nat.zero_add] at hsettles

theorem runProcedures_cancelled {m : Machine} (hcancelled : m.cancelled = true) {procedures : List Procedure}
    (fuel : Nat) : runProcedures ctx fuel procedures m =
      if procedures = [] then .ok true m else .error .cancelled m := by
  cases procedures with
  | nil => rfl
  | cons p rest => simp [runProcedures, runProcedure_cancelled hcancelled]

theorem safe (h : ctx.Sound F) {p : Procedure} {m : Machine} (hvisits : ctx.Visits cancelled p m) : Safe p m := by
  obtain ⟨before, after, fuel, m₀, steps, hsplit, hbefore, hsteps⟩ := hvisits
  cases cancelled with
  | false =>
    obtain ⟨hready, hfilled⟩ := (h.settles hsplit).through hbefore
    have hp : ctx.program.procedures[before.length]? = some p := by
      rw [hsplit, List.getElem?_append_right (Nat.le_refl _), Nat.sub_self]
      rfl
    exact (settles_procedure (h.procedures _ p hp) hready hfilled).underway hsteps
  | true =>
    rw [runProcedures_cancelled rfl] at hbefore
    split at hbefore
    · cases hbefore
      rw [runProcedure_cancelled rfl] at hsteps
      cases hsteps
    · cases hbefore

theorem run_eq (ctx : RunContext) (cancelled : Bool) (fuel : Nat) :
    ctx.program.run ctx.sources ctx.limit cancelled fuel =
      match runProcedures ctx fuel ctx.program.procedures (.init ctx.program cancelled) with
      | .ok false _ => none
      | .ok true m =>
        match resultTable ctx.program m with
        | .ok t m => some ⟨.ok t, m.cancelled⟩
        | .error e m => some ⟨.error e, m.cancelled⟩
      | .error e m => some ⟨.error e, m.cancelled⟩ := rfl

theorem resultTable_apply (h : ctx.Sound F) {m : Machine} (hfilled : m.Filled ctx.program ctx.program.procedures.length) :
    ∃ t, resultTable ctx.program m = .ok t m := by
  obtain ⟨_, t, -, ht, -⟩ := hfilled _ h.result
  exact ⟨t, by simp [resultTable, ht]⟩

/-- Sound programs have no other failures. -/
theorem failure (h : ctx.Sound F) {fuel : Nat} {r : RunResult}
    (hrun : ctx.program.run ctx.sources ctx.limit cancelled fuel = some r) {e : Error} (he : r.result = .error e) :
    F.Has e := by
  rw [run_eq] at hrun
  cases cancelled with
  | true =>
    have hsome : ctx.program.procedures ≠ [] := List.ne_nil_of_length_pos (Nat.zero_lt_of_lt h.result)
    rw [runProcedures_cancelled rfl, if_neg hsome] at hrun
    cases hrun
    cases he
    exact F.ordinary _ rfl
  | false =>
    have hsettles := h.settles (List.append_nil ctx.program.procedures).symm
    obtain ⟨m, -, hfound⟩ | ⟨m, ⟨-, hfilled⟩, hfound⟩ | ⟨e', m, hfault, hfound⟩ := hsettles.found fuel
    · rw [hfound] at hrun
      cases hrun
    · obtain ⟨t, ht⟩ := h.resultTable_apply hfilled
      rw [hfound] at hrun
      simp only [ht] at hrun
      cases hrun
      cases he
    · rw [hfound] at hrun
      cases hrun
      cases he
      exact hfault

theorem faultless (h : ctx.Sound .faultless) {fuel : Nat} {r : RunResult}
    (hrun : ctx.program.run ctx.sources ctx.limit cancelled fuel = some r) {e : Error} (he : r.result = .error e) :
    e.isFault = false := h.failure hrun he

/-- Sound programs come to an end. -/
theorem ends (h : ctx.Sound F) (cancelled : Bool) :
    ∃ enough, ∀ fuel, enough ≤ fuel →
      (ctx.program.run ctx.sources ctx.limit cancelled fuel).isSome = true := by
  cases cancelled with
  | true =>
    have hsome : ctx.program.procedures ≠ [] := List.ne_nil_of_length_pos (Nat.zero_lt_of_lt h.result)
    refine ⟨0, fun fuel _ => ?_⟩
    rw [run_eq, runProcedures_cancelled rfl, if_neg hsome]
    rfl
  | false =>
    obtain ⟨enough, hends⟩ := (h.settles (List.append_nil ctx.program.procedures).symm).ends
    refine ⟨enough, fun fuel hfuel => ?_⟩
    have hnever := hends fuel hfuel
    rw [run_eq]
    cases hrun : runProcedures ctx fuel ctx.program.procedures (.init ctx.program false) with
    | error e m => rfl
    | ok through m =>
      cases through with
      | false => exact absurd hrun (hnever m)
      | true =>
        dsimp only
        split <;> rfl

end RunContext.Sound

end TabularQuery
