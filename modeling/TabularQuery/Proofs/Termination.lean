import TabularQuery.Engine
import TabularQuery.Proofs.CodeLoops
import TabularQuery.Proofs.StatementRun
import TabularQuery.Source.Memory

/-!
Compiled programs come to an end. Procedure `i` of a program that was generated is orderly: it writes table `i`, reads
tables of procedures before it, and winds down. So its supplies are finite when it starts and are not added to while
it runs, and a run of the whole program ends, whatever the rows of its sources, the functions that it calls and the
limit on instructions.
-/

namespace TabularQuery

/-! ### Runs of orderly procedures -/

namespace Machine

variable {ctx : RunContext} {m : Machine} {i j : Nat}

theorem ReadsBelow.mono (h : m.ReadsBelow i) (hle : i ≤ j) : m.ReadsBelow j :=
  fun n following hmem => Nat.lt_of_lt_of_le (h n following hmem) hle

theorem readsBelow_init (p : Program) (cancelled : Bool) : (init p cancelled).ReadsBelow 0 := by
  intro n following hmem
  cases List.eq_of_mem_replicate hmem

theorem exists_comesTo {procedures : List Procedure}
    (horderly : ∀ (k : Nat) (p : Procedure), procedures[k]? = some p → p.Orderly (i + k)) (hm : m.ReadsBelow i) :
    ∃ result, (∀ m', result ≠ .ok false m') ∧ ComesTo ctx procedures m result := by
  induction procedures generalizing i m with
  | nil => exact ⟨.ok true m, by simp, 0, fun _ _ => rfl⟩
  | cons p rest ih =>
    cases hcancelled : m.cancelled with
    | true => exact ⟨.error .cancelled m, by simp, 0, fun fuel _ => by simp [runProcedures, runProcedure_cancelled hcancelled]⟩
    | false =>
      have hp : p.Orderly i := horderly 0 p rfl
      have hstart : ReadsBelow { m with address := some 0 } i := hm
      obtain ⟨fuel, hends⟩ : ∃ fuel, ∀ m', runCode ctx p fuel { m with address := some 0 } ≠ .ok false m' :=
        exists_runCode_ne hp.windsDown hp.toOwns hstart
      have hsingle := ComesTo.single hcancelled hends (runCode_add rfl hends)
      cases hrun : runCode ctx p fuel { m with address := some 0 } with
      | error e m₁ =>
        rw [hrun] at hsingle
        exact ⟨.error e m₁, by simp, hsingle.append_error rest⟩
      | ok through m₁ =>
        cases through with
        | false => exact absurd hrun (hends m₁)
        | true =>
          rw [hrun] at hsingle
          have hm₁ : m₁.ReadsBelow i :=
            runCode_invariant (I := fun m => m.ReadsBelow i) (fun h hstep => h.stepped hp.toOwns hstep) hrun hstart
          have hrest : ∀ (k : Nat) (p : Procedure), rest[k]? = some p → p.Orderly (i + 1 + k) := by
            intro k p hk
            rw [Nat.add_right_comm]
            exact horderly (k + 1) p hk
          obtain ⟨result, hresult, hcomes⟩ := ih hrest (hm₁.mono (Nat.le_succ i))
          exact ⟨result, hresult, hsingle.append hcomes⟩

end Machine

/-- A program whose procedures are orderly has a result, with as much fuel as it needs. -/
theorem Program.exists_run {p : Program}
    (horderly : ∀ (i : Nat) (procedure : Procedure), p.procedures[i]? = some procedure → procedure.Orderly i)
    (context : SourceContext) (limit : Nat) (cancelled : Bool) :
    ∃ r enough, ∀ fuel, enough ≤ fuel → p.run context limit cancelled fuel = some r := by
  have hshifted : ∀ (k : Nat) (procedure : Procedure), p.procedures[k]? = some procedure → procedure.Orderly (0 + k) := by
    intro k procedure hk
    rw [Nat.zero_add]
    exact horderly k procedure hk
  obtain ⟨result, hresult, enough, hcomes⟩ : ∃ result, (∀ m', result ≠ .ok false m') ∧
      Machine.ComesTo ⟨p, context, limit⟩ p.procedures (.init p cancelled) result :=
    Machine.exists_comesTo hshifted (Machine.readsBelow_init p cancelled)
  cases result with
  | error e m => exact ⟨⟨.error e, m.cancelled⟩, enough, fun fuel hfuel => by rw [run, hcomes fuel hfuel]⟩
  | ok through m =>
    cases through with
    | false => exact absurd rfl (hresult m)
    | true =>
      cases htable : Machine.resultTable p m with
      | error e m' => exact ⟨⟨.error e, m'.cancelled⟩, enough, fun fuel hfuel => by simp only [run, hcomes fuel hfuel, htable]⟩
      | ok t m' => exact ⟨⟨.ok t, m'.cancelled⟩, enough, fun fuel hfuel => by simp only [run, hcomes fuel hfuel, htable]⟩

/-! ### Generation -/

theorem BoundSource.OpenedBy.opens {b : BoundSource} {sources : List SourceBinding} {defined : List (String × Nat)}
    {op : Instruction} (h : b.OpenedBy sources defined op) {table : Nat} (hdefined : ∀ entry ∈ defined, entry.2 < table) :
    QueryCode.Opens table b.cursor op := by
  unfold OpenedBy at h
  cases horigin : b.origin with
  | schema =>
    rw [horigin] at h
    obtain ⟨k, comment, -, rfl⟩ := h
    exact .inl ⟨rfl, rfl⟩
  | table name =>
    rw [horigin] at h
    obtain ⟨n, comment, hn, rfl⟩ := h
    obtain ⟨before, after, hsplit, -⟩ := List.lookup_eq_some_iff.mp hn
    exact .inr ⟨rfl, rfl, n, rfl, hdefined (Text.lower name, n) (by simp [hsplit])⟩

theorem orderly_rule (env : Environment) (program : Program) :
    ProcedureRule env program (fun _ => True) (fun i p => p.Orderly i) where
  query hbound _ _ _ hdefined hgen _ :=
    BoundQuery.orderly hbound (hgen.opens.imp fun _ _ hopened => hopened.opens (hgen.table ▸ hdefined))
  operation _ _ _ hlt hlt' _ _ _ _ := SetOperator.orderly _ _ _ _ (Nat.lt_trans hlt hlt') hlt'
  description source columns _ := orderly_describe _ source columns _

/-- Every procedure of a compiled program is orderly. -/
theorem orderly_compile {env : Environment} {text : String} {p : Program} (h : compile env text = .ok p) :
    ∀ (i : Nat) (procedure : Procedure), p.procedures[i]? = some procedure → procedure.Orderly i := by
  obtain ⟨xs, -, h⟩ := except_bind_eq_ok.mp h
  obtain ⟨b, hbind, h⟩ := except_bind_eq_ok.mp h
  obtain ⟨g, n, last, rfl, hup, -⟩ := (orderly_rule env p).generate h (bind_ok hbind) fun _ _ => trivial
  exact hup.procedures

/-- Compiled text comes to an end: under any limit on instructions or none, over any sources, stopped or not, its run has
one result, which more fuel does not change. In the code of its procedures every walk that comes back to its start
moves a cursor or the position among the groups on, without putting it back; and a cursor has finitely many rows before
it, since no procedure reads the table to which it adds rows. -/
theorem compiled_text_ends {env : Environment} {text : String} {p : Program} (hcompile : compile env text = .ok p) :
    (∀ context limit cancelled, ∃ r enough, ∀ fuel, enough ≤ fuel → p.run context limit cancelled fuel = some r) ∧
    ∀ (i : Nat) (procedure : Procedure), p.procedures[i]? = some procedure → procedure.WindsDown ∧ procedure.Owns i := by
  have horderly := orderly_compile hcompile
  exact ⟨Program.exists_run horderly, fun i procedure hi =>
    ⟨(horderly i procedure hi).windsDown, (horderly i procedure hi).toOwns⟩⟩

/-- Nested loops, with groups in the inner one, and rows that are copied while the copies are looked up. -/
theorem compiled_text_ends_nested :
    let schema : MemorySchema := ⟨"m", [("t", ⟨[⟨"n", .integer⟩, ⟨"x", .real⟩],
      [[.integer 1, .real ⟨0x3ff0000000000000⟩], [.integer 1, .integer 2], [.integer 0, .real ⟨0x4008000000000000⟩]]⟩)], .standard⟩
    let env : Environment := ⟨⟨[("m", schema.toSchema)]⟩, .empty⟩
    let text := "with c as (select a.n as n, Sum(b.x) as s from #m.t() a join #m.t() b on a.n = b.n where a.x > 0.5 " ++
      "group by a.n having Count(b.x) > 1 skip 0 take 5) select n, s from c union (n) select n, x from #m.t() skip 1"
    ∃ p, compile env text = .ok p ∧
      (∀ context limit cancelled, ∃ r enough, ∀ fuel, enough ≤ fuel → p.run context limit cancelled fuel = some r) ∧
      ∀ (i : Nat) (procedure : Procedure), p.procedures[i]? = some procedure → procedure.WindsDown ∧ procedure.Owns i := by
  intro schema env text
  have hok : (compile env text).isOk = true := by
    rw [compile, parse, tokenize_append]
    decide +kernel
  obtain ⟨p, hcompile⟩ := exists_of_isOk hok
  exact ⟨p, hcompile, compiled_text_ends hcompile⟩

end TabularQuery
