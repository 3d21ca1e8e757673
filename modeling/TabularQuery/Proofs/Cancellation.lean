import TabularQuery.Proofs.Handover

/-!
Reader and consumer when the stop flag goes up. What was answered is still a beginning of the reader's rows, and a
consumer that is not waiting reports the flag after the rest of its chunk. But the end may be reported as if it were the
reader's own: the flag can go up while the consumer waits, the reader stops for it, and the consumer finds an empty
queue that nobody fills.
-/

namespace TabularQuery.Reader

variable {u : Setup} {actor : Actor} {actors : List Actor} {s s' : Handover}

/-! ### Under a raised flag -/

/-- The rows of a chunk, and then the flag. -/
def reported (current : List (List Value)) : List (Except Error (List Value)) := current.map .ok ++ [.error .cancelled]

/-- With the flag up, a consumer that was not waiting and had given the answers `answered` delivers `current`, the rest
of its chunk, reports the flag, and is done. -/
inductive Reports (answered : List Answer) (current : List (List Value)) (s : Handover) : Prop
  | delivering (delivered rest : List (List Value)) (up : s.cancelled = true) (split : delivered ++ rest = current)
      (consumer : s.consumer = .ready rest) (answers : s.answers = answered ++ (delivered.map Except.ok).map some)
  | done (ends : Nat) (consumer : s.consumer = .done)
      (answers : s.answers = answered ++ ((reported current).map some ++ List.replicate ends none))

theorem Reports.step {answered : List Answer} {current : List (List Value)} (h : Reports answered current s)
    (step : Step u actor s s') : Reports answered current s' := by
  cases h with
  | delivering delivered rest up split consumer answers =>
    cases step with
    | deliver row =>
      cases consumer
      exact .delivering (delivered ++ [row]) _ up (by simpa using split) rfl
        ((congrArg (· ++ [some (.ok row)]) answers).trans (by simp))
    | refuse =>
      cases consumer
      rw [List.append_nil] at split
      exact .done 0 rfl
        ((congrArg (· ++ [some (.error .cancelled)]) answers).trans (by simp [reported, split]))
    | look => cases up
    | receive => cases consumer
    | receiveFailure e => cases consumer
    | exhaust => cases consumer
    | again => cases consumer
    | timeout => cases consumer
    | cancel => exact .delivering delivered rest rfl split consumer answers
    | _ => exact .delivering delivered rest up split consumer answers
  | done ends consumer answers =>
    cases step with
    | again => exact .done (ends + 1) rfl ((congrArg (· ++ [none]) answers).trans (by simp [List.replicate_succ']))
    | deliver row => cases consumer
    | refuse => cases consumer
    | look => cases consumer
    | receive => cases consumer
    | receiveFailure e => cases consumer
    | exhaust => cases consumer
    | timeout => cases consumer
    | _ => exact .done ends consumer answers

/-- A flag that goes up while the consumer is not waiting is reported, whatever the reader makes of it: the
answers are the rest of the chunk, then the flag, then the end for ever. -/
theorem Trace.answers_reported {current : List (List Value)} (h : Trace u s actors s') (hup : s.cancelled = true)
    (hconsumer : s.consumer = .ready current) {n : Nat} {answer : Answer}
    (hanswer : s'.answers[s.answers.length + n]? = some answer) : answer = (reported current)[n]? := by
  have hstart : Reports s.answers current s := .delivering [] current hup rfl hconsumer (by simp)
  have hend := h.invariant (I := Reports s.answers current) hstart fun step ih => ih.step step
  cases hend with
  | delivering delivered rest _ split _ answers =>
    rw [answers, List.getElem?_append_right (Nat.le_add_right _ _), Nat.add_sub_cancel_left] at hanswer
    have hitems : ((delivered.map Except.ok).map some ++ List.replicate 0 none)[n]? = some answer := by
      rwa [List.replicate_zero, List.append_nil]
    refine answer_eq hitems ⟨rest.map .ok ++ [.error .cancelled], ?_⟩ nofun
    rw [← List.append_assoc, ← List.map_append, split, reported]
  | done ends _ answers =>
    rw [answers, List.getElem?_append_right (Nat.le_add_right _ _), Nat.add_sub_cancel_left] at hanswer
    exact answer_eq hanswer List.prefix_rfl fun _ => rfl

/-! ### The end of the stream -/

/-- What the end means while the flag is down: the reader did not fail, and all its rows were answered. -/
theorem Trace.rows_eq (h : Trace u u.start actors s) (hup : s.cancelled = false) (hend : none ∈ s.answers)
    (hok : ∀ e, some (.error e) ∉ s.answers) : s.rows = u.production.rows ∧ u.production.failure = none := by
  obtain ⟨items, ends, hintact⟩ := h.intact hup
  rw [hintact.answers] at hend
  have hdone := hintact.ended (Nat.pos_of_ne_zero (by simpa using hend))
  have hitems := hintact.items_eq hdone
  cases hfailure : u.production.failure with
  | some e => exact absurd (h.failure_mem hup hfailure hdone) (hok e)
  | none =>
    rw [Setup.messages, messages, hfailure, items_messages, List.nil_append] at hitems
    refine ⟨?_, rfl⟩
    rw [Handover.rows, hintact.answers, hitems]
    simp [answeredRows, Function.comp_def, Except.toOption]

/-- The rows that were answered are the first rows of the reader, in every order of steps and whenever the flag goes
up. As long as it is down, the end is answered only after all rows or a failure. If it goes up while the consumer is
not waiting, the consumer reports it after the rest of its chunk. -/
theorem handover_cancellation (h : Trace u u.start actors s) :
    s.rows <+: u.production.rows ∧
    (s.cancelled = false → none ∈ s.answers → (∀ e, some (.error e) ∉ s.answers) →
      s.rows = u.production.rows ∧ u.production.failure = none) ∧
    ∀ current, s.cancelled = true → s.consumer = .ready current → ∀ later s', Trace u s later s' →
      ∀ (n : Nat) (answer : Answer), s'.answers[s.answers.length + n]? = some answer →
        answer = (current.map .ok ++ [.error .cancelled])[n]? := by
  refine ⟨?_, h.rows_eq, fun current hup hconsumer later s' hlater n answer hanswer =>
    hlater.answers_reported hup hconsumer hanswer⟩
  obtain ⟨lost, hrows, -⟩ := h.conserves
  rw [← hrows]
  simp only [List.append_assoc]
  exact List.prefix_append _ _

/-- Two rows in chunks of one. The consumer has the first and waits for the second when the flag goes up; the reader
stops before the second and leaves. -/
theorem trace_stopped : Trace ⟨⟨[[.integer 1], [.integer 2]], none⟩, 1, 1⟩
    (Setup.start ⟨⟨[[.integer 1], [.integer 2]], none⟩, 1, 1⟩)
    [.producer, .producer, .consumer, .consumer, .consumer, .consumer, .canceller, .producer, .producer, .consumer]
    ⟨.gone, [], .done, true, [some (.ok [.integer 1]), none]⟩ :=
  Trace.nil.snoc .push |>.snoc (.send (by decide)) |>.snoc .look |>.snoc .receive |>.snoc (.deliver _)
    |>.snoc .look |>.snoc .cancel |>.snoc .stop |>.snoc .leave |>.snoc .exhaust

theorem handover_cancellation_stopped : ∃ actors s,
    Trace ⟨⟨[[.integer 1], [.integer 2]], none⟩, 1, 1⟩
      (Setup.start ⟨⟨[[.integer 1], [.integer 2]], none⟩, 1, 1⟩) actors s ∧
    s.cancelled = true ∧ s.rows = [[.integer 1]] ∧ s.rows <+: [[.integer 1], [.integer 2]] :=
  ⟨_, _, trace_stopped, rfl, rfl, (handover_cancellation trace_stopped).1⟩

/-- The flag can go up while the consumer waits. Then the end comes without a failure and before the last row. -/
theorem silent_truncation : ¬ ∀ (u : Setup) (actors : List Actor) (s : Handover), Trace u u.start actors s →
    none ∈ s.answers → (∀ e, some (.error e) ∉ s.answers) → s.rows = u.production.rows := by
  intro hall
  have hrows := hall _ _ _ trace_stopped (by simp) (by simp)
  exact absurd (congrArg List.length hrows) (by decide)

end TabularQuery.Reader
