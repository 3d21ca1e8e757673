import TabularQuery.Proofs.Cursors
import TabularQuery.Source.Reader

/-!
Reader and consumer side by side. The reader fills chunks and hands them over through a queue of bounded
length; it looks at the stop flag before each row. The consumer takes messages off the queue; it looks at the
flag before it waits for one, and again whenever the wait takes too long. Somebody else may raise the flag at
any moment. Steps of the parties come in any order.

As long as the flag is down, no order makes a difference: the answers are those of the reader's events read
from the front, and the two parties come to the end.
-/

namespace TabularQuery.Reader

/-! ### Parties -/

/-- What a call of the consumer answers: a row or a failure, or nothing at the end. -/
abbrev Answer := Option (Except Error (List Value))

/-- Where the reader is. What is in its outbox goes to the queue before anything else. -/
inductive Producer where
  /-- Before the next of the rows that are still to come. -/
  | reading (outbox : List Message) (sink : Sink) (rows : List (List Value))
  /-- Through with its rows. -/
  | closing (outbox : List Message)
  /-- Gone: the queue gets nothing more. -/
  | gone

/-- Where the consumer is. -/
inductive Consumer where
  /-- At the rest of a chunk, after which it looks at the flag. -/
  | ready (current : List (List Value))
  /-- Past the flag, waiting for a message. -/
  | waiting
  | done

structure Handover where
  producer : Producer
  queue : List Message
  consumer : Consumer
  cancelled : Bool
  /-- What the consumer has answered, call by call. -/
  answers : List Answer

/-- What a reader is set up with. -/
structure Setup where
  production : Production
  chunkSize : Nat
  queueDepth : Nat

/-- The number of messages that the queue can hold; it is never zero. -/
def Setup.depth (u : Setup) : Nat := Nat.max u.queueDepth 1

def Setup.start (u : Setup) : Handover :=
  ⟨.reading [] ⟨Nat.max u.chunkSize 1, []⟩ u.production.rows, [], .ready [], false, []⟩

/-- All messages of a reader that is not stopped. -/
def Setup.messages (u : Setup) : List Message := Reader.messages u.chunkSize u.production

/-- Who makes a step: one of the two parties, the clock when a wait is over, or whoever raises the flag. -/
inductive Actor where
  | producer | consumer | clock | canceller
  deriving DecidableEq, Repr

/-- Is it one of the two parties? -/
def Actor.works : Actor → Bool
  | .producer | .consumer => true
  | .clock | .canceller => false

/-- One step of one party. -/
inductive Step (u : Setup) : Actor → Handover → Handover → Prop
  /-- The reader's message finds room in the queue. -/
  | send (room : queue.length < u.depth) :
      Step u .producer ⟨.reading (message :: outbox) sink rows, queue, c, up, as⟩
        ⟨.reading outbox sink rows, queue ++ [message], c, up, as⟩
  | push : Step u .producer ⟨.reading [] sink (row :: rows), queue, c, false, as⟩
      ⟨.reading (sink.push row).2 (sink.push row).1 rows, queue, c, false, as⟩
  /-- The row is refused because of the flag; the reader ends as if it had no more. -/
  | stop : Step u .producer ⟨.reading [] sink (row :: rows), queue, c, true, as⟩
      ⟨.closing sink.flush.2, queue, c, true, as⟩
  | finish : Step u .producer ⟨.reading [] sink [], queue, c, up, as⟩
      ⟨.closing (sink.messages u.production.failure []), queue, c, up, as⟩
  | sendLast (room : queue.length < u.depth) :
      Step u .producer ⟨.closing (message :: outbox), queue, c, up, as⟩
        ⟨.closing outbox, queue ++ [message], c, up, as⟩
  | leave : Step u .producer ⟨.closing [], queue, c, up, as⟩ ⟨.gone, queue, c, up, as⟩
  | deliver (row : List Value) : Step u .consumer ⟨p, queue, .ready (row :: rest), up, as⟩
      ⟨p, queue, .ready rest, up, as ++ [some (.ok row)]⟩
  | look : Step u .consumer ⟨p, queue, .ready [], false, as⟩ ⟨p, queue, .waiting, false, as⟩
  | refuse : Step u .consumer ⟨p, queue, .ready [], true, as⟩
      ⟨p, queue, .done, true, as ++ [some (.error .cancelled)]⟩
  | receive : Step u .consumer ⟨p, .chunk rows :: queue, .waiting, up, as⟩ ⟨p, queue, .ready rows, up, as⟩
  | receiveFailure (e : Error) : Step u .consumer ⟨p, .failure e :: queue, .waiting, up, as⟩
      ⟨p, queue, .done, up, as ++ [some (.error e)]⟩
  /-- The queue is empty and will stay so. -/
  | exhaust : Step u .consumer ⟨.gone, [], .waiting, up, as⟩ ⟨.gone, [], .done, up, as ++ [none]⟩
  | again : Step u .consumer ⟨p, queue, .done, up, as⟩ ⟨p, queue, .done, up, as ++ [none]⟩
  | timeout : Step u .clock ⟨p, queue, .waiting, up, as⟩ ⟨p, queue, .ready [], up, as⟩
  | cancel : Step u .canceller ⟨p, queue, c, up, as⟩ ⟨p, queue, c, true, as⟩

/-- Steps one after the other, with those who make them. -/
inductive Trace (u : Setup) (s : Handover) : List Actor → Handover → Prop
  | nil : Trace u s [] s
  | snoc {actors : List Actor} {actor : Actor} {s₁ s₂ : Handover} (before : Trace u s actors s₁)
      (step : Step u actor s₁ s₂) : Trace u s (actors ++ [actor]) s₂

variable {u : Setup} {actor : Actor} {actors : List Actor} {s s' s₁ s₂ : Handover}

/-- What holds at the start and is kept by every step holds throughout. -/
theorem Trace.invariant {I : Handover → Prop} (h : Trace u s actors s') (hstart : I s)
    (hstep : ∀ {actor s₁ s₂}, Step u actor s₁ s₂ → I s₁ → I s₂) : I s' := by
  induction h with
  | nil => exact hstart
  | snoc _ step ih => exact hstep step ih

theorem Step.cancelled (h : Step u actor s s') (hup : s'.cancelled = false) : s.cancelled = false := by
  cases h with
  | cancel => cases hup
  | _ => exact hup

/-- What holds at the start and is kept by every step under a lowered flag holds as long as that is down. -/
theorem Trace.invariant_uncancelled {I : Handover → Prop} (h : Trace u s actors s') (hstart : I s)
    (hstep : ∀ {actor s₁ s₂}, Step u actor s₁ s₂ → s₂.cancelled = false → I s₁ → I s₂)
    (hup : s'.cancelled = false) : I s' :=
  h.invariant (I := fun s => s.cancelled = false → I s) (fun _ => hstart)
    (fun step ih hup => hstep step hup (ih (step.cancelled hup))) hup

/-! ### Rows on their way -/

/-- The answers that a message leads to. -/
def Message.items : Message → List (Except Error (List Value))
  | .chunk rows => rows.map .ok
  | .failure e => [.error e]

def Message.rows : Message → List (List Value)
  | .chunk rows => rows
  | .failure _ => []

/-- The messages that the reader has yet to hand over if it is not stopped. -/
def Producer.outgoing (failure : Option Error) : Producer → List Message
  | .reading outbox sink rows => outbox ++ sink.messages failure rows
  | .closing outbox => outbox
  | .gone => []

/-- The rows that the reader has taken on and not handed over. -/
def Producer.kept : Producer → List (List Value)
  | .reading outbox sink _ => outbox.flatMap Message.rows ++ sink.pending
  | .closing outbox => outbox.flatMap Message.rows
  | .gone => []

/-- The rows that the reader has not come to. -/
def Producer.unread : Producer → List (List Value)
  | .reading _ _ rows => rows
  | _ => []

/-- The rest of the consumer's chunk. -/
def Consumer.held : Consumer → List (List Value)
  | .ready current => current
  | _ => []

/-- The rows among the answers. -/
def answeredRows (answers : List Answer) : List (List Value) :=
  answers.filterMap fun answer => answer.bind Except.toOption

def Handover.rows (s : Handover) : List (List Value) := answeredRows s.answers

@[simp] theorem answeredRows_row (answers : List Answer) (row : List Value) :
    answeredRows (answers ++ [some (.ok row)]) = answeredRows answers ++ [row] := by
  simp [answeredRows, Except.toOption]

@[simp] theorem answeredRows_failure (answers : List Answer) (e : Error) :
    answeredRows (answers ++ [some (.error e)]) = answeredRows answers := by
  simp [answeredRows, Except.toOption]

@[simp] theorem answeredRows_end (answers : List Answer) : answeredRows (answers ++ [none]) = answeredRows answers := by
  simp [answeredRows]

@[simp] theorem pending_flush_append (sink : Sink) :
    sink.flush.2.flatMap Message.rows ++ sink.flush.1.pending = sink.pending := by
  unfold Sink.flush
  split
  · rfl
  · simp [Message.rows]

@[simp] theorem rows_flush (sink : Sink) : sink.flush.2.flatMap Message.rows = sink.pending := by
  unfold Sink.flush
  split
  · rename_i hempty
    rw [List.isEmpty_iff.mp hempty]
    rfl
  · simp [Message.rows]

@[simp] theorem rows_push (sink : Sink) (row : List Value) :
    (sink.push row).2.flatMap Message.rows ++ (sink.push row).1.pending = sink.pending ++ [row] := by
  unfold Sink.push
  dsimp only
  split
  · rw [pending_flush_append]
  · rfl

theorem items_flush (sink : Sink) :
    sink.flush.2.flatMap Message.items = (sink.flush.2.flatMap Message.rows).map .ok := by
  unfold Sink.flush
  split <;> simp [Message.items, Message.rows]

theorem items_push (sink : Sink) (row : List Value) :
    (sink.push row).2.flatMap Message.items = ((sink.push row).2.flatMap Message.rows).map .ok := by
  unfold Sink.push
  dsimp only
  split
  · exact items_flush _
  · rfl

theorem items_messages (sink : Sink) (rows : List (List Value)) :
    (sink.messages none rows).flatMap Message.items = (sink.pending ++ rows).map .ok := by
  induction rows generalizing sink with
  | nil => rw [Sink.messages, items_flush, rows_flush, List.append_nil]
  | cons row rows ih =>
    rw [Sink.messages, List.flatMap_append, ih, items_push, ← List.map_append, ← List.append_assoc, rows_push,
      List.append_assoc, List.singleton_append]

theorem error_mem_messages (sink : Sink) (e : Error) (rows : List (List Value)) :
    .error e ∈ (sink.messages (some e) rows).flatMap Message.items := by
  induction rows generalizing sink with
  | nil => simp [Sink.messages, Message.items]
  | cons row rows ih =>
    rw [Sink.messages, List.flatMap_append]
    exact List.mem_append_right _ (ih _)

/-- A failure comes last. -/
def FailureLast (messages : List Message) : Prop :=
  ∀ before e after, messages = before ++ .failure e :: after → after = []

theorem FailureLast.tail {message : Message} {messages : List Message} (h : FailureLast (message :: messages)) :
    FailureLast messages :=
  fun before e after hsplit => h (message :: before) e after (by rw [hsplit, List.cons_append])

theorem failureLast_append {chunks messages : List Message} (hchunks : ∀ e, Message.failure e ∉ chunks)
    (h : FailureLast messages) : FailureLast (chunks ++ messages) := by
  induction chunks with
  | nil => exact h
  | cons message chunks ih =>
    have hrest := ih fun e he => hchunks e (List.mem_cons_of_mem _ he)
    intro before e after hsplit
    cases before with
    | nil =>
      obtain ⟨rfl, -⟩ := List.cons.inj hsplit
      exact absurd List.mem_cons_self (hchunks e)
    | cons first before => exact hrest before e after (List.cons.inj hsplit).2

theorem failure_not_mem_flush (sink : Sink) (e : Error) : Message.failure e ∉ sink.flush.2 := by
  unfold Sink.flush
  split <;> simp

theorem failure_not_mem_push (sink : Sink) (row : List Value) (e : Error) : Message.failure e ∉ (sink.push row).2 := by
  unfold Sink.push
  dsimp only
  split
  · exact failure_not_mem_flush _ e
  · exact List.not_mem_nil

theorem failureLast_messages (sink : Sink) (failure : Option Error) (rows : List (List Value)) :
    FailureLast (sink.messages failure rows) := by
  induction rows generalizing sink with
  | nil =>
    cases failure with
    | some e =>
      intro before e' after hsplit
      have hlen := congrArg List.length hsplit
      simp only [Sink.messages, List.length_append, List.length_cons, List.length_nil] at hlen
      exact List.length_eq_zero_iff.mp (by omega)
    | none =>
      rw [Sink.messages, ← List.append_nil sink.flush.2]
      exact failureLast_append (failure_not_mem_flush sink) fun before e after hsplit => by simp at hsplit
  | cons row rows ih =>
    rw [Sink.messages]
    exact failureLast_append (failure_not_mem_push sink row) (ih _)

/-! ### Under a lowered flag -/

/-- Nothing is lost on the way: the consumer has answered `items` and then `ends` times the end; these items, what
it holds and what is still to come are the reader's messages in order, and the end is answered only when nothing
more is to come. -/
structure Intact (u : Setup) (items : List (Except Error (List Value))) (ends : Nat) (s : Handover) : Prop where
  answers : s.answers = items.map some ++ List.replicate ends none
  stream : items ++ s.consumer.held.map .ok ++
    (s.queue ++ s.producer.outgoing u.production.failure).flatMap Message.items = u.messages.flatMap Message.items
  failure : FailureLast (s.queue ++ s.producer.outgoing u.production.failure)
  ended : 0 < ends → s.consumer = .done
  done : s.consumer = .done → s.queue ++ s.producer.outgoing u.production.failure = []
  closed : s.consumer = .done → 0 < ends ∨ ∃ e, .error e ∈ items

theorem intact_start (u : Setup) : Intact u [] 0 u.start where
  answers := rfl
  stream := by simp [Setup.start, Consumer.held, Producer.outgoing, Setup.messages, messages]
  failure := failureLast_messages _ _ _
  ended := nofun
  done := nofun
  closed := nofun

section Step

variable {items : List (Except Error (List Value))} {ends : Nat}

theorem Intact.produced (h : Intact u items ends s) (hconsumer : s'.consumer = s.consumer) (hanswers : s'.answers = s.answers)
    (hcoming : s'.queue ++ s'.producer.outgoing u.production.failure =
      s.queue ++ s.producer.outgoing u.production.failure) : Intact u items ends s' where
  answers := hanswers ▸ h.answers
  stream := by rw [hconsumer, hcoming, h.stream]
  failure := hcoming ▸ h.failure
  ended hpos := hconsumer ▸ h.ended hpos
  done hdone := hcoming ▸ h.done (hconsumer ▸ hdone)
  closed hdone := h.closed (hconsumer ▸ hdone)

theorem Intact.ends_eq_zero (h : Intact u items ends s) (hconsumer : s.consumer ≠ .done) : ends = 0 :=
  Nat.eq_zero_of_not_pos fun hpos => hconsumer (h.ended hpos)

theorem Intact.step (h : Intact u items ends s) (step : Step u actor s s') (hup : s'.cancelled = false) :
    ∃ items' ends', Intact u items' ends' s' := by
  cases step with
  | send | sendLast => exact ⟨items, ends, h.produced rfl rfl (by simp [Producer.outgoing])⟩
  | push => exact ⟨items, ends, h.produced rfl rfl (by simp [Producer.outgoing, Sink.messages])⟩
  | stop => cases hup
  | finish | leave => exact ⟨items, ends, h.produced rfl rfl rfl⟩
  | deliver row =>
    obtain rfl := h.ends_eq_zero nofun
    refine ⟨items ++ [.ok row], 0, ⟨?_, ?_, h.failure, nofun, nofun, nofun⟩⟩
    · simpa using h.answers
    · simpa [Consumer.held] using h.stream
  | look | timeout =>
    obtain rfl := h.ends_eq_zero nofun
    exact ⟨items, 0, ⟨h.answers, h.stream, h.failure, nofun, nofun, nofun⟩⟩
  | refuse => cases hup
  | receive =>
    obtain rfl := h.ends_eq_zero nofun
    refine ⟨items, 0, ⟨h.answers, ?_, h.failure.tail, nofun, nofun, nofun⟩⟩
    simpa [Consumer.held, Message.items] using h.stream
  | receiveFailure e =>
    obtain rfl := h.ends_eq_zero nofun
    refine ⟨items ++ [.error e], 0, ⟨?_, ?_, h.failure.tail, nofun, fun _ => h.failure [] _ _ rfl,
      fun _ => .inr ⟨e, by simp⟩⟩⟩
    · simpa using h.answers
    · simpa [Consumer.held, Message.items] using h.stream
  | exhaust =>
    refine ⟨items, ends + 1, ⟨?_, h.stream, h.failure, fun _ => rfl, fun _ => rfl, fun _ => .inl (Nat.succ_pos _)⟩⟩
    rw [List.replicate_succ', ← List.append_assoc, ← h.answers]
  | again =>
    refine ⟨items, ends + 1, ⟨?_, h.stream, h.failure, fun _ => rfl, h.done, fun _ => .inl (Nat.succ_pos _)⟩⟩
    rw [List.replicate_succ', ← List.append_assoc, ← h.answers]
  | cancel => cases hup

end Step

/-- While the flag is down nothing is lost, whoever makes a step. -/
theorem Trace.intact (h : Trace u u.start actors s) (hup : s.cancelled = false) : ∃ items ends, Intact u items ends s :=
  h.invariant_uncancelled (I := fun s => ∃ items ends, Intact u items ends s) ⟨[], 0, intact_start u⟩
    (fun step hup ⟨_, _, ih⟩ => ih.step step hup) hup

/-- Answers that are items of a stream in order, and the end after all of them only. -/
theorem answer_eq {items stream : List (Except Error (List Value))} {ends n : Nat} {answer : Answer}
    (hanswer : (items.map some ++ List.replicate ends none)[n]? = some answer) (hstarts : items <+: stream)
    (hends : 0 < ends → items = stream) : answer = stream[n]? := by
  rw [List.getElem?_append] at hanswer
  split at hanswer
  · rename_i hn
    rw [List.length_map] at hn
    rw [List.getElem?_map, List.getElem?_eq_getElem hn, Option.map_some, Option.some_inj] at hanswer
    obtain ⟨rest, rfl⟩ := hstarts
    rw [List.getElem?_append_left hn, List.getElem?_eq_getElem hn, hanswer]
  · rename_i hn
    rw [List.getElem?_replicate] at hanswer
    split at hanswer
    · rename_i hlt
      cases hanswer
      rw [← hends (Nat.zero_lt_of_lt hlt)]
      simpa using Nat.not_lt.mp hn
    · cases hanswer

theorem Intact.items_eq {items : List (Except Error (List Value))} {ends : Nat} (h : Intact u items ends s)
    (hdone : s.consumer = .done) : items = u.messages.flatMap Message.items := by
  have hheld : s.consumer.held = [] := by rw [hdone]; rfl
  rw [← h.stream, hheld, h.done hdone]
  simp

/-- Answer number `n` is the reader's item number `n`; after the last one it is the end. -/
theorem Trace.answers_getElem? (h : Trace u u.start actors s) (hup : s.cancelled = false) {n : Nat} {answer : Answer}
    (hanswer : s.answers[n]? = some answer) : answer = (u.messages.flatMap Message.items)[n]? := by
  obtain ⟨items, ends, hintact⟩ := h.intact hup
  rw [hintact.answers] at hanswer
  refine answer_eq hanswer ?_ fun hends => hintact.items_eq (hintact.ended hends)
  rw [← hintact.stream, List.append_assoc]
  exact List.prefix_append _ _

theorem Trace.end_mem (h : Trace u u.start actors s) (hup : s.cancelled = false) (hfailure : u.production.failure = none)
    (hdone : s.consumer = .done) : none ∈ s.answers := by
  obtain ⟨items, ends, hintact⟩ := h.intact hup
  rw [hintact.answers]
  rcases hintact.closed hdone with hends | ⟨e, he⟩
  · simp [Nat.pos_iff_ne_zero.mp hends]
  · have hmem : .error e ∈ u.messages.flatMap Message.items := by
      rw [← hintact.stream, List.append_assoc]
      exact List.mem_append_left _ he
    rw [Setup.messages, messages, hfailure, items_messages] at hmem
    simp at hmem

theorem Trace.failure_mem {e : Error} (h : Trace u u.start actors s) (hup : s.cancelled = false)
    (hfailure : u.production.failure = some e) (hdone : s.consumer = .done) : some (.error e) ∈ s.answers := by
  obtain ⟨items, ends, hintact⟩ := h.intact hup
  have hmem : .error e ∈ items := by
    rw [hintact.items_eq hdone, Setup.messages, messages, hfailure]
    exact error_mem_messages _ e _
  rw [hintact.answers]
  exact List.mem_append_left _ (List.mem_map_of_mem hmem)

/-! ### The events of the reader -/

end TabularQuery.Reader

namespace TabularQuery.RowSource

/-- The rows and failures of a source in order. -/
def items : RowSource → List (Except Error SourceRow)
  | [] => []
  | .row r :: rest => .ok r :: items rest
  | .failure e :: rest => .error e :: items rest
  | .cancel :: rest => items rest
  | .checkpoint :: rest => items rest

/-- What the first pulls bring while the flag is down. -/
def pulls : Nat → RowSource → List (Option (Except Error SourceRow))
  | 0, _ => []
  | n + 1, source => (pull false source).item :: pulls n (pull false source).rest

theorem pull_items {source : RowSource} (h : source.Quiet) :
    (pull false source).item = source.items.head? ∧ (pull false source).rest.items = source.items.tail ∧
      (pull false source).rest.Quiet := by
  induction source with
  | nil => exact ⟨rfl, rfl, h⟩
  | cons event rest ih =>
    cases event with
    | row r => exact ⟨rfl, rfl, h.tail⟩
    | failure e => exact ⟨rfl, rfl, h.tail⟩
    | cancel => exact absurd List.mem_cons_self h
    | checkpoint => exact ih h.tail

theorem pulls_eq {source : RowSource} (h : source.Quiet) (n : Nat) :
    source.pulls n = (List.range n).map fun i => source.items[i]? := by
  induction n generalizing source with
  | zero => rfl
  | succ n ih =>
    obtain ⟨hitem, hrest, hquiet⟩ := pull_items h
    rw [pulls, ih hquiet, hitem, hrest, List.range_succ_eq_map, List.map_cons, List.map_map, List.head?_eq_getElem?]
    simp [Function.comp_def]

theorem items_append (xs ys : RowSource) : items (xs ++ ys) = xs.items ++ ys.items := by
  induction xs with
  | nil => rfl
  | cons event xs ih => cases event <;> simp [items, ih]

end TabularQuery.RowSource

namespace TabularQuery.Reader

variable {u : Setup} {actor : Actor} {actors : List Actor} {s s' s₁ s₂ : Handover}

theorem quiet_source (names : List String) (chunkSize : Nat) (p : Production) : (source names chunkSize p).Quiet := by
  intro hmem
  rcases List.mem_append.mp hmem with hmem | hmem
  · obtain ⟨message, -, hevent⟩ := List.mem_flatMap.mp hmem
    cases message <;> simp [received] at hevent
  · unfold closing at hmem
    split at hmem <;> simp at hmem

theorem items_received (names : List String) (message : Message) :
    RowSource.items (received names message) = message.items.map (Except.map (.positional names)) := by
  cases message with
  | failure e => rfl
  | chunk rows =>
    change RowSource.items (rows.map _) = _
    induction rows with
    | nil => rfl
    | cons row rows ih => simpa [RowSource.items, Message.items, Except.map] using ih

theorem items_source (names : List String) (chunkSize : Nat) (p : Production) :
    RowSource.items (source names chunkSize p) =
      ((messages chunkSize p).flatMap Message.items).map (Except.map (.positional names)) := by
  have hclosing : RowSource.items (closing p) = [] := by
    unfold closing
    split <;> rfl
  rw [source, RowSource.items_append, hclosing, List.append_nil]
  induction messages chunkSize p with
  | nil => rfl
  | cons message messages ih =>
    rw [List.flatMap_cons, RowSource.items_append, items_received, ih, List.flatMap_cons, List.map_append]

/-- Whoever makes a step, while the flag is down the consumer answers what the reader's events bring when they are
read from the front. -/
theorem Trace.answers_eq_pulls (h : Trace u u.start actors s) (hup : s.cancelled = false) (names : List String) :
    s.answers.map (Option.map (Except.map (.positional names))) =
      (source names u.chunkSize u.production).pulls s.answers.length := by
  rw [RowSource.pulls_eq (quiet_source _ _ _), items_source]
  refine List.ext_getElem (by simp) fun n hn _ => ?_
  rw [List.length_map] at hn
  have hanswer := h.answers_getElem? hup (List.getElem?_eq_getElem hn)
  simp [hanswer, Setup.messages]

/-! ### Rows in every order of steps -/

/-- What was answered and what is on its way are the reader's rows, but for those that are `lost`: the ones that a
reader does not come to because of the flag, and the unfinished chunk of one that fails. -/
structure Conserves (u : Setup) (lost : List (List Value)) (s : Handover) : Prop where
  rows : s.rows ++ s.consumer.held ++ s.queue.flatMap Message.rows ++ s.producer.kept ++ s.producer.unread ++ lost =
    u.production.rows
  lost : s.cancelled = false → u.production.failure = none → lost = []

theorem conserves_start (u : Setup) : Conserves u [] u.start where
  rows := by simp [Setup.start, Handover.rows, answeredRows, Consumer.held, Producer.kept, Producer.unread]
  lost _ _ := rfl

theorem Conserves.step {lost : List (List Value)} (h : Conserves u lost s) (step : Step u actor s s') :
    ∃ lost', Conserves u lost' s' := by
  obtain ⟨hrows, hlost⟩ := h
  cases step with
  | send | sendLast => exact ⟨lost, by simpa [Handover.rows, Producer.kept, Producer.unread] using hrows, hlost⟩
  | push =>
    refine ⟨lost, ?_, hlost⟩
    rw [← hrows]
    simp only [Handover.rows, Producer.kept, Producer.unread, rows_push, List.flatMap_nil, List.nil_append,
      List.append_assoc, List.cons_append]
  | @stop sink row rows =>
    -- the refused row and those after it
    refine ⟨row :: rows ++ lost, ?_, nofun⟩
    rw [← hrows]
    simp [Handover.rows, Producer.kept, Producer.unread]
  | @finish sink =>
    cases hfailure : u.production.failure with
    | none =>
      refine ⟨lost, ?_, hlost⟩
      rw [← hrows]
      simp [Handover.rows, Producer.kept, Producer.unread, Sink.messages]
    | some e =>
      -- the unfinished chunk
      refine ⟨sink.pending ++ lost, ?_, fun _ hnone => ?_⟩
      · rw [← hrows]
        simp [Handover.rows, Producer.kept, Producer.unread, Sink.messages, Message.rows]
      · rw [hfailure] at hnone
        cases hnone
  | leave => exact ⟨lost, hrows, hlost⟩
  | deliver row | refuse | exhaust | again => exact ⟨lost, by simpa [Handover.rows, Consumer.held] using hrows, hlost⟩
  | look => exact ⟨lost, hrows, hlost⟩
  | receive | receiveFailure e => exact ⟨lost, by simpa [Handover.rows, Consumer.held, Message.rows] using hrows, hlost⟩
  | timeout => exact ⟨lost, hrows, hlost⟩
  | cancel => exact ⟨lost, hrows, nofun⟩

theorem Trace.conserves (h : Trace u u.start actors s) : ∃ lost, Conserves u lost s :=
  h.invariant (I := fun s => ∃ lost, Conserves u lost s) ⟨[], conserves_start u⟩ fun step ⟨_, ih⟩ => ih.step step

theorem Trace.length_queue (h : Trace u u.start actors s) : s.queue.length ≤ u.depth := by
  refine h.invariant (I := fun s => s.queue.length ≤ u.depth) (Nat.zero_le _) fun step hle => ?_
  cases step with
  | send room | sendLast room => simpa [Nat.succ_le_iff] using room
  | receive => exact Nat.le_of_succ_le hle
  | receiveFailure e => exact Nat.le_of_succ_le hle
  | _ => exact hle

/-! ### The way to the end -/

/-- One of the two parties can always make a step. -/
theorem exists_step (u : Setup) (s : Handover) : ∃ actor s', actor.works = true ∧ Step u actor s s' := by
  obtain ⟨p, queue, c, up, as⟩ := s
  have hroom : ([] : List Message).length < u.depth := Nat.lt_of_lt_of_le Nat.zero_lt_one (Nat.le_max_right _ _)
  cases c with
  | ready current =>
    cases current with
    | cons row rest => exact ⟨.consumer, _, rfl, .deliver row⟩
    | nil =>
      cases up with
      | false => exact ⟨.consumer, _, rfl, .look⟩
      | true => exact ⟨.consumer, _, rfl, .refuse⟩
  | done => exact ⟨.consumer, _, rfl, .again⟩
  | waiting =>
    cases queue with
    | cons message queue =>
      cases message with
      | chunk rows => exact ⟨.consumer, _, rfl, .receive⟩
      | failure e => exact ⟨.consumer, _, rfl, .receiveFailure e⟩
    | nil =>
      -- the consumer waits, so that it is for the reader to go on
      cases p with
      | gone => exact ⟨.consumer, _, rfl, .exhaust⟩
      | closing outbox =>
        cases outbox with
        | nil => exact ⟨.producer, _, rfl, .leave⟩
        | cons message outbox => exact ⟨.producer, _, rfl, .sendLast hroom⟩
      | reading outbox sink rows =>
        cases outbox with
        | cons message outbox => exact ⟨.producer, _, rfl, .send hroom⟩
        | nil =>
          cases rows with
          | nil => exact ⟨.producer, _, rfl, .finish⟩
          | cons row rows =>
            cases up with
            | false => exact ⟨.producer, _, rfl, .push⟩
            | true => exact ⟨.producer, _, rfl, .stop⟩

/-- Steps that messages in the queue give rise to, at most; those that are not in the queue yet need `more`. -/
def messagesWork (more : Nat) : List Message → Nat
  | [] => 0
  | message :: rest => message.rows.length + 2 + more + messagesWork more rest

theorem messagesWork_append (more : Nat) (before after : List Message) :
    messagesWork more (before ++ after) = messagesWork more before + messagesWork more after := by
  induction before with
  | nil => simp [messagesWork]
  | cons message before ih => simp [messagesWork, ih, Nat.add_assoc]

def Sink.work (sink : Sink) : Nat := if sink.pending.isEmpty then 0 else sink.pending.length + 3

def Producer.work : Producer → Nat
  | .reading outbox sink rows => messagesWork 1 outbox + sink.work + 5 * rows.length + 5
  | .closing outbox => messagesWork 1 outbox + 1
  | .gone => 0

def Consumer.work : Consumer → Nat
  | .ready current => current.length + 2
  | .waiting => 1
  | .done => 0

/-- The number of steps that the two parties can make until the consumer is done, if no wait takes too long. -/
def Handover.work (s : Handover) : Nat := s.producer.work + messagesWork 0 s.queue + s.consumer.work

theorem messagesWork_flush (sink : Sink) : messagesWork 1 sink.flush.2 = sink.work := by
  unfold Sink.flush Sink.work
  split <;> simp [messagesWork, Message.rows]

@[simp] theorem work_flush (sink : Sink) : sink.flush.1.work = 0 := by
  unfold Sink.flush Sink.work
  split <;> simp_all

theorem messagesWork_push (sink : Sink) (row : List Value) :
    messagesWork 1 (sink.push row).2 + (sink.push row).1.work ≤ sink.work + 4 := by
  have hfuller : (⟨sink.size, sink.pending ++ [row]⟩ : Sink).work ≤ sink.work + 4 := by
    cases hpending : sink.pending <;> simp [Sink.work, hpending]
  unfold Sink.push
  dsimp only
  split
  · rw [messagesWork_flush, work_flush]
    exact hfuller
  · simpa [messagesWork] using hfuller

/-- Each step of the two parties takes some of the work away until the consumer is done; a wait that takes too long
costs one step more. -/
theorem Step.work (h : Step u actor s s') (hdone : s.consumer ≠ .done) :
    s'.work + (if actor.works then 1 else 0) ≤ s.work + if actor = .clock then 1 else 0 := by
  cases h with
  | send | sendLast | leave =>
    simp only [Handover.work, Producer.work, messagesWork, messagesWork_append, Actor.works, reduceIte]
    omega
  | @push sink row =>
    have hpush := messagesWork_push sink row
    simp only [Handover.work, Producer.work, Actor.works, List.length_cons, reduceIte]
    omega
  | @stop sink =>
    have hflush := messagesWork_flush sink
    simp only [Handover.work, Producer.work, Actor.works, reduceIte]
    omega
  | @finish sink =>
    have hflush := messagesWork_flush sink
    cases u.production.failure with
    | none =>
      simp only [Handover.work, Producer.work, Sink.messages, Actor.works, reduceIte]
      omega
    | some e =>
      simp only [Handover.work, Producer.work, Sink.messages, messagesWork, Message.rows, Actor.works, List.length_nil,
        reduceIte]
      omega
  | deliver | look | refuse | exhaust | timeout =>
    simp only [Handover.work, Consumer.work, Actor.works, List.length_cons, List.length_nil, Bool.false_eq_true, reduceIte]
    omega
  | receive | receiveFailure =>
    simp only [Handover.work, Consumer.work, messagesWork, Message.rows, Actor.works, List.length_nil, reduceIte]
    omega
  | again => exact absurd rfl hdone
  | cancel => exact Nat.le_refl _

theorem Step.done (h : Step u actor s s') (hdone : s.consumer = .done) : s'.consumer = .done := by
  cases h with
  | _ => first | exact hdone | cases hdone

theorem Trace.work (h : Trace u s actors s') (hdone : s'.consumer ≠ .done) :
    s'.work + actors.countP Actor.works ≤ s.work + actors.count .clock := by
  induction h with
  | nil => simp
  | @snoc _ actor _ _ _ step ih =>
    have hbefore := ih fun hdone' => hdone (step.done hdone')
    have hstep := step.work fun hdone' => hdone (step.done hdone')
    rw [List.countP_append, List.count_append]
    cases actor <;> simp [Actor.works] at hstep ⊢ <;> omega

theorem Trace.append {more : List Actor} {s'' : Handover} (h : Trace u s actors s') (h' : Trace u s' more s'') :
    Trace u s (actors ++ more) s'' := by
  induction h' with
  | nil => rwa [List.append_nil]
  | snoc _ step ih => rw [← List.append_assoc]; exact ih.snoc step

/-- A reader that comes to its end, and a flag that stays down: in every order of steps each row is in exactly one
place and all are in the reader's order, the queue is never longer than it may be, someone can go on, the
answers are the rows in order and then the end for ever, and the end is reached: the two parties can make only so
many steps before, one more for each wait that takes too long. The same answers come from the reader's events. -/
theorem uncancelled_handover (rows : List (List Value)) (chunkSize queueDepth : Nat) {actors : List Actor} {s : Handover}
    (h : Trace ⟨⟨rows, none⟩, chunkSize, queueDepth⟩ (Setup.start ⟨⟨rows, none⟩, chunkSize, queueDepth⟩) actors s)
    (hup : s.cancelled = false) :
    s.rows ++ s.consumer.held ++ s.queue.flatMap Message.rows ++ s.producer.kept ++ s.producer.unread = rows ∧
    s.queue.length ≤ max queueDepth 1 ∧
    (∃ actor s', actor.works = true ∧ Step ⟨⟨rows, none⟩, chunkSize, queueDepth⟩ actor s s') ∧
    (∀ (n : Nat) (answer : Answer), s.answers[n]? = some answer → answer = rows[n]?.map .ok) ∧
    (∀ later s', Trace ⟨⟨rows, none⟩, chunkSize, queueDepth⟩ s later s' → s'.cancelled = false →
      s.work + later.count .clock < later.countP Actor.works → none ∈ s'.answers) ∧
    ∀ names, s.answers.map (Option.map (Except.map (.positional names))) =
      (source names chunkSize ⟨rows, none⟩).pulls s.answers.length := by
  refine ⟨?_, h.length_queue, exists_step _ s, ?_, ?_, h.answers_eq_pulls hup⟩
  · obtain ⟨lost, hrows, hlost⟩ := h.conserves
    rwa [hlost hup rfl, List.append_nil] at hrows
  · intro n answer hanswer
    rw [h.answers_getElem? hup hanswer, Setup.messages, messages, items_messages, List.nil_append, List.getElem?_map]
  · intro later s' hlater hup' hsteps
    refine (h.append hlater).end_mem hup' rfl ?_
    by_contra hdone
    have hwork := hlater.work hdone
    omega

/-- Three rows in chunks of two, a queue of the least length, and a reader that works ahead. -/
theorem uncancelled_handover_three : ∃ actors s,
    Trace ⟨⟨[[.integer 1], [.integer 2], [.integer 3]], none⟩, 2, 0⟩
      (Setup.start ⟨⟨[[.integer 1], [.integer 2], [.integer 3]], none⟩, 2, 0⟩) actors s ∧
    s.answers = [some (.ok [.integer 1]), some (.ok [.integer 2])] ∧ s.queue.length = 1 ∧
    s.rows ++ s.consumer.held ++ s.queue.flatMap Message.rows ++ s.producer.kept ++ s.producer.unread =
      [[.integer 1], [.integer 2], [.integer 3]] := by
  have htrace : Trace ⟨⟨[[.integer 1], [.integer 2], [.integer 3]], none⟩, 2, 0⟩
      (Setup.start ⟨⟨[[.integer 1], [.integer 2], [.integer 3]], none⟩, 2, 0⟩) _ _ :=
    Trace.nil.snoc .push |>.snoc .push |>.snoc .look |>.snoc (.send (by decide)) |>.snoc .push |>.snoc .receive
      |>.snoc (.deliver _) |>.snoc .finish |>.snoc (.sendLast (by decide)) |>.snoc (.deliver _)
  exact ⟨_, _, htrace, rfl, rfl, (uncancelled_handover _ 2 0 htrace rfl).1⟩

end TabularQuery.Reader
