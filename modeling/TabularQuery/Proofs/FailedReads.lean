import TabularQuery.Proofs.BrokenOff
import TabularQuery.Proofs.Handover
import TabularQuery.Proofs.RunFailures
import TabularQuery.Source.Delimited
import TabularQuery.Source.LineFile

/-!
Readers that fail. The rows of full chunks arrive, then the failure, then the end. The rows of the chunk that was not
full when the reader failed are lost, unless there are none: so how many rows a query sees of a file before the
failure depends on the size of chunks. This is all that it depends on: where two sizes leave the same number of rows in
full chunks, and for files that can be read to their end, queries come to the same result.
-/

namespace TabularQuery.Reader

/-! ### Full chunks -/

/-- The number of rows in full chunks, of so many. -/
def fullRows (chunkSize count : Nat) : Nat := count / Nat.max chunkSize 1 * Nat.max chunkSize 1

theorem fullRows_le (chunkSize count : Nat) : fullRows chunkSize count ≤ count := Nat.div_mul_le_self _ _

theorem fullRows_one (count : Nat) : fullRows 1 count = count := by
  simp [fullRows]

theorem take_fullRows_eq_iff {α : Type} (chunkSize : Nat) (rows : List α) :
    rows.take (fullRows chunkSize rows.length) = rows ↔ Nat.max chunkSize 1 ∣ rows.length := by
  have hle := fullRows_le chunkSize rows.length
  rw [List.take_eq_self_iff]
  constructor
  · intro hfull
    exact ⟨_, (Nat.le_antisymm hfull hle).trans (Nat.mul_comm _ _)⟩
  · intro hdvd
    rw [fullRows, Nat.div_mul_cancel hdvd]

theorem items_messages_failure (sink : Sink) (hpending : sink.pending.length < sink.size) (e : Error)
    (rows : List (List Value)) :
    (sink.messages (some e) rows).flatMap Message.items =
      ((sink.pending ++ rows).take ((sink.pending.length + rows.length) / sink.size * sink.size)).map Except.ok ++
        [Except.error e] := by
  induction rows generalizing sink with
  | nil => simp [Sink.messages, Message.items, Nat.div_eq_of_lt hpending]
  | cons row rows ih =>
    obtain ⟨size, pending⟩ := sink
    dsimp only at hpending ⊢
    rw [Sink.messages, List.flatMap_append]
    by_cases hfull : size ≤ pending.length + 1
    · -- the row fills the chunk, which is handed over
      have hsize : pending.length + 1 = size := Nat.le_antisymm hpending hfull
      have hpush : Sink.push ⟨size, pending⟩ row = (⟨size, []⟩, [.chunk (pending ++ [row])]) := by
        simp [Sink.push, Sink.flush, hfull]
      have hcount : (pending.length + (row :: rows).length) / size * size = size + rows.length / size * size := by
        rw [List.length_cons, ← Nat.add_assoc, Nat.add_right_comm, hsize, Nat.add_div_left _ (by omega), Nat.succ_mul,
          Nat.add_comm]
      have hsplit : pending ++ row :: rows = (pending ++ [row]) ++ rows := by simp
      have hlength : (pending ++ [row]).length = size := by simpa using hsize
      rw [hpush, ih ⟨size, []⟩ (by simp; omega), hcount, hsplit, ← hlength, List.take_length_add_append]
      simp [Message.items]
    · have hpush : Sink.push ⟨size, pending⟩ row = (⟨size, pending ++ [row]⟩, []) := by
        simp [Sink.push, hfull]
      rw [hpush, ih ⟨size, pending ++ [row]⟩ (by simp; omega)]
      simp [Nat.add_assoc, Nat.add_comm 1]

theorem items_failure (chunkSize : Nat) (rows : List (List Value)) (e : Error) :
    (messages chunkSize ⟨rows, some e⟩).flatMap Message.items =
      (rows.take (fullRows chunkSize rows.length)).map Except.ok ++ [Except.error e] := by
  have hsize : 0 < Nat.max chunkSize 1 := Nat.lt_of_lt_of_le Nat.zero_lt_one (Nat.le_max_right _ _)
  simpa [messages, fullRows] using items_messages_failure ⟨Nat.max chunkSize 1, []⟩ hsize e rows

/-! ### What cursors see -/

/-- A row as it stands under declared columns, or why it cannot. -/
def shown (names : List String) (columns : List Column) (row : List Value) : Except Error (List Value) :=
  (SourceRow.positional names row).materialize columns

theorem delivery_eq_items (columns : List Column) (source : RowSource) :
    source.delivery columns = source.items.map (· >>= SourceRow.materialize columns) := by
  induction source with
  | nil => rfl
  | cons event source ih =>
    cases event with
    | row r => exact congrArg (SourceRow.materialize columns r :: ·) ih
    | failure e => exact congrArg (Except.error e :: ·) ih
    | cancel => exact ih
    | checkpoint => exact ih

theorem delivery_source (names : List String) (columns : List Column) (chunkSize : Nat) (p : Production) :
    (source names chunkSize p).delivery columns =
      ((messages chunkSize p).flatMap Message.items).map (· >>= shown names columns) := by
  rw [delivery_eq_items, items_source, List.map_map]
  refine List.map_congr_left fun item _ => ?_
  cases item <;> rfl

theorem delivery_source_failure (names : List String) (columns : List Column) (chunkSize : Nat)
    (rows : List (List Value)) (e : Error) :
    (source names chunkSize ⟨rows, some e⟩).delivery columns =
      (rows.take (fullRows chunkSize rows.length)).map (shown names columns) ++ [Except.error e] := by
  rw [delivery_source, items_failure, List.map_append, List.map_map]
  rfl

/-- Of a reader that does not fail, the same is seen for every size of chunks. -/
theorem delivery_source_complete (names : List String) (columns : List Column) (chunkSize : Nat)
    (rows : List (List Value)) :
    (source names chunkSize ⟨rows, none⟩).delivery columns = rows.map (shown names columns) := by
  rw [delivery_source, messages, items_messages, List.map_map]
  rfl

/-- Of a reader that fails, two sizes of chunks show the same only if as many rows are in full chunks. -/
theorem delivery_source_eq_iff (names : List String) (columns : List Column) (chunkSize chunkSize' : Nat)
    (rows : List (List Value)) (e : Error) :
    (source names chunkSize ⟨rows, some e⟩).delivery columns = (source names chunkSize' ⟨rows, some e⟩).delivery columns ↔
      fullRows chunkSize rows.length = fullRows chunkSize' rows.length := by
  rw [delivery_source_failure, delivery_source_failure]
  constructor
  · intro h
    have hlength := congrArg List.length h
    have hle := fullRows_le chunkSize rows.length
    have hle' := fullRows_le chunkSize' rows.length
    simp only [List.length_append, List.length_map, List.length_take, List.length_cons, List.length_nil] at hlength
    omega
  · intro h
    rw [h]

end TabularQuery.Reader

namespace TabularQuery

/-- Failures of a reader that come earlier for one size of chunks than for the other. -/
def Production.Early (chunkSize chunkSize' : Nat) (p : Production) (e : Error) : Prop :=
  p.failure = some e ∧ Reader.fullRows chunkSize p.rows.length < Reader.fullRows chunkSize' p.rows.length

theorem Reader.brokenOff_delivery {F : Error → Prop} (names : List String) (columns : List Column)
    {chunkSize chunkSize' : Nat} {p : Production}
    (hle : p.failure.isSome → fullRows chunkSize p.rows.length ≤ fullRows chunkSize' p.rows.length)
    (hearly : ∀ e, p.Early chunkSize chunkSize' e → F e) :
    BrokenOff F ((source names chunkSize p).delivery columns) ((source names chunkSize' p).delivery columns) := by
  obtain ⟨rows, failure⟩ := p
  cases failure with
  | none =>
    rw [delivery_source_complete, delivery_source_complete]
    exact .refl _
  | some e =>
    by_cases hsame : fullRows chunkSize rows.length = fullRows chunkSize' rows.length
    · rw [(delivery_source_eq_iff ..).mpr hsame]
      exact .refl _
    · have he : F e := hearly e ⟨rfl, Nat.lt_of_le_of_ne (hle rfl) hsame⟩
      obtain ⟨more, hmore⟩ := Nat.exists_eq_add_of_le (hle rfl)
      rw [delivery_source_failure, delivery_source_failure, hmore, List.take_add, List.map_append, List.append_assoc]
      exact (BrokenOff.refl _).append (.failure he _ _)

/-! ### Programs over files -/

/-- A schema of tables in memory, or one that leaves its tables to readers; what a reader is set up with does not depend on
the size of chunks. -/
inductive Schema.Chunked : Schema → Prop
  | memory (s : MemorySchema) : Chunked s.toSchema
  | read {schema : Schema} (reading : Files → String → List Value → Except Error (List String × Production))
      (rows_eq : ∀ context method args, schema.rows context method args =
        (fun r => Reader.source r.1 context.chunkSize r.2) <$> reading context.files method args) : Chunked schema

/-- What a reader of a delimited file is set up with. -/
def Delimited.reading (files : Files) (method : String) (args : List Value) : Except Error (List String × Production) := do
  let o ← options method args
  let node ← openFile files o.path
  let names ← columnNames o node
  return (names, rows o node names.length)

/-- What a reader of a plain text file is set up with. -/
def LineFile.reading (files : Files) (method : String) (args : List Value) : Except Error (List String × Production) := do
  let p ← path method args
  let node ← (files.open? p).mapError (Error.fileUnopened p)
  return (columns.map Column.name, rows node)

theorem Delimited.chunked : Schema.Chunked schema := by
  refine .read reading fun context method args => ?_
  simp only [schema, reading, map_bind, map_pure]

theorem LineFile.chunked : Schema.Chunked schema := by
  refine .read reading fun context method args => ?_
  simp only [schema, reading, map_bind, map_pure]

/-- Opening the table brings the rows of a reader, in chunks of the size that is asked for. -/
def Schema.Reads (schema : Schema) (files : Files) (method : String) (args : List Value) (names : List String)
    (p : Production) : Prop :=
  ∀ chunkSize, schema.rows ⟨files, chunkSize⟩ method args = .ok (Reader.source names chunkSize p)

/-- Opening a table does not depend on the size of chunks, or it is left to a reader. -/
theorem Schema.Chunked.rows_cases {schema : Schema} (h : schema.Chunked) (files : Files) (method : String)
    (args : List Value) :
    (∃ r : Except Error RowSource, (∀ feed, r = .ok feed → feed.Quiet) ∧
      ∀ chunkSize, schema.rows ⟨files, chunkSize⟩ method args = r) ∨
    ∃ names p, schema.Reads files method args names p := by
  cases h with
  | memory s =>
    exact .inl ⟨s.toSchema.rows ⟨files, 0⟩ method args, fun _ hfeed => s.quiet_rows hfeed, fun _ => rfl⟩
  | read reading rows_eq =>
    cases hreading : reading files method args with
    | error e => exact .inl ⟨.error e, nofun, fun _ => by rw [rows_eq, hreading]; rfl⟩
    | ok r => exact .inr ⟨r.1, r.2, fun _ => by rw [rows_eq, hreading]; rfl⟩

theorem Environment.quiet_of_chunked {env : Environment} (henv : ∀ entry ∈ env.registry.schemas, entry.2.Chunked)
    (context : SourceContext) : env.Quiet context := by
  intro name schema hschema method args feed hfeed
  have hchunked := henv _ (Registry.mem_of_schema hschema)
  rcases hchunked.rows_cases context.files method args with ⟨r, hquiet, hrows⟩ | ⟨names, p, hreads⟩
  · exact hquiet feed ((hrows context.chunkSize).symm.trans hfeed)
  · cases (hreads context.chunkSize).symm.trans hfeed
    exact Reader.quiet_source _ _ _

namespace BoundProgram

variable {env : Environment} {xs : List Statement} {b : BoundProgram} {files : Files} {chunkSize chunkSize' : Nat}

/-- Some query of the program reads a table that a reader brings. -/
def Reads (b : BoundProgram) (files : Files) (p : Production) : Prop :=
  ∃ q ∈ b.queries, ∃ source ∈ q.sources, ∃ schema name method args names,
    source.origin = .schema schema name method args ∧ schema.Reads files method args names p

/-- A failure that comes earlier in chunks of one size than of the other. -/
def Early (b : BoundProgram) (files : Files) (chunkSize chunkSize' : Nat) (e : Error) : Prop :=
  ∃ p, b.Reads files p ∧ p.Early chunkSize chunkSize' e

/-- The readers of the program fail no later in chunks of one size than of the other. -/
def FailsSooner (b : BoundProgram) (files : Files) (chunkSize chunkSize' : Nat) : Prop :=
  ∀ p, b.Reads files p → p.failure.isSome →
    Reader.fullRows chunkSize p.rows.length ≤ Reader.fullRows chunkSize' p.rows.length

theorem failsSooner_one (b : BoundProgram) (files : Files) (chunkSize : Nat) : b.FailsSooner files chunkSize 1 := by
  intro p _ _
  rw [Reader.fullRows_one]
  exact Reader.fullRows_le _ _

theorem FailsSooner.breaksOff (h : b.FailsSooner files chunkSize chunkSize')
    (henv : ∀ entry ∈ env.registry.schemas, entry.2.Chunked) (hbind : bind env xs = .ok b) {q : BoundQuery}
    (hq : q ∈ b.queries) : q.BreaksOff (b.Early files chunkSize chunkSize') ⟨files, chunkSize⟩ ⟨files, chunkSize'⟩ := by
  intro source hsource tables
  obtain ⟨x, -, s, s', hquery⟩ := exists_of_forall₂ (bind_queriesBound hbind).queries.flip hq
  obtain ⟨⟨entries, hbound⟩, -⟩ := Bind.query_ok hquery
  have hknown := hbound.sources.known source hsource
  unfold BoundSource.Known at hknown
  unfold SourceOrigin.delivery
  cases horigin : source.origin with
  | table name => exact .refl BrokenOff.refl _
  | schema schema name method args =>
    rw [horigin] at hknown
    obtain ⟨key, hschema, -⟩ := hknown
    have hchunked := henv _ (Registry.mem_of_schema hschema)
    rcases hchunked.rows_cases files method args with ⟨r, -, hrows⟩ | ⟨names, p, hreads⟩
    · dsimp only
      rw [hrows, hrows]
      exact .refl BrokenOff.refl _
    · have hp : b.Reads files p := ⟨q, hq, source, hsource, schema, name, method, args, names, horigin, hreads⟩
      dsimp only
      rw [hreads, hreads]
      exact .ok (Reader.brokenOff_delivery names _ (h p hp) fun e he => ⟨p, hp, he⟩)

end BoundProgram

namespace Reader

/-- A reader of some rows that then fails, and a flag that stays down. In every order of steps the consumer answers the rows
of the full chunks in order, then the failure once, and then the end for ever; someone can go on, and the two parties can
make only so many steps before the failure is answered. No row is lost exactly if the size of chunks divides their number,
and in chunks of another size a cursor sees the same exactly if these leave as many rows in full chunks. A program over
files comes to the same as in chunks of a size in which none of its readers fails sooner, or else to the failure of a reader
that fails later there. -/
theorem failing_handover (rows : List (List Value)) (e : Error) (chunkSize : Nat) :
    (∀ queueDepth actors s,
      Trace ⟨⟨rows, some e⟩, chunkSize, queueDepth⟩ (Setup.start ⟨⟨rows, some e⟩, chunkSize, queueDepth⟩) actors s →
      s.cancelled = false →
      (∀ (n : Nat) (answer : Answer), s.answers[n]? = some answer →
        answer = ((rows.take (fullRows chunkSize rows.length)).map .ok ++ [.error e])[n]?) ∧
      (∃ actor s', actor.works = true ∧ Step ⟨⟨rows, some e⟩, chunkSize, queueDepth⟩ actor s s') ∧
      ∀ later s', Trace ⟨⟨rows, some e⟩, chunkSize, queueDepth⟩ s later s' → s'.cancelled = false →
        s.work + later.count .clock < later.countP Actor.works → some (.error e) ∈ s'.answers) ∧
    (rows.take (fullRows chunkSize rows.length) = rows ↔ max chunkSize 1 ∣ rows.length) ∧
    (∀ chunkSize' names columns, (source names chunkSize ⟨rows, some e⟩).delivery columns =
      (source names chunkSize' ⟨rows, some e⟩).delivery columns ↔
        fullRows chunkSize rows.length = fullRows chunkSize' rows.length) ∧
    ∀ (env : Environment) (files : Files) (xs : List Statement) (b : BoundProgram) (p : Program) (chunkSize' : Nat),
      (∀ entry ∈ env.registry.schemas, entry.2.Chunked) → bind env xs = .ok b → generate b = .ok p →
      b.FailsSooner files chunkSize chunkSize' →
      ∃ r r', p.Yields ⟨files, chunkSize⟩ r ∧ p.Yields ⟨files, chunkSize'⟩ r' ∧
        (r = r' ∨ ∃ e, b.Early files chunkSize chunkSize' e ∧ r = .error e) := by
  refine ⟨?_, take_fullRows_eq_iff chunkSize rows, ?_, ?_⟩
  · intro queueDepth actors s h hup
    refine ⟨?_, exists_step _ s, ?_⟩
    · intro n answer hanswer
      rw [h.answers_getElem? hup hanswer, Setup.messages, items_failure]
    · intro later s' hlater hup' hsteps
      apply (h.append hlater).failure_mem hup' rfl
      by_contra hdone
      have hwork := hlater.work hdone
      omega
  · intro chunkSize' names columns
    exact delivery_source_eq_iff names columns chunkSize chunkSize' rows e
  · intro env files xs b p chunkSize' henv hbind hgen hsooner
    exact sameUnless_yields (env.quiet_of_chunked henv _) (env.quiet_of_chunked henv _) hbind hgen
      fun q hq => hsooner.breaksOff henv hbind hq

/-- Three rows in chunks of two, of which the consumer gets two before the failure; and a file whose third line of data
is too wide, of which a query takes one row. -/
theorem failing_handover_three :
    let u : Setup := ⟨⟨[[.integer 1], [.integer 2], [.integer 3]], some .separatorEmpty⟩, 2, 1⟩
    let files : Files := ⟨[("f", [65, 10, 49, 10, 50, 10, 51, 44, 52, 10])]⟩
    let env : Environment := ⟨⟨[("csv", Delimited.schema)]⟩, files⟩
    (∃ actors s, Trace u u.start actors s ∧ s.cancelled = false ∧ s.answers.length = 4 ∧
      ∀ (n : Nat) (answer : Answer), s.answers[n]? = some answer →
        answer = [.ok [.integer 1], .ok [.integer 2], .error .separatorEmpty][n]?) ∧
    ∃ xs b p, parse "select A from #csv.file('f', ',', true, 0) t take 1" = .ok xs ∧ bind env xs = .ok b ∧
      generate b = .ok p ∧ ∃ r r', p.Yields ⟨files, 3⟩ r ∧ p.Yields ⟨files, 1⟩ r' ∧
        (r = r' ∨ ∃ e, b.Early files 3 1 e ∧ r = .error e) := by
  intro u files env
  have htrace : Trace u u.start _ _ :=
    Trace.nil.snoc .push |>.snoc .push |>.snoc (.send (by decide)) |>.snoc .push |>.snoc .look |>.snoc .receive
      |>.snoc .finish |>.snoc (.sendLast (by decide)) |>.snoc (.deliver _) |>.snoc (.deliver _) |>.snoc .look
      |>.snoc (.receiveFailure _) |>.snoc .leave |>.snoc .again
  have hvalue : ((parse "select A from #csv.file('f', ',', true, 0) t take 1").toOption >>= fun xs =>
      (bind env xs).toOption >>= fun b => (generate b).toOption.map fun _ => ()) = some () := by
    rw [parse, tokenize_ofList]
    decide +kernel
  obtain ⟨xs, hparse, hvalue⟩ := Option.bind_eq_some_iff.mp hvalue
  obtain ⟨b, hbind, hvalue⟩ := Option.bind_eq_some_iff.mp hvalue
  obtain ⟨p, hgen, -⟩ := Option.map_eq_some_iff.mp hvalue
  replace hbind := toOption_eq_some_iff.mp hbind
  replace hgen := toOption_eq_some_iff.mp hgen
  have henv : ∀ entry ∈ env.registry.schemas, entry.2.Chunked := List.forall_mem_singleton.mpr Delimited.chunked
  refine ⟨⟨_, _, htrace, rfl, rfl, ((failing_handover _ _ 2).1 1 _ _ htrace rfl).1⟩, ?_⟩
  exact ⟨xs, b, p, toOption_eq_some_iff.mp hparse, hbind, hgen,
    (failing_handover [] .separatorEmpty 3).2.2.2 env files xs b p 1 henv hbind hgen (b.failsSooner_one files 3)⟩

/-- One row in chunks of two never comes before the failure. So a query that takes one row of a file whose third line of
data is too wide has this row in chunks of one, and fails in chunks of three. -/
theorem unfinished_chunk_lost :
    let u : Setup := ⟨⟨[[.integer 1]], some .separatorEmpty⟩, 2, 1⟩
    let files : Files := ⟨[("f", [65, 10, 49, 10, 50, 10, 51, 44, 52, 10])]⟩
    let env : Environment := ⟨⟨[("csv", Delimited.schema)]⟩, files⟩
    (∃ actors s, Trace u u.start actors s ∧ s.cancelled = false ∧ s.answers = [some (.error .separatorEmpty), none]) ∧
    ∃ p r t r' e, compile env "select A from #csv.file('f', ',', true, 0) t take 1" = .ok p ∧
      p.run ⟨files, 1⟩ 0 false 100 = some r ∧ r.result = .ok t ∧ t.rows.toList = [[.text "1"]] ∧
      p.run ⟨files, 3⟩ 0 false 100 = some r' ∧ r'.result = .error e ∧
      e.message = "line 4 of 'f' has 2 fields, expected 1" := by
  intro u files env
  have htrace : Trace u u.start _ _ :=
    Trace.nil.snoc .push |>.snoc .finish |>.snoc (.sendLast (by decide)) |>.snoc .look |>.snoc (.receiveFailure _)
      |>.snoc .again
  have hvalue : ((compile env "select A from #csv.file('f', ',', true, 0) t take 1").toOption >>= fun p =>
      p.run ⟨files, 1⟩ 0 false 100 >>= fun r => r.result.toOption >>= fun t =>
        p.run ⟨files, 3⟩ 0 false 100 >>= fun r' => r'.error?.map fun e => (t.rows.toList, e.message)) =
      some ([[.text "1"]], "line 4 of 'f' has 2 fields, expected 1") := by
    rw [compile, parse, tokenize_ofList]
    decide +kernel
  obtain ⟨p, hcompile, hvalue⟩ := Option.bind_eq_some_iff.mp hvalue
  obtain ⟨r, hrun, hvalue⟩ := Option.bind_eq_some_iff.mp hvalue
  obtain ⟨t, ht, hvalue⟩ := Option.bind_eq_some_iff.mp hvalue
  obtain ⟨r', hrun', hvalue⟩ := Option.bind_eq_some_iff.mp hvalue
  obtain ⟨e, he, hvalue⟩ := Option.map_eq_some_iff.mp hvalue
  obtain ⟨hrows, hmessage⟩ := Prod.mk.inj hvalue
  exact ⟨⟨_, _, htrace, rfl, rfl⟩, p, r, t, r', e, toOption_eq_some_iff.mp hcompile, hrun, toOption_eq_some_iff.mp ht,
    hrows, hrun', RunResult.error?_eq_some_iff.mp he, hmessage⟩

end Reader

end TabularQuery
