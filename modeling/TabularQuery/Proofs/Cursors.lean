import TabularQuery.Machine.Step
import TabularQuery.Proofs.Action
import TabularQuery.Proofs.Enumeration
import TabularQuery.Source.Memory

/-!
Cursors as lists of rows still to come. A cursor over a row source holds what the source will
deliver, one over a table the rows that it has not read; opening fills a cursor, and moving on takes
the first row off. Sources that raise the stop flag themselves are left out.
-/

namespace TabularQuery

namespace RowSource

/-- The rows of a source under declared columns, failures in their places. -/
def delivery (columns : List Column) : RowSource → Delivery
  | [] => []
  | .row r :: rest => r.materialize columns :: delivery columns rest
  | .failure e :: rest => .error e :: delivery columns rest
  | .cancel :: rest => delivery columns rest
  | .checkpoint :: rest => delivery columns rest

/-- The source never raises the stop flag. -/
def Quiet (source : RowSource) : Prop := FeedEvent.cancel ∉ source

theorem Quiet.tail {event : FeedEvent} {rest : RowSource} (h : Quiet (event :: rest)) : rest.Quiet :=
  fun hmem => h (List.mem_cons_of_mem _ hmem)

theorem pull_quiet {source : RowSource} (h : source.Quiet) (columns : List Column) :
    (pull false source).cancelled = false ∧ (pull false source).rest.Quiet ∧
      source.delivery columns = match (pull false source).item with
        | none => []
        | some item => (item >>= SourceRow.materialize columns) ::
            (pull false source).rest.delivery columns := by
  induction source with
  | nil => exact ⟨rfl, h, rfl⟩
  | cons event rest ih =>
    cases event with
    | row r => exact ⟨rfl, h.tail, rfl⟩
    | failure e => exact ⟨rfl, h.tail, rfl⟩
    | cancel => exact absurd List.mem_cons_self h
    | checkpoint => exact ih h.tail

theorem pull_rest_of_none {source : RowSource} (h : (pull false source).item = none) :
    (pull false source).rest = [] ∨ ¬ source.Quiet := by
  induction source with
  | nil => exact .inl rfl
  | cons event rest ih =>
    cases event with
    | row r => cases h
    | failure e => cases h
    | cancel => exact .inr fun hq => hq List.mem_cons_self
    | checkpoint => exact (ih h).imp_right fun hnot hq => hnot hq.tail

end RowSource

theorem MemorySchema.quiet_rows {schema : MemorySchema} {context : SourceContext} {method : String}
    {args : List Value} {feed : RowSource} (h : schema.toSchema.rows context method args = .ok feed) :
    feed.Quiet := by
  cases htable : schema.table method with
  | error e => simp [toSchema, htable] at h
  | ok t =>
    simp only [toSchema, htable] at h
    cases h
    intro hmem
    obtain ⟨_, _, hrow⟩ := List.mem_map.mp hmem
    cases hrow

/-- The cursor has yet to bring this, where the tables of `T` are in their places. -/
def Cursor.Holds (T : Nat → Option Table) : Cursor → Delivery → Prop
  | .closed, _ => False
  | .source feed columns, rows => feed.Quiet ∧ rows = feed.delivery columns
  | .table number following, rows =>
    ∃ t, T number = some t ∧ rows = (t.rows.toList.drop following).map .ok

namespace Machine

variable {ctx : RunContext} {m : Machine} {T : Nat → Option Table} {c : Nat}

/-- The machine has the tables of `T`. -/
def HasTables (T : Nat → Option Table) (m : Machine) : Prop :=
  ∀ n t, T n = some t → m.tables[n]? = some (some t)

theorem cursor_apply {cur : Cursor} (h : m.cursors[c]? = some cur) :
    cursor (c : Int) m = .ok cur m := by
  simp [cursor, item?, h]

theorem table_apply {n : Nat} {t : Table} (h : m.tables[n]? = some (some t)) :
    table (n : Int) m = .ok t m := by
  simp [table, item?, h]

theorem advance_source {feed : RowSource} {columns : List Column}
    (hcursor : m.cursors[c]? = some (.source feed columns)) (hcancel : m.cancelled = false)
    (hquiet : feed.Quiet) :
    advance (c : Int) m =
      let pull := RowSource.pull false feed
      let m' := { m with cursors := m.cursors.set c (.source pull.rest columns) }
      match pull.item with
      | none => .ok none m'
      | some (.error e) => .error e m'
      | some (.ok row) => match row.materialize columns with
        | .ok values => .ok (some values) m'
        | .error e => .error e m' := by
  have hpull := (RowSource.pull_quiet hquiet columns).1
  simp only [advance, bind_apply, cursor_apply hcursor, get_apply, hcancel, setCursor, modify_apply,
    setItem, place?_natCast, hpull]
  cases (RowSource.pull false feed).item with
  | none => rw [← hcancel]; rfl
  | some item =>
    cases item with
    | error e => rw [← hcancel]; rfl
    | ok row =>
      simp only [map_apply, ofExcept_apply]
      cases row.materialize columns <;> rw [← hcancel]

theorem advance_table {number following : Nat} {t : Table}
    (hcursor : m.cursors[c]? = some (.table number following))
    (htable : m.tables[number]? = some (some t)) :
    advance (c : Int) m = match t.rows[following]? with
      | none => .ok none m
      | some row => .ok (some row)
          { m with cursors := m.cursors.set c (.table number (following + 1)) } := by
  simp only [advance, bind_apply, cursor_apply hcursor, table_apply htable]
  cases t.rows[following]? <;> simp [setCursor, setItem]

/-- Moving the cursor on takes the first row off what it holds. -/
def Advances (T : Nat → Option Table) (m : Machine) (c : Nat) : Delivery → Prop
  | [] => ∃ cur : Cursor, cur.Holds T [] ∧
      advance (c : Int) m = .ok none { m with cursors := m.cursors.set c cur }
  | .ok row :: rest => ∃ cur : Cursor, cur.Holds T rest ∧
      advance (c : Int) m = .ok (some row) { m with cursors := m.cursors.set c cur }
  | .error e :: _ => ∃ m', advance (c : Int) m = .error e m'

theorem advances {cur : Cursor} {rows : Delivery} (hcancel : m.cancelled = false)
    (htables : m.HasTables T) (hcursor : m.cursors[c]? = some cur) (hholds : cur.Holds T rows) :
    m.Advances T c rows := by
  cases cur with
  | closed => exact hholds.elim
  | source feed columns =>
    obtain ⟨hquiet, rfl⟩ := hholds
    obtain ⟨-, hrest, hrows⟩ := RowSource.pull_quiet hquiet columns
    have hadvance := advance_source hcursor hcancel hquiet
    cases hitem : (RowSource.pull false feed).item with
    | none =>
      simp only [hitem] at hrows hadvance
      rw [hrows]
      refine ⟨.source (RowSource.pull false feed).rest columns, ⟨hrest, ?_⟩, hadvance⟩
      rcases RowSource.pull_rest_of_none hitem with hnil | hnot
      · rw [hnil]
        rfl
      · exact absurd hquiet hnot
    | some item =>
      simp only [hitem] at hrows hadvance
      rw [hrows]
      cases item with
      | error e => exact ⟨_, hadvance⟩
      | ok row =>
        change m.Advances T c (row.materialize columns :: _)
        cases hvalues : row.materialize columns with
        | error e =>
          simp only [hvalues] at hadvance
          exact ⟨_, hadvance⟩
        | ok values =>
          simp only [hvalues] at hadvance
          exact ⟨.source (RowSource.pull false feed).rest columns, ⟨hrest, rfl⟩, hadvance⟩
  | table number following =>
    obtain ⟨t, ht, rfl⟩ := hholds
    have hadvance := advance_table hcursor (htables number t ht)
    cases hrow : t.rows[following]? with
    | none =>
      have hdrop : t.rows.toList.drop following = [] := by
        rw [List.drop_eq_nil_iff]
        simpa using hrow
      have hsame : m.cursors.set c (.table number following) = m.cursors := by
        obtain ⟨hlt, hget⟩ := List.getElem?_eq_some_iff.mp hcursor
        rw [← hget, List.set_getElem_self]
      rw [hrow] at hadvance
      rw [hdrop]
      refine ⟨.table number following, ⟨t, ht, by rw [hdrop]; rfl⟩, ?_⟩
      rw [hadvance, hsame]
    | some row =>
      have hdrop : t.rows.toList.drop following = row :: t.rows.toList.drop (following + 1) := by
        rw [← Array.getElem?_toList] at hrow
        obtain ⟨hlt, hget⟩ := List.getElem?_eq_some_iff.mp hrow
        rw [List.drop_eq_getElem_cons hlt, hget]
      rw [hrow] at hadvance
      rw [hdrop]
      exact ⟨.table number (following + 1), ⟨t, ht, rfl⟩, hadvance⟩

theorem exec_next (ctx : RunContext) {row : Option (List Value)} {m' : Machine}
    (hcancel : m.cancelled = false) (h : advance (c : Int) m = .ok row m') (target : Int) :
    exec ctx { opcode := .next, p1 := c, p2 := target } m =
      .ok (.jumpIf row.isNone) { m' with rows := m'.rows.set c row } := by
  simp [exec, checkCancelled, hcancel, h, setRow, setItem]

theorem exec_next_error (ctx : RunContext) {e : Error} {m' : Machine}
    (hcancel : m.cancelled = false) (h : advance (c : Int) m = .error e m') (target : Int) :
    exec ctx { opcode := .next, p1 := c, p2 := target } m = .error e m' := by
  simp [exec, checkCancelled, hcancel, h]

/-- The instruction fills a cursor with what a source brings, or fails as opening does. -/
def Opens (ctx : RunContext) (T : Nat → Option Table) (op : Instruction) (c : Nat)
    (opened : Except Error Delivery) : Prop :=
  ∀ m : Machine, c < m.cursors.length → m.HasTables T → match opened with
    | .ok rows => ∃ cur : Cursor, cur.Holds T rows ∧ exec ctx op m = .ok .next
        { m with cursors := m.cursors.set c cur, rows := m.rows.set c none }
    | .error e => ∃ m', exec ctx op m = .error e m'

theorem openCursor_apply (hc : c < m.cursors.length) (cur : Cursor) :
    openCursor (c : Int) cur m =
      .ok ⟨⟩ { m with cursors := m.cursors.set c cur, rows := m.rows.set c none } := by
  have hcursor : m.cursors[c]? = some m.cursors[c] := List.getElem?_eq_getElem hc
  simp only [openCursor, bind_apply, cursor_apply hcursor, setCursor, setRow, modify_apply, setItem,
    place?_natCast]

theorem opens_source {k : Nat} {b : SourceBinding} (hb : ctx.program.sources[k]? = some b)
    (hquiet : ∀ feed, b.schema.rows ctx.sources b.method b.args = .ok feed → feed.Quiet)
    (comment : Option String) :
    Opens ctx T { opcode := .openSource, p1 := c, p2 := k, comment } c
      (RowSource.delivery b.columns <$> b.schema.rows ctx.sources b.method b.args) := by
  intro m hc _
  have hitem : item? ctx.program.sources (k : Int) = some b := by simp [item?, hb]
  cases hrows : b.schema.rows ctx.sources b.method b.args with
  | ok feed =>
    refine ⟨.source feed b.columns, ⟨hquiet feed hrows, rfl⟩, ?_⟩
    simp only [exec, hitem, hrows, bind_apply, ofExcept_apply, openCursor_apply hc, pure_apply]
  | error e =>
    refine ⟨m, ?_⟩
    simp only [exec, hitem, hrows, bind_apply, ofExcept_apply]

theorem opens_table {n : Nat} {t : Table} (ht : T n = some t) (comment : Option String) :
    Opens ctx T { opcode := .openTable, p1 := c, p2 := n, comment } c
      (.ok (t.rows.toList.map .ok)) := by
  intro m hc htables
  refine ⟨.table n 0, ⟨t, ht, rfl⟩, ?_⟩
  simp only [exec, bind_apply, table_apply (htables n t ht), Int.toNat_natCast, openCursor_apply hc,
    pure_apply]

end Machine

end TabularQuery
