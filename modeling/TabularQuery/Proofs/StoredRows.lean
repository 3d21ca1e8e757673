import TabularQuery.Proofs.MemoryTables
import TabularQuery.Proofs.Outcomes

/-!
Tables in memory, from the values that are handed in to those that a query returns. A table keeps its rows as they
were given, integers in real columns widened; of several tables of one name the last counts. A query finds the first
column of a name, and a row is read at the last one: these agree where the names of the columns are distinct. Names
that are repeated are not refused, and then a column shows what was given for the last one of its name.
-/

namespace TabularQuery

/-! ### What is stored -/

theorem Value.coerce_eq_ok_iff {ty : ColumnType} {v w : Value} :
    v.coerce ty = .ok w ↔ ty.accepts v.type = true ∧ w = v.widen ty := by
  cases v <;> cases ty <;> simp [coerce, ColumnType.accepts, widen, type, eq_comm]

/-- The values of a row, each widened to the type of its column. -/
def widened (columns : List Column) (row : List Value) : List Value :=
  List.zipWith (fun c v => v.widen c.type) columns row

theorem getElem?_widened {columns : List Column} {row : List Value} {k : Nat} {c : Column} (h : columns[k]? = some c) :
    (widened columns row)[k]? = row[k]?.map (Value.widen c.type) := by
  rw [widened, List.getElem?_zipWith, h]
  cases row[k]? <;> rfl

/-- A table as it is handed in. -/
structure Registration where
  name : String
  columns : List Column
  rows : List (List Value)
  deriving DecidableEq, Repr

namespace Registration

/-- The table as it is kept. -/
def table (r : Registration) : MemoryTable := ⟨r.columns, r.rows.map (widened r.columns)⟩

/-- Every row has a value for each column, which is of its type or can be widened to it. -/
def Fits (r : Registration) : Prop :=
  ∀ row ∈ r.rows, row.length = r.columns.length ∧ RowFits r.columns (widened r.columns row)

/-- The last of the tables with a name, which is the same in either case. -/
def last? (given : List Registration) (name : String) : Option Registration :=
  given.reverse.find? fun r => Text.lower r.name = Text.lower name

theorem last?_cons (r : Registration) (given : List Registration) (name : String) :
    last? (r :: given) name = (last? given name).or (if Text.lower r.name = Text.lower name then some r else none) := by
  rw [last?, List.reverse_cons, List.find?_append, List.find?_singleton]
  simp [last?]

end Registration

namespace MemorySchema

variable {s s' : MemorySchema} {columns : List Column} {rows : List (List Value)}

theorem fitValues_ok {table : String} {number : Nat} {row stored : List Value} (hlength : row.length = columns.length)
    (h : fitValues table number columns row = .ok stored) : stored = widened columns row ∧ RowFits columns stored := by
  induction columns generalizing row stored with
  | nil =>
    obtain rfl := List.length_eq_zero_iff.mp hlength
    cases h
    exact ⟨rfl, rfl⟩
  | cons c columns ih =>
    obtain ⟨v, row, rfl⟩ := List.exists_cons_of_length_pos (by rw [hlength]; exact Nat.succ_pos _)
    rw [fitValues] at h
    split at h
    · next w hw =>
      obtain ⟨rest, hrest, rfl⟩ := except_map_eq_ok.mp h
      obtain ⟨rfl, hfits⟩ := ih (Nat.succ.inj hlength) hrest
      obtain ⟨-, rfl⟩ := Value.coerce_eq_ok_iff.mp hw
      refine ⟨rfl, ?_⟩
      have htype : (v.widen c.type).type = c.type := Value.type_coerce hw
      exact congrArg₂ List.cons htype hfits
    · cases h

theorem fitRows_ok {table : String} {number : Nat} {stored : List (List Value)}
    (h : fitRows table columns number rows = .ok stored) : stored = rows.map (widened columns) ∧
      ∀ row ∈ rows, row.length = columns.length ∧ RowFits columns (widened columns row) := by
  induction rows generalizing number stored with
  | nil =>
    cases h
    exact ⟨rfl, nofun⟩
  | cons row rows ih =>
    rw [fitRows] at h
    by_cases hlength : row.length = columns.length
    · rw [if_neg (not_not.mpr hlength)] at h
      obtain ⟨first, hfirst, h⟩ := except_bind_eq_ok.mp h
      obtain ⟨rest, hrest, h⟩ := except_bind_eq_ok.mp h
      cases h
      obtain ⟨rfl, hfits⟩ := fitValues_ok hlength hfirst
      obtain ⟨rfl, hall⟩ := ih hrest
      exact ⟨rfl, List.forall_mem_cons.mpr ⟨⟨hlength, hfits⟩, hall⟩⟩
    · rw [if_pos hlength] at h
      cases h

/-- The schema with more tables, added one after the other. -/
def withTables (s : MemorySchema) (given : List Registration) : Except Error MemorySchema :=
  given.foldlM (fun s r => s.withTable r.name r.columns r.rows) s

theorem withTable_ok {r : Registration} (h : s.withTable r.name r.columns r.rows = .ok s') : r.Fits ∧
    ∀ key, s'.tables.lookup key = if key = Text.lower r.name then some r.table else s.tables.lookup key := by
  obtain ⟨stored, hstored, h⟩ := except_bind_eq_ok.mp h
  cases h
  obtain ⟨rfl, hfits⟩ := fitRows_ok hstored
  exact ⟨hfits, fun key => lookup_replaced ..⟩

/-- Under a name stands the last table that was added under it. -/
theorem withTables_ok {given : List Registration} (h : s.withTables given = .ok s') : (∀ r ∈ given, r.Fits) ∧
    ∀ name, s'.tables.lookup (Text.lower name) =
      ((Registration.last? given name).map Registration.table).or (s.tables.lookup (Text.lower name)) := by
  induction given generalizing s with
  | nil =>
    cases h
    exact ⟨nofun, fun name => rfl⟩
  | cons r given ih =>
    obtain ⟨s₁, hfirst, hrest⟩ := except_bind_eq_ok.mp h
    obtain ⟨hfits, hlookup⟩ := withTable_ok hfirst
    obtain ⟨hall, hlater⟩ := ih hrest
    refine ⟨List.forall_mem_cons.mpr ⟨hfits, hall⟩, fun name => ?_⟩
    rw [hlater, hlookup, Registration.last?_cons]
    by_cases hname : Text.lower r.name = Text.lower name
    · cases Registration.last? given name <;> simp [hname]
    · cases Registration.last? given name <;> simp [hname, Ne.symm hname]

end MemorySchema

/-! ### What is read -/

/-- At this position stands a column after which its name does not come again. -/
def Column.LastAt (columns : List Column) (k : Nat) (d : Column) : Prop :=
  ∃ before after, columns = before ++ d :: after ∧ before.length = k ∧ ∀ c ∈ after, c.name ≠ d.name

namespace Column.LastAt

variable {columns : List Column} {k : Nat} {d : Column}

theorem getElem? (h : LastAt columns k d) : columns[k]? = some d := by
  obtain ⟨before, after, rfl, rfl, -⟩ := h
  simp

theorem lastPosition? (h : LastAt columns k d) : SourceRow.lastPosition? (columns.map Column.name) d.name = some k := by
  obtain ⟨before, after, rfl, rfl, hafter⟩ := h
  have hnone : ((after.map Column.name).zipIdx (before.length + 1)).reverse.find? (fun x => decide (x.1 = d.name)) = none := by
    rw [List.find?_eq_none]
    intro x hx
    obtain ⟨c, hc, hname⟩ := List.mem_map.mp (List.fst_mem_of_mem_zipIdx (List.mem_reverse.mp hx))
    simpa [← hname] using hafter c hc
  rw [SourceRow.lastPosition?, List.map_append, List.map_cons, List.zipIdx_append, List.zipIdx_cons, List.reverse_append,
    List.reverse_cons, List.append_assoc, List.find?_append]
  simp [hnone]

end Column.LastAt

theorem Column.exists_lastAt {columns : List Column} {c : Column} (h : c ∈ columns) :
    ∃ k d, LastAt columns k d ∧ d.name = c.name := by
  induction columns generalizing c with
  | nil => cases h
  | cons x columns ih =>
    by_cases hlater : ∃ y ∈ columns, y.name = c.name
    · obtain ⟨y, hy, hname⟩ := hlater
      obtain ⟨k, d, ⟨before, after, rfl, rfl, hafter⟩, hd⟩ := ih hy
      exact ⟨_, d, ⟨x :: before, after, rfl, rfl, hafter⟩, hd.trans hname⟩
    · have hnot : ∀ y ∈ columns, y.name ≠ c.name := fun y hy hname => hlater ⟨y, hy, hname⟩
      obtain rfl : c = x := by
        rcases List.mem_cons.mp h with hc | hc
        · exact hc
        · exact absurd rfl (hnot c hc)
      exact ⟨0, c, ⟨[], columns, rfl, rfl, hnot⟩, rfl⟩

/-- What comes of a row as it was given when it is read under its columns: each shows the value of the last column of
its name, and there is a failure only if the type of that one does not suit. -/
structure ReadBack (columns : List Column) (row : List Value) (read : Except Error (List Value)) : Prop where
  values : ∀ seen, read = .ok seen → seen.length = columns.length ∧
    ∀ (j k : Nat) (c d : Column), columns[j]? = some c → Column.LastAt columns k d → d.name = c.name →
      seen[j]? = row[k]?.map fun v => (v.widen d.type).widen c.type
  failure : ∀ e, read = .error e → ∃ (c d : Column) (k : Nat), c ∈ columns ∧ Column.LastAt columns k d ∧
    d.name = c.name ∧ c.type.accepts d.type = false

theorem exists_forall₂ {α β : Type} {R : α → β → Prop} {xs : List α} (h : ∀ x ∈ xs, ∃ y, R x y) :
    ∃ ys, List.Forall₂ R xs ys := by
  induction xs with
  | nil => exact ⟨[], .nil⟩
  | cons x xs ih =>
    obtain ⟨⟨y, hy⟩, hxs⟩ := List.forall_mem_cons.mp h
    obtain ⟨ys, hys⟩ := ih hxs
    exact ⟨y :: ys, .cons hy hys⟩

namespace SourceRow

variable {columns : List Column} {row : List Value}

theorem read_lastAt {k : Nat} {c d : Column} (hlength : row.length = columns.length)
    (hfits : RowFits columns (widened columns row)) (hlast : Column.LastAt columns k d) (hname : d.name = c.name) :
    ∃ v w, row[k]? = some v ∧ w = v.widen d.type ∧ w.type = d.type ∧
      get? c.name (.positional (columns.map Column.name) (widened columns row)) = some w := by
  obtain ⟨hk, -⟩ := List.getElem?_eq_some_iff.mp hlast.getElem?
  have hv : row[k]? = some (row.get ⟨k, by omega⟩) := List.getElem?_eq_getElem (by omega)
  have hw : (widened columns row)[k]? = some ((row.get ⟨k, by omega⟩).widen d.type) := by
    rw [getElem?_widened hlast.getElem?, hv]
    rfl
  have htype := congrArg (·[k]?) hfits
  simp only [List.getElem?_map, hw, hlast.getElem?, Option.map_some, Option.some.injEq] at htype
  refine ⟨_, _, hv, rfl, htype, ?_⟩
  rw [get?, ← hname, hlast.lastPosition?]
  exact hw

theorem materialize_eq_ok_iff {r : SourceRow} {seen : List Value} : materialize columns r = .ok seen ↔
    List.Forall₂ (fun c u => ∃ v, r.get? c.name = some v ∧ c.type.accepts v.type = true ∧ u = v.widen c.type)
      columns seen := by
  rw [materialize, mapM_eq_ok_iff]
  constructor
  · refine List.Forall₂.imp fun c u h => ?_
    split at h
    · cases h
    · next v hv =>
      split at h
      · next w hw =>
        cases h
        exact ⟨v, hv, Value.coerce_eq_ok_iff.mp hw⟩
      · cases h
  · refine List.Forall₂.imp fun c u h => ?_
    obtain ⟨v, hv, hsuits⟩ := h
    simp only [hv, Value.coerce_eq_ok_iff.mpr hsuits]

theorem readBack_materialize (hlength : row.length = columns.length) (hfits : RowFits columns (widened columns row)) :
    ReadBack columns row (materialize columns (.positional (columns.map Column.name) (widened columns row))) where
  values seen h := by
    obtain ⟨hlength', hall⟩ := List.forall₂_iff_get.mp (materialize_eq_ok_iff.mp h)
    refine ⟨hlength'.symm, fun j k c d hj hlast hname => ?_⟩
    obtain ⟨v, w, hv, rfl, -, hget⟩ := read_lastAt hlength hfits hlast hname
    obtain ⟨hlt, rfl⟩ := List.getElem?_eq_some_iff.mp hj
    have hlt' : j < seen.length := hlength' ▸ hlt
    obtain ⟨w, hw, -, hseen⟩ := hall j hlt hlt'
    cases hget.symm.trans hw
    rw [List.getElem?_eq_getElem hlt', hv, Option.map_some]
    exact congrArg some hseen
  failure e h := by
    by_contra hnone
    have hall : ∀ c ∈ columns, ∃ u v, get? c.name (.positional (columns.map Column.name) (widened columns row)) = some v ∧
        c.type.accepts v.type = true ∧ u = v.widen c.type := by
      intro c hc
      obtain ⟨k, d, hlast, hname⟩ := Column.exists_lastAt hc
      obtain ⟨v, w, -, -, htype, hget⟩ := read_lastAt hlength hfits hlast hname
      refine ⟨_, w, hget, ?_, rfl⟩
      rw [htype, ← Bool.not_eq_false]
      exact fun hsuits => hnone ⟨c, d, k, hc, hlast, hname, hsuits⟩
    obtain ⟨seen, hseen⟩ := exists_forall₂ hall
    rw [materialize_eq_ok_iff.mpr hseen] at h
    cases h

end SourceRow

theorem Registration.readBack_delivery {r : Registration} (h : r.Fits) :
    List.Forall₂ (ReadBack r.columns) r.rows (RowSource.delivery r.columns
      (r.table.rows.map fun row => .row (.positional (r.columns.map Column.name) row))) := by
  obtain ⟨name, columns, rows⟩ := r
  induction rows with
  | nil => exact .nil
  | cons row rows ih =>
    obtain ⟨hrow, hrows⟩ := List.forall_mem_cons.mp h
    exact .cons (SourceRow.readBack_materialize hrow.1 hrow.2) (ih hrows)

/-! ### What is selected -/

/-- A column, and the name that it has in a result. -/
structure Pick where
  column : String
  output : String

/-- The query that selects columns of one table. -/
def Query.picking (call : SchemaCall) (picks : List Pick) : Query :=
  ⟨picks.map fun p => .field (.column none p.column) (some p.output), .schema call none, none, none, none, none⟩

/-- The columns that are picked, each with its position. -/
abbrev Picked (columns : List Column) (picks : List Pick) (found : List (Nat × Column)) : Prop :=
  List.Forall₂ (fun p f => Column.find? columns p.column = some f) picks found

/-- The picked columns as fields that read a cursor. -/
def Pick.fields (cursor : Nat) (picks : List Pick) (found : List (Nat × Column)) : List BoundField :=
  List.zipWith (fun p f => ⟨p.output, .column cursor f.1 f.2.name f.2.type⟩) picks found

/-- The same query after binding. -/
def BoundQuery.picking (schema : Schema) (call : SchemaCall) (columns : List Column) (picks : List Pick)
    (found : List (Nat × Column)) : BoundQuery where
  name := "Query1"
  sources := [⟨0, "t0", .schema schema (Text.lower call.schema) call.method call.args, columns, none⟩]
  filter := none
  grouping := none
  fields := Pick.fields 0 picks found
  skip := none
  take := none
  slots := []

section Binding

variable {env : Environment} {s : BindState} {e : SourceEntry} {picks : List Pick} {found : List (Nat × Column)}

theorem Bind.column_single {name : String} {f : Nat × Column} (hentries : s.scopes.entries = [e])
    (hfound : Column.find? e.columns name = some f) :
    Bind.column none name s = .ok (.column e.cursor f.1 f.2.name f.2.type) s := by
  simp [Bind.column, Bind.entries, hentries, SourceList.columns, SourceEntry.column?, hfound, SourceEntry.columnExpr]

theorem Bind.selectItems_picks (hentries : s.scopes.entries = [e]) (hpicked : Picked e.columns picks found)
    (entries : SourceList) :
    Bind.selectItems entries (picks.map fun p => .field (.column none p.column) (some p.output)) s =
      .ok (Pick.fields e.cursor picks found) s := by
  induction hpicked with
  | nil => rfl
  | cons hfound _ ih =>
    have hcolumn := Bind.column_single hentries hfound
    rw [List.map_cons, Bind.selectItems]
    simp [Bind.selectItem, Bind.expr, hcolumn, ih, Pick.fields]

theorem Pick.names_fields {columns : List Column} (cursor : Nat) (hpicked : Picked columns picks found) :
    (Pick.fields cursor picks found).map BoundField.name = picks.map Pick.output := by
  induction hpicked with
  | nil => rfl
  | cons _ _ ih => exact congrArg _ ih

theorem Bind.query_picking {call : SchemaCall} {schema : Schema} {columns : List Column}
    (htable : env.table call = .ok (schema, columns)) (hpicked : Picked columns picks found)
    (hnames : (picks.map Pick.output).Nodup) :
    ∃ s', Bind.query env (.picking call picks) { BindState.init with scopes := ScopeStack.push [] .table } =
      .ok (.picking schema call columns picks found) s' := by
  let entry : SourceEntry := ⟨"t0", 0, columns, some (Text.lower call.schema, schema)⟩
  let sources := (BoundQuery.picking schema call columns picks found).sources
  let s₂ : BindState := ⟨(ScopeStack.push [] .table).push .query, 1, 1, 0, 1, [Text.lower call.schema]⟩
  let scopes₃ : ScopeStack := [⟨.query, [("Query1", .sources [entry])], []⟩, ⟨.table, [], []⟩]
  let s₃ : BindState := { s₂ with scopes := scopes₃ }
  have hfrom : Bind.fromSource env (.schema call none) ⟨(ScopeStack.push [] .table).push .query, 1, 0, 0, 0, []⟩ =
      .ok ([entry], sources) s₂ :=
    bind_eq_ok.mpr ⟨(schema, columns), _, ofExcept_eq_ok.mpr ⟨htable, rfl⟩, rfl⟩
  have hfields : Bind.fields "Query1" [entry] (Query.picking call picks).fields s₃ = .ok (Pick.fields 0 picks found) s₃ := by
    refine bind_eq_ok.mpr ⟨_, _, Bind.selectItems_picks (e := entry) rfl hpicked _, ?_⟩
    rw [Pick.names_fields 0 hpicked, Column.repeatedName?_eq_none_iff.mpr hnames]
    rfl
  exact ⟨_, Bind.query_eq_ok_iff.mpr ⟨([entry], sources), s₂, scopes₃, none, s₃, none, s₃, _, s₃, [], hfrom, rfl, rfl, rfl,
    hfields, rfl, rfl⟩⟩

end Binding

section Rows

variable {scene : Scene} {cursor : Nat} {row values : List Value} {found : List (Nat × Column)}

theorem TypedExpr.actAll_columns (hrow : scene.row? cursor = some row)
    (hvalues : List.Forall₂ (fun f v => row[f.1]? = some v ∧ v.type = f.2.type) found values) (frame : Frame) :
    actAll scene (found.map fun f => .column cursor f.1 f.2.name f.2.type) frame = .ok () (frame.pushAll values) := by
  induction hvalues generalizing frame with
  | nil => rfl
  | @cons f v _ _ hv _ ih =>
    have hcolumn : scene.column cursor f.1 = .ok v := by simp only [Scene.column, hrow, hv.1]
    rw [List.map_cons, actAll]
    exact bind_eq_ok.mpr ⟨(), _, bind_eq_ok.mpr ⟨v, frame, ofExcept_eq_ok.mpr ⟨hcolumn, rfl⟩, rfl⟩, ih _⟩

theorem Reader.values_columns (hrow : scene.row? cursor = some row)
    (hvalues : List.Forall₂ (fun f v => row[f.1]? = some v ∧ v.type = f.2.type) found values) :
    popped.values scene (found.map fun f => .column cursor f.1 f.2.name f.2.type) = .ok values := by
  have htypes : (found.map fun f => TypedExpr.column cursor f.1 f.2.name f.2.type).map TypedExpr.type =
      values.map Value.type := by
    induction hvalues with
    | nil => rfl
    | cons hv _ ih => exact congrArg₂ List.cons hv.2.symm ih
  have hpushed := TypedExpr.actAll_columns hrow hvalues (.init 0)
  have hpopped : Frame.popValues (values.map Value.type) ((Frame.init 0).pushAll values) = .ok values (.init 0) := by
    rw [Frame.popValues_pushAll (ColumnType.acceptsAll_self _), Value.zipWith_widen_types]
  simp only [popped, Frame.value, Frame.outcome, htypes, bind_apply, hpushed, hpopped]
  rfl

/-- The fields of the query in a scene. -/
def BoundQuery.rowIn (q : BoundQuery) (event : Except Error Scene) : Except Error (List Value) :=
  event >>= fun scene => Reader.popped.values scene (q.fields.map BoundField.expr)

/-- Without groups, and with nothing to skip or to take, the fields are written in each scene. -/
theorem BoundQuery.rows_flat {q : BoundQuery} (hgrouping : q.grouping = none) (hskip : q.skip = none) (htake : q.take = none)
    (context : SourceContext) (tables : NamedRows) : q.rows context tables =
      (Reader.popped.visits q.filter (q.deliveries context tables) .empty).mapM q.rowIn := by
  have hwritten : ∀ (events : List (Except Error Scene)) (t : Table), Reader.popped.written q events t =
      (fun rows => rows.foldl Table.push t) <$> events.mapM q.rowIn := by
    intro events
    unfold Reader.written
    rw [hskip, htake]
    induction events with
    | nil => exact fun t => rfl
    | cons event events ih =>
      intro t
      rw [List.mapM_cons]
      cases event with
      | error e => rfl
      | ok scene =>
        have hrow : q.rowIn (.ok scene) = Reader.popped.values scene (q.fields.map BoundField.expr) := rfl
        rw [consume, Reader.emit, hrow]
        cases Reader.popped.values scene (q.fields.map BoundField.expr) with
        | error e => rfl
        | ok row =>
          refine Eq.trans (ih (t.push row)) ?_
          cases events.mapM q.rowIn <;> rfl
  rw [rows, Reader.output, hgrouping]
  simp only [hwritten, Functor.map_map, Table.rows_foldl_push]
  exact id_map _

theorem Reader.visits_single (r : Reader) {source : BoundSource} (hon : source.on = none) (rows : List (List Value))
    (scene : Scene) : r.visits none [(source, .ok (rows.map .ok))] scene =
      (rows.map fun row => scene.put source.cursor row).map .ok := by
  rw [visits, eachRow_ok, hon, List.map_map, List.map_eq_flatMap]
  rfl

end Rows

section Yields

variable {env : Environment} {context : SourceContext} {call : SchemaCall} {schema : Schema} {columns : List Column}
variable {picks : List Pick} {found : List (Nat × Column)} {seen : List (List Value)}

theorem Pick.exists_values {row : List Value} (hpicked : Picked columns picks found) (hfits : RowFits columns row) :
    ∃ values, List.Forall₂ (fun f v => row[f.1]? = some v ∧ v.type = f.2.type) found values := by
  refine exists_forall₂ fun f hf => ?_
  obtain ⟨p, -, hfound⟩ := exists_of_forall₂ hpicked.flip hf
  have htypes := congrArg (·[f.1]?) hfits
  simp only [List.getElem?_map, Column.find?_eq_some hfound, Option.map_some, Option.map_eq_some_iff] at htypes
  exact htypes

theorem Pick.exprs_fields (cursor : Nat) (hpicked : Picked columns picks found) :
    (Pick.fields cursor picks found).map BoundField.expr =
      found.map fun f => .column cursor f.1 f.2.name f.2.type := by
  induction hpicked with
  | nil => rfl
  | cons _ _ ih => exact congrArg _ ih

theorem Pick.columns_fields (cursor : Nat) (picks : List Pick) (found : List (Nat × Column)) :
    (Pick.fields cursor picks found).map BoundField.column = List.zipWith (fun p f => ⟨p.output, f.2.type⟩) picks found :=
  List.map_zipWith ..

theorem BoundQuery.rows_picking {rows : List (List Value)} (hpicked : Picked columns picks found)
    (hdelivery : RowSource.delivery columns <$> schema.rows context call.method call.args = .ok (seen.map .ok))
    (hrows : List.Forall₂ (fun row out => List.Forall₂ (fun f v => row[f.1]? = some v ∧ v.type = f.2.type) found out)
      seen rows) : (picking schema call columns picks found).rows context [] = .ok rows := by
  have hvisits : Reader.popped.visits (picking schema call columns picks found).filter
      ((picking schema call columns picks found).deliveries context []) .empty =
        (seen.map fun row => Scene.empty.put 0 row).map .ok := by
    rw [deliveries, picking, List.map_singleton, SourceOrigin.delivery, hdelivery, Reader.visits_single _ rfl]
  rw [rows_flat rfl rfl rfl, hvisits, mapM_eq_ok_iff, List.forall₂_map_left_iff, List.forall₂_map_left_iff]
  refine hrows.imp fun row out h => ?_
  have hvalues : Reader.popped.values (Scene.empty.put 0 row) _ = .ok out := Reader.values_columns (Scene.put_same ..) h
  rwa [← Pick.exprs_fields 0 hpicked] at hvalues

/-- A query that selects columns of a table returns what stands at their positions in the rows that are delivered. -/
theorem Environment.yields_picking (henv : env.Quiet context) (htable : env.table call = .ok (schema, columns))
    (hdelivery : RowSource.delivery columns <$> schema.rows context call.method call.args = .ok (seen.map .ok))
    (hpicked : Picked columns picks found) (hnames : (picks.map Pick.output).Nodup) :
    ∃ rows, env.Yields context [.query [] (.query (.picking call picks))]
        (.ok (List.zipWith (fun p f => ⟨p.output, f.2.type⟩) picks found, rows)) ∧
      List.Forall₂ (fun row out => List.Forall₂ (fun f v => row[f.1]? = some v) found out) seen rows := by
  obtain ⟨feed, hfeed, hseen⟩ := except_map_eq_ok.mp hdelivery
  have hfits : ∀ row ∈ seen, RowFits columns row := by
    intro row hrow
    have hdelivered : .ok row ∈ feed.delivery columns := hseen ▸ List.mem_map_of_mem hrow
    exact RowSource.fits_of_delivery hdelivered
  obtain ⟨rows, hrows⟩ := exists_forall₂ fun row hrow => Pick.exists_values hpicked (hfits row hrow)
  refine ⟨rows, ?_, hrows.imp fun row out h => h.imp fun f v hv => hv.1⟩
  obtain ⟨s', hbound⟩ := Bind.query_picking htable hpicked hnames
  have hresult : BoundStatement.rows context (.query [] (.query (.picking schema call columns picks found))) = .ok rows :=
    BoundQuery.rows_picking hpicked hdelivery hrows
  refine (Environment.yields_statement_iff henv).mpr ⟨_, _, Bind.statement_query_eq_ok_iff.mpr
    ⟨[], _, _, s', rfl, bind_eq_ok.mpr ⟨_, s', hbound, rfl⟩, rfl, rfl⟩, ?_⟩
  rw [hresult, ← Pick.columns_fields 0]
  rfl

end Yields

/-! ### Tables in memory -/

/-- Wherever the schema is found under some name, a query that selects columns of a table returns what stands at the
positions of these columns in the given rows. -/
def MemorySchema.Returns (m : MemorySchema) (context : SourceContext) (method : String) (args : List Value)
    (columns : List Column) (seen : List (List Value)) : Prop :=
  ∀ (env : Environment) (schema : String) (picks : List Pick) (found : List (Nat × Column)), env.Quiet context →
    env.registry.schema schema = .ok m.toSchema → Picked columns picks found → (picks.map Pick.output).Nodup →
    ∃ rows, env.Yields context [.query [] (.query (.picking ⟨schema, method, args⟩ picks))]
        (.ok (List.zipWith (fun p f => ⟨p.output, f.2.type⟩) picks found, rows)) ∧
      List.Forall₂ (fun row out => List.Forall₂ (fun f v => row[f.1]? = some v) found out) seen rows

/-- An environment with one schema, whose tables are in memory, and without files. -/
def Environment.ofMemory (schema : String) (m : MemorySchema) : Environment :=
  ⟨Registry.empty.register schema m.toSchema, .empty⟩

theorem Environment.schema_ofMemory (schema : String) (m : MemorySchema) :
    (ofMemory schema m).registry.schema schema = .ok m.toSchema := by
  rw [ofMemory, Registry.schema_register, if_pos rfl]

theorem Environment.quiet_ofMemory (schema : String) (m : MemorySchema) (context : SourceContext) :
    (ofMemory schema m).Quiet context :=
  quiet_of_memory _ m _ context

theorem eq_of_selected {found : List (Nat × Column)} {seen rows rows' : List (List Value)}
    (h : List.Forall₂ (fun row out => List.Forall₂ (fun f v => row[f.1]? = some v) found out) seen rows)
    (h' : List.Forall₂ (fun row out => List.Forall₂ (fun f v => row[f.1]? = some v) found out) seen rows') :
    rows = rows' := by
  refine List.right_unique_forall₂' (fun row out out' hout hout' => ?_) h h'
  exact List.right_unique_forall₂' (fun f v v' hv hv' => Option.some.inj (hv.symm.trans hv')) hout hout'

section Stored

variable {m : MemorySchema} {name method : String} {given : List Registration} {r : Registration}

theorem MemorySchema.returns_of_delivery {columns : List Column} {rows seen : List (List Value)} {context : SourceContext}
    {args : List Value} (h : m.tables.lookup (Text.lower method) = some ⟨columns, rows⟩)
    (hdelivery : RowSource.delivery columns <$> m.toSchema.rows context method args = .ok (seen.map .ok)) :
    m.Returns context method args columns seen := by
  intro env schema picks found henv hschema hpicked hnames
  have htable : env.table ⟨schema, method, args⟩ = .ok (m.toSchema, columns) := by
    refine except_bind_eq_ok.mpr ⟨m.toSchema, hschema, ?_⟩
    rw [m.columns_of_lookup h]
    rfl
  exact Environment.yields_picking henv htable hdelivery hpicked hnames

/-- Of the tables that were added under a name the last is read, each of its rows under the columns that it was given.
Where the names of the columns are distinct, every value is read as it was given, or widened, and a query returns it;
otherwise a column shows what was given for the last one of its name, and so does a query, which selects the first. -/
theorem stored_tables_read_back (hgiven : (MemorySchema.empty name).withTables given = .ok m)
    (hlast : Registration.last? given method = some r) (context : SourceContext) (args : List Value) :
    ∃ delivered, m.toSchema.columns context.files method args = .ok r.columns ∧
      RowSource.delivery r.columns <$> m.toSchema.rows context method args = .ok delivered ∧
      List.Forall₂ (ReadBack r.columns) r.rows delivered ∧
      (∀ seen, delivered = seen.map .ok → m.Returns context method args r.columns seen) ∧
      ((r.columns.map Column.name).Nodup → delivered = (r.rows.map (widened r.columns)).map .ok ∧
        m.Returns context method args r.columns (r.rows.map (widened r.columns))) := by
  obtain ⟨hall, hlookup⟩ := MemorySchema.withTables_ok hgiven
  have hfits : r.Fits := hall r (List.mem_reverse.mp (List.mem_of_find?_eq_some hlast))
  have hstored : m.tables.lookup (Text.lower method) = some r.table := by
    rw [hlookup, hlast]
    rfl
  have hdelivery : RowSource.delivery r.columns <$> m.toSchema.rows context method args =
      .ok (RowSource.delivery r.columns
        (r.table.rows.map fun row => .row (.positional (r.columns.map Column.name) row))) := by
    simp [MemorySchema.toSchema, MemorySchema.table, hstored, Registration.table]
  refine ⟨_, m.columns_of_lookup hstored _ args, hdelivery, Registration.readBack_delivery hfits, ?_, ?_⟩
  · intro seen hseen
    exact MemorySchema.returns_of_delivery hstored (hseen ▸ hdelivery)
  · intro hnames
    have hrows : ∀ row ∈ r.table.rows, RowFits r.columns row := List.forall_mem_map.mpr fun row hrow => (hfits row hrow).2
    have hwidened := MemorySchema.delivery_positional hnames hrows
    exact ⟨hwidened, MemorySchema.returns_of_delivery hstored (hwidened ▸ hdelivery)⟩

/-- The table that was added last is read, though its name is spelled differently; integers are given for a real
column, and the columns are selected in another order. -/
theorem stored_tables_read_back_replaced :
    let columns : List Column := [⟨"a", .real⟩, ⟨"b", .text⟩]
    let given : List Registration := [⟨"t", [⟨"n", .integer⟩], [[.integer 7]]⟩, ⟨"u", [⟨"n", .integer⟩], []⟩,
      ⟨"T", columns, [[.integer 1, .text "x"], [.integer 2, .text "y"]]⟩]
    let picks : List Pick := [⟨"b", "second"⟩, ⟨"a", "first"⟩]
    ∃ m, (MemorySchema.empty "m").withTables given = .ok m ∧
      (Environment.ofMemory "m" m).Yields ⟨.empty, 1⟩ [.query [] (.query (.picking ⟨"m", "t", []⟩ picks))]
        (.ok ([⟨"second", .text⟩, ⟨"first", .real⟩],
          [[.text "x", .real (.ofInt64 1)], [.text "y", .real (.ofInt64 2)]])) := by
  intro columns given picks
  have hok : ((MemorySchema.empty "m").withTables given).isOk = true := by decide +kernel
  obtain ⟨m, hm⟩ := exists_of_isOk hok
  have hlast : Registration.last? given "t" = some ⟨"T", columns, [[.integer 1, .text "x"], [.integer 2, .text "y"]]⟩ := by
    decide +kernel
  obtain ⟨_, -, -, -, -, hdistinct⟩ := stored_tables_read_back hm hlast ⟨.empty, 1⟩ []
  obtain ⟨-, hreturns⟩ := hdistinct (by decide)
  have hpicked : Picked columns picks [(1, ⟨"b", .text⟩), (0, ⟨"a", .real⟩)] := .cons rfl (.cons rfl .nil)
  obtain ⟨rows, hyields, hrows⟩ := hreturns (.ofMemory "m" m) "m" picks _
    (Environment.quiet_ofMemory "m" m _) (Environment.schema_ofMemory "m" m) hpicked (by decide)
  obtain rfl := eq_of_selected hrows (.cons (.cons rfl (.cons rfl .nil)) (.cons (.cons rfl (.cons rfl .nil)) .nil))
  exact ⟨m, hm, hyields⟩

/-- The first of two columns of one name shows the value that was given for the second, in the table and in a query
that finds the first. -/
theorem repeated_column_shows_last :
    let columns : List Column := [⟨"a", .integer⟩, ⟨"a", .integer⟩]
    let context : SourceContext := ⟨.empty, 1⟩
    let select : Statement := .query [] (.query (.picking ⟨"m", "t", []⟩ [⟨"a", "a"⟩]))
    ∃ m, (MemorySchema.empty "m").withTables [⟨"t", columns, [[.integer 1, .integer 2]]⟩] = .ok m ∧
      Column.find? columns "a" = some (0, ⟨"a", .integer⟩) ∧
      RowSource.delivery columns <$> m.toSchema.rows context "t" [] = .ok [.ok [.integer 2, .integer 2]] ∧
      (Environment.ofMemory "m" m).Yields context [select] (.ok ([⟨"a", .integer⟩], [[.integer 2]])) ∧
      ¬ (Environment.ofMemory "m" m).Yields context [select] (.ok ([⟨"a", .integer⟩], [[.integer 1]])) := by
  intro columns context select
  let given : List Registration := [⟨"t", columns, [[.integer 1, .integer 2]]⟩]
  have hok : ((MemorySchema.empty "m").withTables given).isOk = true := by decide +kernel
  obtain ⟨m, hm⟩ := exists_of_isOk hok
  have hlast : Registration.last? given "t" = some ⟨"t", columns, [[.integer 1, .integer 2]]⟩ := by decide +kernel
  have hstored : m.tables.lookup (Text.lower "t") = some ⟨columns, [[.integer 1, .integer 2]]⟩ := by
    rw [(MemorySchema.withTables_ok hm).2, hlast]
    rfl
  have hdelivery : RowSource.delivery columns <$> m.toSchema.rows context "t" [] = .ok [.ok [.integer 2, .integer 2]] := by
    simp only [MemorySchema.toSchema, MemorySchema.table, hstored]
    rfl
  have hreturns : m.Returns context "t" [] columns [[.integer 2, .integer 2]] :=
    MemorySchema.returns_of_delivery hstored hdelivery
  obtain ⟨rows, hyields, hrows⟩ := hreturns (.ofMemory "m" m) "m" [⟨"a", "a"⟩] [(0, ⟨"a", .integer⟩)]
    (Environment.quiet_ofMemory "m" m context) (Environment.schema_ofMemory "m" m) (.cons rfl .nil) (by decide)
  obtain rfl := eq_of_selected hrows (.cons (.cons rfl .nil) .nil)
  refine ⟨m, hm, rfl, hdelivery, hyields, fun hother => ?_⟩
  have hquiet := Environment.quiet_ofMemory "m" m context
  have hsame := ((Environment.yields_ok_iff hquiet).mp hyields).symm.trans ((Environment.yields_ok_iff hquiet).mp hother)
  exact absurd hsame (by decide)

end Stored

end TabularQuery
