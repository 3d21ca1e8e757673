import Mathlib.Data.List.Nodup
import TabularQuery.Proofs.Cursors
import TabularQuery.Proofs.Typing

/-!
Tables in memory give back what was put into them. Rows that fit their columns are stored as they are, a
table is found under its name in either case, and reading it under its own columns brings its rows.
-/

namespace TabularQuery

/-! ### Names -/

theorem lookup_replaced {α : Type} (entries : List (String × α)) (key : String) (a : α) (k : String) :
    (entries.filter (fun (k, _) => k ≠ key) ++ [(key, a)]).lookup k = if k = key then some a else entries.lookup k := by
  induction entries with
  | nil =>
    by_cases h : k = key
    · simp [h]
    · simp [List.lookup_cons, beq_eq_false_iff_ne.mpr h, h]
  | cons e entries ih =>
    obtain ⟨k', b⟩ := e
    by_cases hkey : k' = key
    · rw [List.filter_cons_of_neg (by simpa using hkey), ih, List.lookup_cons]
      by_cases h : k = key
      · rw [if_pos h, if_pos h]
      · have hother : (k == k') = false := beq_eq_false_iff_ne.mpr (hkey ▸ h)
        rw [if_neg h, if_neg h, hother]
    · rw [List.filter_cons_of_pos (by simpa using hkey), List.cons_append, List.lookup_cons, ih, List.lookup_cons]
      by_cases h : k = k'
      · have hother : ¬ k = key := h ▸ hkey
        rw [if_neg hother, if_neg hother, h, beq_self_eq_true]
      · rw [beq_eq_false_iff_ne.mpr h]

theorem Registry.schema_register (r : Registry) (name : String) (s : Schema) (other : String) :
    (r.register name s).schema other = if Text.lower other = Text.lower name then .ok s else r.schema other := by
  simp only [schema, register, lookup_replaced]
  by_cases h : Text.lower other = Text.lower name
  · rw [if_pos h, if_pos h]
  · rw [if_neg h, if_neg h]

theorem Column.repeatedName?_eq_none_iff {names : List String} : repeatedName? names = none ↔ names.Nodup := by
  suffices h : ∀ seen, repeatedName?.go seen names = none ↔ names.Nodup ∧ List.Disjoint seen names by
    simpa [repeatedName?] using h []
  induction names with
  | nil => simp [repeatedName?.go]
  | cons name names ih =>
    intro seen
    rw [repeatedName?.go, List.nodup_cons, List.disjoint_cons_right]
    split
    · rename_i hseen
      simp [hseen]
    · rename_i hseen
      rw [ih, List.disjoint_cons_left]
      tauto

/-! ### Rows -/

namespace SourceRow

variable {names : List String}

theorem lastPosition?_of_nodup (hnames : names.Nodup) {i : Nat} {name : String} (h : names[i]? = some name) :
    lastPosition? names name = some i := by
  have hmem : (name, i) ∈ names.zipIdx.reverse := by
    rw [List.mem_reverse, List.mk_mem_zipIdx_iff_getElem?]
    exact h
  unfold lastPosition?
  cases hfound : List.find? _ names.zipIdx.reverse with
  | none => simpa using List.find?_eq_none.mp hfound _ hmem
  | some found =>
    obtain ⟨n, j⟩ := found
    obtain rfl : n = name := by simpa using List.find?_some hfound
    have hj := List.mem_of_find?_eq_some hfound
    rw [List.mem_reverse, List.mk_mem_zipIdx_iff_getElem?] at hj
    have hlt := (List.getElem?_eq_some_iff.mp h).1
    obtain rfl : i = j := (List.getElem?_inj hlt hnames).mp (h.trans hj.symm)
    rfl

theorem materialize_positional {columns : List Column} {row : List Value} (hnames : (columns.map Column.name).Nodup)
    (hfits : RowFits columns row) : materialize columns (.positional (columns.map Column.name) row) = .ok row := by
  have hlength : columns.length = row.length := by simpa using (congrArg List.length hfits).symm
  refine mapM_eq_ok_iff.mpr (List.forall₂_iff_get.mpr ⟨hlength, fun i hi hi' => ?_⟩)
  have hname : (columns.map Column.name)[i]? = some (columns.get ⟨i, hi⟩).name := by simp [hi]
  have hvalue : row[i]? = some (row.get ⟨i, hi'⟩) := by simp [hi']
  have htype : (columns.get ⟨i, hi⟩).type = (row.get ⟨i, hi'⟩).type := by
    have hi'' := congrArg (·[i]?) hfits
    simpa [hi, hi'] using hi''.symm
  rw [get?, lastPosition?_of_nodup hnames hname, Option.bind_some, hvalue, htype]
  dsimp only
  rw [Value.coerce_type]

end SourceRow

namespace MemorySchema

variable {columns : List Column} {rows : List (List Value)}

theorem delivery_positional (hnames : (columns.map Column.name).Nodup) (hfits : ∀ row ∈ rows, RowFits columns row) :
    RowSource.delivery columns (rows.map fun row => .row (.positional (columns.map Column.name) row)) = rows.map .ok := by
  induction rows with
  | nil => rfl
  | cons row rows ih =>
    obtain ⟨hrow, hrows⟩ := List.forall_mem_cons.mp hfits
    rw [List.map_cons, RowSource.delivery, SourceRow.materialize_positional hnames hrow, ih hrows, List.map_cons]

theorem fitValues_of_fits (table : String) (number : Nat) {row : List Value} (h : RowFits columns row) :
    fitValues table number columns row = .ok row := by
  induction columns generalizing row with
  | nil =>
    obtain rfl : row = [] := by simpa [RowFits] using h
    rfl
  | cons c columns ih =>
    cases row with
    | nil => cases h
    | cons v row =>
      obtain ⟨hv, hrow⟩ := List.cons.inj h
      rw [fitValues, ← hv, Value.coerce_type]
      dsimp only
      rw [ih hrow]
      rfl

theorem fitRows_of_fits (table : String) (number : Nat) (h : ∀ row ∈ rows, RowFits columns row) :
    fitRows table columns number rows = .ok rows := by
  induction rows generalizing number with
  | nil => rfl
  | cons row rows ih =>
    obtain ⟨hrow, hrows⟩ := List.forall_mem_cons.mp h
    have hlength : row.length = columns.length := by simpa using congrArg List.length hrow
    rw [fitRows, if_neg (not_not.mpr hlength), fitValues_of_fits table number hrow, ih _ hrows]
    rfl

theorem withTable_of_fits (s : MemorySchema) (name : String) (h : ∀ row ∈ rows, RowFits columns row) :
    ∃ s', s.withTable name columns rows = .ok s' ∧ s'.catalog = s.catalog ∧ ∀ key, s'.tables.lookup key =
      if key = Text.lower name then some ⟨columns, rows⟩ else s.tables.lookup key := by
  rw [withTable, fitRows_of_fits name 0 h]
  exact ⟨_, rfl, rfl, fun key => lookup_replaced ..⟩

variable {s : MemorySchema} {name : String}

theorem columns_of_lookup (h : s.tables.lookup (Text.lower name) = some ⟨columns, rows⟩) (files : Files)
    (args : List Value) : s.toSchema.columns files name args = .ok columns := by
  simp [toSchema, table, h]

theorem delivery_of_lookup (h : s.tables.lookup (Text.lower name) = some ⟨columns, rows⟩)
    (hnames : (columns.map Column.name).Nodup) (hfits : ∀ row ∈ rows, RowFits columns row) (context : SourceContext)
    (args : List Value) : RowSource.delivery columns <$> s.toSchema.rows context name args = .ok (rows.map .ok) := by
  rw [← delivery_positional hnames hfits]
  simp [toSchema, table, h]

end MemorySchema

end TabularQuery
