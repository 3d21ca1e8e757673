import Mathlib.Data.List.Induction
import TabularQuery.Proofs.Indexes
import TabularQuery.Proofs.MemoryTables

/-!
Tables under calls in any order. Columns, indexes and rows may be added one after the other as the caller likes;
a call that fails leaves the table as it was. Names of columns stay distinct, rows stay where they were put, and a row is
added only if it fits. But columns can be set late: a table without columns takes empty rows, and takes its columns
afterwards all the same, so that those rows do not fit them.
-/

namespace TabularQuery

theorem Column.find?_eq_some_iff {columns : List Column} (hnames : (columns.map Column.name).Nodup) {name : String}
    {i : Nat} {c : Column} : find? columns name = some (i, c) ↔ columns[i]? = some c ∧ c.name = name := by
  suffices h : ∀ first, (columns.zipIdx first).findSome? (fun x => if x.1.name = name then some (x.2, x.1) else none) =
      some (i, c) ↔ first ≤ i ∧ columns[i - first]? = some c ∧ c.name = name by
    simpa [find?] using h 0
  induction columns with
  | nil => simp
  | cons d columns ih =>
    intro first
    rw [List.map_cons, List.nodup_cons] at hnames
    rw [List.zipIdx_cons, List.findSome?_cons]
    by_cases hd : d.name = name
    · simp only [if_pos hd]
      by_cases hi : i = first
      · subst hi
        simp only [Option.some.injEq, Prod.mk.injEq, true_and, Nat.le_refl, Nat.sub_self, List.getElem?_cons_zero]
        constructor
        · intro hc
          exact ⟨hc, hc ▸ hd⟩
        · exact fun h => h.1
      · constructor
        · intro h
          cases h
          exact absurd rfl hi
        · rintro ⟨hle, hc, hname⟩
          -- a later column of the same name
          have hpos : i - first = (i - first - 1) + 1 := by omega
          rw [hpos, List.getElem?_cons_succ] at hc
          have hmem := List.mem_map_of_mem (f := Column.name) (List.mem_of_getElem? hc)
          rw [hname, ← hd] at hmem
          exact absurd hmem hnames.1
    · simp only [if_neg hd]
      rw [ih hnames.2 (first + 1)]
      constructor
      · rintro ⟨hle, hc, hname⟩
        have hpos : i - first = (i - (first + 1)) + 1 := by omega
        refine ⟨by omega, ?_, hname⟩
        rw [hpos, List.getElem?_cons_succ]
        exact hc
      · rintro ⟨hle, hc, hname⟩
        by_cases hi : i = first
        · rw [hi, Nat.sub_self, List.getElem?_cons_zero] at hc
          cases hc
          exact absurd hname hd
        · have hpos : i - first = (i - (first + 1)) + 1 := by omega
          rw [hpos, List.getElem?_cons_succ] at hc
          exact ⟨by omega, hc, hname⟩

namespace Table

/-! ### Calls -/

/-- A call that may change a table. -/
inductive Call where
  | addColumns (columns : List Column)
  | addIndex (columns : List Nat)
  | add (row : List Value)

def Call.apply (t : Table) : Call → Except Error Table
  | .addColumns columns => t.addColumns columns
  | .addIndex columns => t.addIndex columns
  | .add row => t.add row

/-- The table after a call; one that fails leaves it as it was. -/
def after (t : Table) (call : Call) : Table :=
  match call.apply t with
  | .ok t' => t'
  | .error _ => t

def afterAll (t : Table) (calls : List Call) : Table := calls.foldl after t

/-- A new table, without columns or with some. -/
inductive Initial : Table → Prop
  | empty (name : String) : Initial (Table.empty name)
  | withColumns {name : String} {columns : List Column} {t : Table} (h : Table.withColumns name columns = .ok t) :
      Initial t

/-- At some time in the calls, with the table and the call that it gets then. -/
def Sometime (start : Table) (calls : List Call) (P : Table → Call → Prop) : Prop :=
  ∃ before call later, calls = before ++ call :: later ∧ P (start.afterAll before) call

/-- What a call can do. -/
inductive Makes (t : Table) : Call → Table → Prop
  | refused {call : Call} {e : Error} (h : call.apply t = .error e) : Makes t call t
  | columns {columns : List Column} (hnone : t.columns = []) (hnames : (columns.map Column.name).Nodup) :
      Makes t (.addColumns columns) { t with columns }
  | index {columns : List Nat} (hlt : ∀ c ∈ columns, c < t.columns.length) :
      Makes t (.addIndex columns) (t.withIndex columns)
  | row {row : List Value} (hfits : RowFits t.columns row) : Makes t (.add row) (t.push row)

variable {t t' start : Table} {call : Call} {calls : List Call} {row : List Value}

theorem addColumns_eq_ok_iff {columns : List Column} :
    t.addColumns columns = .ok t' ↔ t.columns = [] ∧ (columns.map Column.name).Nodup ∧ t' = { t with columns } := by
  unfold addColumns
  by_cases hnone : t.columns = []
  · simp only [hnone, List.isEmpty_nil, Bool.not_true, Bool.false_eq_true, if_false, true_and]
    cases hrepeated : Column.repeatedName? (columns.map Column.name) with
    | none =>
      simp only [Column.repeatedName?_eq_none_iff.mp hrepeated, true_and, Except.ok.injEq]
      exact eq_comm
    | some name =>
      have hnot : ¬ (columns.map Column.name).Nodup := by
        rw [← Column.repeatedName?_eq_none_iff, hrepeated]
        exact nofun
      simp [hnot]
  · simp [hnone]

theorem makes_after (t : Table) (call : Call) : Makes t call (t.after call) := by
  unfold after
  cases happly : call.apply t with
  | error e => exact .refused happly
  | ok t' =>
    cases call with
    | addColumns columns =>
      obtain ⟨hnone, hnames, rfl⟩ := addColumns_eq_ok_iff.mp happly
      exact .columns hnone hnames
    | addIndex columns =>
      obtain ⟨hlt, rfl⟩ := addIndex_eq_ok happly
      exact .index hlt
    | add row =>
      obtain ⟨hfits, rfl⟩ := add_eq_ok happly
      exact .row hfits

theorem afterAll_concat (start : Table) (calls : List Call) (call : Call) :
    start.afterAll (calls ++ [call]) = (start.afterAll calls).after call := by
  simp [afterAll]

theorem sometime_nil (start : Table) (P : Table → Call → Prop) : ¬ start.Sometime [] P := by
  rintro ⟨before, call, later, hcalls, -⟩
  simp at hcalls

theorem sometime_concat {P : Table → Call → Prop} :
    start.Sometime (calls ++ [call]) P ↔ start.Sometime calls P ∨ P (start.afterAll calls) call := by
  constructor
  · rintro ⟨before, call', later, hcalls, hP⟩
    induction later using List.reverseRecOn with
    | nil =>
      obtain ⟨rfl, hcall⟩ := List.append_inj' hcalls rfl
      cases hcall
      exact .inr hP
    | append_singleton later last =>
      rw [← List.cons_append, ← List.append_assoc] at hcalls
      obtain ⟨rfl, -⟩ := List.append_inj' hcalls rfl
      exact .inl ⟨before, call', later, rfl, hP⟩
  · rintro (⟨before, call', later, rfl, hP⟩ | hP)
    · exact ⟨before, call', later ++ [call], by simp, hP⟩
    · exact ⟨calls, call, [], rfl, hP⟩

/-! ### What calls keep -/

/-- What every table has: distinct names, rows that fit unless they are empty, and indexes of its rows on columns that
are there. -/
structure Kept (t : Table) : Prop where
  names : (t.columns.map Column.name).Nodup
  rows : ∀ row ∈ t.rows.toList, row = [] ∨ RowFits t.columns row
  indexes : t.Current
  within : ∀ i ∈ t.indexes, ∀ c ∈ i.columns, c < t.columns.length

theorem mem_indexes_withIndex {columns : List Nat} {i : Index} (h : i ∈ (t.withIndex columns).indexes) :
    i ∈ t.indexes ∨ i.columns = columns := by
  unfold withIndex at h
  split at h
  · exact .inl h
  · rcases List.mem_append.mp h with hold | hnew
    · exact .inl hold
    · rw [List.mem_singleton.mp hnew]
      exact .inr (columns_indexOf t columns)

theorem rowFits_nil_iff : RowFits [] row ↔ row = [] := by
  simp [RowFits]

theorem Kept.makes (h : t.Kept) (hmakes : Makes t call t') : t'.Kept := by
  cases hmakes with
  | refused => exact h
  | columns hnone hnames =>
    refine ⟨hnames, fun row hrow => ?_, h.indexes, fun i hi c hc => ?_⟩
    · -- the rows of a table without columns are empty
      rcases h.rows row hrow with hempty | hfits
      · exact .inl hempty
      · rw [hnone, rowFits_nil_iff] at hfits
        exact .inl hfits
    · have hlt := h.within i hi c hc
      rw [hnone] at hlt
      exact absurd hlt (Nat.not_lt_zero c)
  | @index columns hlt =>
    refine ⟨?_, ?_, h.indexes.withIndex columns, fun i hi c hc => ?_⟩
    · rw [columns_withIndex]
      exact h.names
    · rw [columns_withIndex, rows_withIndex]
      exact h.rows
    · rw [columns_withIndex]
      rcases mem_indexes_withIndex hi with hold | hnew
      · exact h.within i hold c hc
      · exact hlt c (hnew ▸ hc)
  | @row row hfits =>
    refine ⟨h.names, fun other hother => ?_, h.indexes.push row, fun i hi c hc => ?_⟩
    · have hmem : other ∈ t.rows.toList ∨ other = row := by simpa [push] using hother
      rcases hmem with hold | rfl
      · exact h.rows other hold
      · exact .inr hfits
    · obtain ⟨i', hi', rfl⟩ := List.mem_map.mp hi
      rw [Index.columns_insert] at hc
      exact h.within i' hi' c hc

theorem Initial.kept (h : start.Initial) : start.Kept := by
  cases h with
  | empty name => exact ⟨List.nodup_nil, nofun, nofun, nofun⟩
  | withColumns h =>
    obtain ⟨-, hnames, rfl⟩ := addColumns_eq_ok_iff.mp h
    exact ⟨hnames, nofun, nofun, nofun⟩

theorem Initial.rows_eq (h : start.Initial) : start.rows = #[] := by
  cases h with
  | empty name => rfl
  | withColumns h => rw [withColumns_eq_ok h]

theorem Initial.indexes_eq (h : start.Initial) : start.indexes = [] := by
  cases h with
  | empty name => rfl
  | withColumns h => rw [withColumns_eq_ok h]

theorem Initial.kept_afterAll (h : start.Initial) (calls : List Call) : (start.afterAll calls).Kept := by
  induction calls using List.reverseRecOn with
  | nil => exact h.kept
  | append_singleton calls call ih =>
    rw [afterAll_concat]
    exact ih.makes (makes_after _ call)

/-! ### Late columns -/

/-- The call sets columns on a table that has rows. -/
def Late (t : Table) (call : Call) : Prop :=
  ∃ columns, call = .addColumns columns ∧ columns ≠ [] ∧ t.rows ≠ #[] ∧ ∃ t', t.addColumns columns = .ok t'

/-- The table has columns and an empty row. -/
def HasBlank (t : Table) : Prop := t.columns ≠ [] ∧ [] ∈ t.rows.toList

/-- Rows that do not fit are the empty ones. -/
theorem Kept.rows_fit_iff (h : t.Kept) : (∀ row ∈ t.rows.toList, RowFits t.columns row) ↔ ¬ t.HasBlank := by
  constructor
  · rintro hall ⟨hcolumns, hblank⟩
    have hfits := hall [] hblank
    exact hcolumns (by simpa [RowFits] using hfits)
  · intro hblank row hrow
    rcases h.rows row hrow with rfl | hfits
    · by_cases hcolumns : t.columns = []
      · rw [hcolumns, rowFits_nil_iff]
      · exact absurd ⟨hcolumns, hrow⟩ hblank
    · exact hfits

/-- An empty row is left behind exactly by columns that come late. -/
theorem Kept.hasBlank_iff (h : t.Kept) (hmakes : Makes t call t') : t'.HasBlank ↔ t.HasBlank ∨ t.Late call := by
  cases hmakes with
  | @refused call e happly =>
    have hlate : ¬ t.Late call := by
      rintro ⟨columns, rfl, -, -, t', ht'⟩
      rw [Call.apply, ht'] at happly
      cases happly
    simp [hlate]
  | @columns columns hnone hnames =>
    have hrows : [] ∈ t.rows.toList ↔ t.rows ≠ #[] := by
      constructor
      · intro hmem hempty
        rw [hempty] at hmem
        cases hmem
      · intro hne
        obtain ⟨row, hrow⟩ := List.exists_mem_of_ne_nil t.rows.toList (by simpa using hne)
        rcases h.rows row hrow with rfl | hfits
        · exact hrow
        · rw [hnone, rowFits_nil_iff] at hfits
          exact hfits ▸ hrow
    have haccepted : ∃ t', t.addColumns columns = .ok t' := ⟨_, addColumns_eq_ok_iff.mpr ⟨hnone, hnames, rfl⟩⟩
    simp [HasBlank, Late, hnone, hrows, haccepted]
  | index =>
    have hlate (columns : List Nat) : ¬ t.Late (.addIndex columns) := nofun
    simp [HasBlank, hlate]
  | @row row hfits =>
    have hlate : ¬ t.Late (.add row) := nofun
    simp only [HasBlank, push, Array.toList_push, List.mem_append, List.mem_singleton, hlate, or_false]
    refine and_congr_right fun hcolumns => or_iff_left ?_
    intro hempty
    rw [← hempty, RowFits] at hfits
    exact hcolumns (by simpa using hfits.symm)

theorem Initial.hasBlank_iff (h : start.Initial) (calls : List Call) :
    (start.afterAll calls).HasBlank ↔ start.Sometime calls Late := by
  induction calls using List.reverseRecOn with
  | nil =>
    have hempty : ¬ start.HasBlank := by simp [HasBlank, h.rows_eq]
    exact iff_of_false hempty (sometime_nil start Late)
  | append_singleton calls call ih =>
    rw [afterAll_concat, sometime_concat, ← ih]
    exact (h.kept_afterAll calls).hasBlank_iff (makes_after _ call)

/-! ### Positions -/

/-- The call adds a row that is then the one at the position. -/
def AddsAt (position : Nat) (row : List Value) (t : Table) (call : Call) : Prop :=
  call = .add row ∧ t.rows.size = position ∧ ∃ t', t.add row = .ok t'

theorem getElem?_rows_iff (hmakes : Makes t call t') {position : Nat} :
    t'.rows[position]? = some row ↔ t.rows[position]? = some row ∨ AddsAt position row t call := by
  cases hmakes with
  | @refused call e happly =>
    have hnot : ¬ AddsAt position row t call := by
      rintro ⟨rfl, -, t', ht'⟩
      rw [Call.apply, ht'] at happly
      cases happly
    simp [hnot]
  | columns => simp [AddsAt]
  | index => simp [AddsAt]
  | @row added hfits =>
    have haccepted : ∃ t', t.add added = .ok t' := ⟨_, add_of_fits hfits⟩
    simp only [push, AddsAt, Array.getElem?_push, Call.add.injEq]
    by_cases hposition : position = t.rows.size
    · subst hposition
      simp only [if_pos, Option.some.injEq, true_and, Array.getElem?_size, reduceCtorEq, false_or]
      constructor
      · rintro rfl
        exact ⟨rfl, haccepted⟩
      · exact fun h => h.1
    · simp [hposition, Ne.symm hposition]

/-- The row at a position is the one that was added when there were so many rows. -/
theorem Initial.getElem?_rows_iff (h : start.Initial) (calls : List Call) {position : Nat} :
    (start.afterAll calls).rows[position]? = some row ↔ start.Sometime calls (AddsAt position row) := by
  induction calls using List.reverseRecOn with
  | nil =>
    have hempty : ¬ start.rows[position]? = some row := by simp [h.rows_eq]
    exact iff_of_false hempty (sometime_nil start _)
  | append_singleton calls call ih =>
    rw [afterAll_concat, sometime_concat, ← ih]
    exact Table.getElem?_rows_iff (makes_after _ call)

/-! ### Shape -/

end Table

end TabularQuery
