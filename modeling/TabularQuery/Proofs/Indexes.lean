import TabularQuery.Proofs.Enumeration

/-!
Indexes and the rows behind them. An index that saw every row in its place finds, under a key, exactly
the positions that a scan of the table finds; adding rows and indexes keeps it so. `Table.Fits` puts this
together with the fit of rows to columns.
-/

namespace TabularQuery

/-- The row has a key on the columns, and it is this one. -/
def Key.isOf (key : Key) (columns : List Nat) (row : List Value) : Bool :=
  (Key.ofRow? columns row).any fun k => k.same key

theorem Key.same_iff {a b : Key} : a.same b = true ↔ a.form = b.form := decide_eq_true_iff

theorem Key.same_congr {a b : Key} (h : a.same b = true) (c : Key) : a.same c = b.same c := by
  unfold same
  rw [same_iff.mp h]

theorem Key.exists_ofRow {columns : List Nat} {row : List Value} (h : ∀ c ∈ columns, c < row.length) :
    ∃ key, Key.ofRow? columns row = some key := by
  suffices hvalues : ∃ values, (columns.mapM fun c => row[c]?) = some values by
    obtain ⟨values, hvalues⟩ := hvalues
    exact ⟨⟨values, columns⟩, by rw [Key.ofRow?, hvalues, Option.map_some]⟩
  induction columns with
  | nil => exact ⟨[], rfl⟩
  | cons c columns ih =>
    obtain ⟨hc, hcolumns⟩ := List.forall_mem_cons.mp h
    obtain ⟨values, hvalues⟩ := ih hcolumns
    refine ⟨row[c] :: values, ?_⟩
    rw [List.mapM_cons, hvalues, List.getElem?_eq_getElem hc]
    rfl

/-- The first item of every key, in the order of the list. -/
def Key.firstOfEach (key : α → Key) : List α → List α
  | [] => []
  | x :: xs => x :: (firstOfEach key xs).filter fun y => !(key x).same (key y)

section FirstOfEach

variable {α : Type} {key : α → Key}

theorem Key.firstOfEach_subset (key : α → Key) (xs : List α) : firstOfEach key xs ⊆ xs := by
  induction xs with
  | nil => exact List.Subset.refl []
  | cons x xs ih => exact List.cons_subset_cons x fun y hy => ih (List.mem_of_mem_filter hy)

theorem Key.pairwise_firstOfEach (key : α → Key) (xs : List α) :
    (firstOfEach key xs).Pairwise fun x y => (key x).same (key y) = false := by
  induction xs with
  | nil => exact .nil
  | cons x xs ih =>
    refine .cons (fun y hy => ?_) (ih.filter _)
    simpa using (List.mem_filter.mp hy).2

theorem Key.any_firstOfEach (key : α → Key) (k : Key) (xs : List α) :
    (firstOfEach key xs).any (fun x => (key x).same k) = xs.any fun x => (key x).same k := by
  induction xs with
  | nil => rfl
  | cons x xs ih =>
    rw [firstOfEach, List.any_cons, List.any_cons, ← ih]
    by_cases hx : (key x).same k = true
    · rw [hx, Bool.true_or, Bool.true_or]
    · have hother : ∀ y, (key y).same k = true → (!(key x).same (key y)) = true := by
        intro y hy
        rw [Bool.not_eq_true', Bool.eq_false_iff, same_comm, same_congr hy, same_comm]
        exact hx
      rw [List.any_filter]
      congr 2
      funext y
      cases hy : (key y).same k with
      | false => exact Bool.and_false _
      | true => rw [hother y hy, Bool.and_true]

theorem Key.firstOfEach_concat (key : α → Key) (xs : List α) (y : α) :
    firstOfEach key (xs ++ [y]) =
      firstOfEach key xs ++ if xs.any fun x => (key x).same (key y) then [] else [y] := by
  induction xs with
  | nil => rfl
  | cons x xs ih =>
    rw [List.cons_append, firstOfEach, firstOfEach, ih, List.filter_append, List.any_cons, List.cons_append]
    cases hx : (key x).same (key y) <;> cases xs.any fun x => (key x).same (key y) <;> simp [hx]

end FirstOfEach

namespace Index

variable {i : Index} {row : List Value} {position : Nat}

@[simp] theorem columns_insert (i : Index) (position : Nat) (row : List Value) :
    (i.insert position row).columns = i.columns := by
  unfold insert
  split <;> rfl

/-- The positions under a key; none if there is no bucket for it. -/
def positions (i : Index) (key : Key) : List Nat := (i.get? key).getD []

theorem positions_cons (columns : List Nat) (k : Key) (ps : List Nat) (rest : List (Key × List Nat)) (key : Key) :
    positions ⟨columns, (k, ps) :: rest⟩ key = if k.same key then ps else positions ⟨columns, rest⟩ key := by
  unfold positions get?
  by_cases hsame : k.same key = true
  · simp only [List.findSome?_cons, if_pos hsame, Option.getD_some]
  · simp only [List.findSome?_cons, if_neg hsame]

/-- A position that is filed is found last under its key, and under no other. -/
theorem positions_file (columns : List Nat) (key : Key) (position : Nat) (buckets : List (Key × List Nat))
    (wanted : Key) :
    positions ⟨columns, file key position buckets⟩ wanted =
      positions ⟨columns, buckets⟩ wanted ++ if key.same wanted then [position] else [] := by
  induction buckets with
  | nil => exact positions_cons columns key [position] [] wanted
  | cons bucket rest ih =>
    obtain ⟨k, ps⟩ := bucket
    rw [file, positions_cons]
    by_cases hfiled : k.same key = true
    · rw [if_pos hfiled, positions_cons, ← Key.same_congr hfiled wanted]
      by_cases hsame : k.same wanted = true
      · rw [if_pos hsame, if_pos hsame, if_pos hsame]
      · rw [if_neg hsame, if_neg hsame, if_neg hsame, List.append_nil]
    · rw [if_neg hfiled, positions_cons]
      by_cases hsame : k.same wanted = true
      · have hother : ¬ key.same wanted = true := by
          rw [Key.same_comm, ← Key.same_congr hsame]
          exact hfiled
        rw [if_pos hsame, if_pos hsame, if_neg hother, List.append_nil]
      · rw [if_neg hsame, if_neg hsame, ih]

theorem positions_insert (i : Index) (position : Nat) (row : List Value) (key : Key) :
    (i.insert position row).positions key =
      i.positions key ++ if key.isOf i.columns row then [position] else [] := by
  unfold insert Key.isOf
  cases Key.ofRow? i.columns row with
  | none => simp
  | some k => exact positions_file i.columns k position i.buckets key

end Index

namespace Table

variable {t : Table} {columns : List Nat} {row : List Value}

/-- Positions of the rows with a key, by a scan. -/
def scan (t : Table) (columns : List Nat) (key : Key) : List Nat :=
  (t.rows.toList.zipIdx.filter fun (row, _) => key.isOf columns row).map Prod.snd

/-- Does some row have the key? -/
def hasKey (t : Table) (columns : List Nat) (key : Key) : Bool := t.rows.toList.any (key.isOf columns)

theorem indexOf_push (t : Table) (row : List Value) (columns : List Nat) :
    (t.push row).indexOf columns = (t.indexOf columns).insert t.rows.size row := by
  simp [indexOf, push, List.zipIdx_append]

theorem indexOf_rows (rows : List (List Value × Nat)) (i : Index) :
    (rows.foldl (fun i (row, position) => i.insert position row) i).columns = i.columns ∧
      ∀ key, (rows.foldl (fun i (row, position) => i.insert position row) i).positions key =
        i.positions key ++ (rows.filter fun (row, _) => key.isOf i.columns row).map Prod.snd := by
  induction rows generalizing i with
  | nil => exact ⟨rfl, fun key => (List.append_nil _).symm⟩
  | cons x rows ih =>
    obtain ⟨row, position⟩ := x
    obtain ⟨hcolumns, hpositions⟩ := ih (i.insert position row)
    rw [Index.columns_insert] at hcolumns hpositions
    refine ⟨hcolumns, fun key => ?_⟩
    rw [List.foldl_cons, hpositions, Index.positions_insert, List.append_assoc, List.filter_cons]
    by_cases hkey : key.isOf i.columns row = true
    · rw [if_pos hkey, if_pos hkey]
      rfl
    · rw [if_neg hkey, if_neg hkey, List.nil_append]

@[simp] theorem columns_indexOf (t : Table) (columns : List Nat) : (t.indexOf columns).columns = columns :=
  (indexOf_rows _ _).1

theorem positions_indexOf (t : Table) (columns : List Nat) (key : Key) :
    (t.indexOf columns).positions key = t.scan columns key :=
  (indexOf_rows _ (.empty columns)).2 key

theorem isEmpty_scan (t : Table) (columns : List Nat) (key : Key) :
    (!(t.scan columns key).isEmpty) = t.hasKey columns key := by
  have hany : ∀ (rows : List (List Value)) (n : Nat),
      (!((rows.zipIdx n).filter fun (row, _) => key.isOf columns row).isEmpty) = rows.any (key.isOf columns) := by
    intro rows
    induction rows with
    | nil => exact fun _ => rfl
    | cons row rows ih =>
      intro n
      rw [List.zipIdx_cons, List.filter_cons, List.any_cons]
      by_cases hkey : key.isOf columns row = true
      · rw [if_pos hkey, hkey]
        rfl
      · rw [if_neg hkey, eq_false_of_ne_true hkey, ih, Bool.false_or]
  rw [scan, List.isEmpty_map, hany, hasKey]

/-- The indexes are those of the rows that the table has. -/
def Current (t : Table) : Prop := ∀ i ∈ t.indexes, i = t.indexOf i.columns

theorem Current.push (h : t.Current) (row : List Value) : (t.push row).Current := by
  intro i hi
  obtain ⟨i', hi', rfl⟩ := List.mem_map.mp hi
  rw [indexOf_push, Index.columns_insert, ← h i' hi']

/-- The table has these columns, its rows fit them, and its indexes are up to date. -/
structure Fits (t : Table) (wanted : List Column) : Prop where
  columns : t.columns = wanted
  rows : ∀ row ∈ t.rows.toList, RowFits wanted row
  indexes : ∀ i ∈ t.indexes, i = t.indexOf i.columns

theorem Fits.push {wanted : List Column} (h : t.Fits wanted) (hrow : RowFits wanted row) :
    (t.push row).Fits wanted where
  columns := h.columns
  rows row' hrow' := by
    have hrow' : row' ∈ t.rows.toList ∨ row' = row := by simpa [Table.push] using hrow'
    rcases hrow' with hold | rfl
    · exact h.rows row' hold
    · exact hrow
  indexes := Current.push h.indexes row

/-- The table with an index on the columns, for which it may have had one. -/
def withIndex (t : Table) (columns : List Nat) : Table :=
  if (t.index? columns).isSome then t else { t with indexes := t.indexes ++ [t.indexOf columns] }

theorem addIndex_of_lt (h : ∀ c ∈ columns, c < t.columns.length) :
    t.addIndex columns = .ok (t.withIndex columns) := by
  have hfind : (columns.find? fun c => t.columns.length ≤ c) = none := by
    simpa using h
  rw [addIndex, hfind, withIndex]
  dsimp only
  split <;> rfl

theorem addIndex_eq_ok {t' : Table} (h : t.addIndex columns = .ok t') :
    (∀ c ∈ columns, c < t.columns.length) ∧ t' = t.withIndex columns := by
  have hlt : ∀ c ∈ columns, c < t.columns.length := by
    unfold addIndex at h
    split at h
    · cases h
    · rename_i hfind
      simpa using hfind
  rw [addIndex_of_lt hlt] at h
  exact ⟨hlt, (Except.ok.inj h).symm⟩

@[simp] theorem rows_withIndex (t : Table) (columns : List Nat) : (t.withIndex columns).rows = t.rows := by
  unfold withIndex
  split <;> rfl

@[simp] theorem columns_withIndex (t : Table) (columns : List Nat) : (t.withIndex columns).columns = t.columns := by
  unfold withIndex
  split <;> rfl

theorem Current.withIndex (h : t.Current) (columns : List Nat) : (t.withIndex columns).Current := by
  unfold Table.withIndex
  split
  · exact h
  · intro i hi
    rcases List.mem_append.mp hi with hi | hi
    · exact h i hi
    · rw [List.mem_singleton.mp hi, columns_indexOf]
      rfl

theorem Fits.withIndex {wanted : List Column} (h : t.Fits wanted) (columns : List Nat) :
    (t.withIndex columns).Fits wanted where
  columns := (t.columns_withIndex columns).trans h.columns
  rows := t.rows_withIndex columns ▸ h.rows
  indexes := Current.withIndex h.indexes columns

theorem withColumns_eq_ok {name : String} {columns : List Column} (h : withColumns name columns = .ok t) :
    t = ⟨name, columns, #[], []⟩ := by
  unfold withColumns addColumns at h
  split at h
  · cases h
  · split at h <;> cases h
    rfl

/-- There is an index on the columns. -/
def IndexedOn (t : Table) (columns : List Nat) : Prop := ∃ i ∈ t.indexes, i.columns = columns

theorem indexedOn_withIndex (t : Table) (columns : List Nat) : (t.withIndex columns).IndexedOn columns := by
  unfold withIndex
  split
  · rename_i hsome
    obtain ⟨i, hi⟩ := Option.isSome_iff_exists.mp hsome
    exact ⟨i, List.mem_of_find?_eq_some hi, by simpa using List.find?_some hi⟩
  · exact ⟨_, List.mem_append_right _ List.mem_cons_self, columns_indexOf t columns⟩

theorem IndexedOn.push (h : t.IndexedOn columns) (row : List Value) : (t.push row).IndexedOn columns := by
  obtain ⟨i, hi, hcolumns⟩ := h
  exact ⟨_, List.mem_map_of_mem hi, (i.columns_insert _ row).trans hcolumns⟩

/-- Looking a key up gives the positions that a scan finds. -/
theorem lookup_eq (h : t.Current) (hindexed : t.IndexedOn columns) (key : Key) :
    t.lookup columns key = .ok (t.scan columns key) := by
  have hsome : (t.index? columns).isSome = true := by
    obtain ⟨i, hi, hcolumns⟩ := hindexed
    rw [index?, List.find?_isSome]
    exact ⟨i, hi, by simpa using hcolumns⟩
  obtain ⟨i, hi⟩ := Option.isSome_iff_exists.mp hsome
  have hcolumns : i.columns = columns := by simpa using List.find?_some hi
  have hindex : i = t.indexOf columns := hcolumns ▸ h i (List.mem_of_find?_eq_some hi)
  rw [lookup, hi, ← positions_indexOf, ← hindex]
  rfl

theorem containsKey_eq (h : t.Current) (hindexed : t.IndexedOn columns) (key : Key) :
    t.containsKey columns key = .ok (t.hasKey columns key) := by
  rw [containsKey, lookup_eq h hindexed, ← isEmpty_scan]
  rfl

end Table

end TabularQuery
