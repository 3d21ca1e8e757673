import TabularQuery.Proofs.QueryRun

/-!
Which rows a query without groups selects, in terms of lists. If no condition fails on the way, the
scenes that nested loops visit are those of the tuples of rows, in lexicographic order, that meet every
condition; SKIP and TAKE cut a slice out of them, and the fields are evaluated on the slice only.
-/

namespace TabularQuery

/-! ### Slices -/

/-- A number of rows; below zero it is none. -/
def rowCount (n : Int64) : Nat := n.toInt.toNat

/-- What is left of a list when some items are skipped and at most so many taken. -/
def slice (skip take : Option Int64) (xs : List α) : List α :=
  let rest := xs.drop ((skip.map rowCount).getD 0)
  match take with
  | none => rest
  | some n => rest.take (rowCount n)

theorem rowCount_of_le {n : Int64} (h : n ≤ 0) : rowCount n = 0 := by
  simpa [rowCount] using h

theorem rowCount_of_pos {n : Int64} (h : 0 < n) : rowCount n = rowCount (n - 1) + 1 := by
  have hpos : 0 < n.toInt := by simpa using Int64.lt_iff_toInt_lt.mp h
  rw [rowCount, rowCount, Counter.toInt_sub_one h]
  omega

theorem slice_nil (skip take : Option Int64) : slice skip take ([] : List α) = [] := by
  cases take <;> simp [slice]

theorem slice_skip {skip take : Option Int64} (h : skip.any (0 < ·) = true) (x : α) (xs : List α) :
    slice skip take (x :: xs) = slice (skip.map (· - 1)) take xs := by
  cases skip with
  | none => cases h
  | some n =>
    have hpos : 0 < n := by simpa using h
    simp [slice, rowCount_of_pos hpos]

theorem slice_done {take : Option Int64} (htake : take.any (· ≤ 0) = true) (skip : Option Int64) (xs : List α) :
    slice skip take xs = [] := by
  cases take with
  | none => cases htake
  | some n =>
    have hle : n ≤ 0 := by simpa using htake
    simp [slice, rowCount_of_le hle]

theorem slice_take {skip take : Option Int64} (hskip : skip.any (0 < ·) = false)
    (htake : take.any (· ≤ 0) = false) (x : α) (xs : List α) :
    slice skip take (x :: xs) = x :: slice skip (take.map (· - 1)) xs := by
  have hzero : (skip.map rowCount).getD 0 = 0 := by
    cases skip with
    | none => rfl
    | some n => exact rowCount_of_le (by simpa using hskip)
  cases take with
  | none => simp [slice, hzero]
  | some n =>
    have hpos : 0 < n := by simpa using htake
    simp [slice, hzero, rowCount_of_pos hpos]

/-- Counting scenes off and writing them fills the table with the fields' values on the slice. -/
theorem consume_emit (fields : List TypedExpr) (scenes : List Scene) (t : Tally) :
    (fun r => r.state.table) <$> consume (Reader.exact.emit fields) (scenes.map .ok) t =
      (fun rows => rows.foldl Table.push t.table) <$>
        (slice t.skip t.take scenes).mapM fun s => TypedExpr.evalAll s fields := by
  induction scenes generalizing t with
  | nil =>
    rw [slice_nil]
    rfl
  | cons s scenes ih =>
    rw [List.map_cons, consume, Reader.emit]
    by_cases hskip : t.skip.any (0 < ·) = true
    · rw [if_pos hskip, slice_skip hskip]
      exact ih _
    · rw [if_neg hskip]
      rw [Bool.not_eq_true] at hskip
      by_cases htake : t.take.any (· ≤ 0) = true
      · rw [if_pos htake, slice_done htake]
        rfl
      · rw [if_neg htake]
        rw [Bool.not_eq_true] at htake
        rw [slice_take hskip htake, List.mapM_cons, Reader.values_exact]
        cases TypedExpr.evalAll s fields with
        | error e => rfl
        | ok row =>
          refine (ih (t.write row)).trans ?_
          cases hrows : (slice t.skip (t.take.map (· - 1)) scenes).mapM fun s =>
            TypedExpr.evalAll s fields <;> simp [Tally.write, hrows] <;> rfl

theorem Table.rows_foldl_push (t : Table) (rows : List (List Value)) :
    (rows.foldl push t).rows.toList = t.rows.toList ++ rows := by
  induction rows generalizing t with
  | nil => simp
  | cons row rows ih => simp [ih, push]

/-! ### Tuples -/

/-- All tuples with one item of each list; the first item changes slowest. -/
def product : List (List α) → List (List α)
  | [] => [[]]
  | xs :: rest => xs.flatMap fun x => (product rest).map (x :: ·)

namespace Scene

/-- The scene with a row for each source. -/
def putAll (s : Scene) : List BoundSource → List (List Value) → Scene
  | source :: sources, row :: rows => (s.put source.cursor row).putAll sources rows
  | _, _ => s

/-- The scene of a tuple of rows. -/
def ofRows (sources : List BoundSource) (rows : List (List Value)) : Scene :=
  Scene.empty.putAll sources rows

/-- The condition is met; a failure is not. -/
def holds (s : Scene) (test : Option TypedExpr) : Bool :=
  match s.test test with
  | .ok b => b
  | .error _ => false

/-- All join conditions and the filter are met. -/
def meets (s : Scene) (sources : List BoundSource) (filter : Option TypedExpr) : Bool :=
  sources.all (fun source => s.holds source.on) && s.holds filter

theorem agree_putAll {g : Sight} (sources : List BoundSource) (rows : List (List Value)) (s : Scene)
    (hnew : ∀ source ∈ sources, ∀ x ∈ g.cursors, x.1 ≠ source.cursor) :
    Agree g (s.putAll sources rows) s := by
  induction sources generalizing s rows with
  | nil => exact ⟨fun _ _ _ => rfl, fun _ _ => rfl⟩
  | cons source sources ih =>
    cases rows with
    | nil => exact ⟨fun _ _ _ => rfl, fun _ _ => rfl⟩
    | cons row rows =>
      have hrest := ih rows (s.put source.cursor row) fun b hb => hnew b (List.mem_cons_of_mem _ hb)
      refine ⟨fun c columns hmem => ?_, hrest.slots⟩
      rw [putAll, hrest.rows c columns hmem, put_other]
      exact hnew source List.mem_cons_self _ hmem

end Scene

/-- No condition that the loops over these rows come to fails. -/
def NeverFails (filter : Option TypedExpr) :
    List BoundSource → List (List (List Value)) → Scene → Prop
  | source :: sources, rows :: rest, s => ∀ row ∈ rows,
    ∃ b, (s.put source.cursor row).test source.on = .ok b ∧
      (b = true → NeverFails filter sources rest (s.put source.cursor row))
  | _, _, s => ∃ b, s.test filter = .ok b

/-- A source that brings these rows. -/
def delivered (rows : List (List Value)) : Except Error Delivery := .ok (rows.map .ok)

theorem eachRow_ok {α : Type} (rows : List (List Value)) (inside : List Value → List (Except Error α)) :
    eachRow (rows.map .ok) inside = rows.flatMap inside := by
  rw [eachRow, List.flatMap_map]

/-- The first join condition can be decided before the other rows are there. -/
theorem Scene.meets_cons {filter : Option TypedExpr} {g : Sight} {source : BoundSource}
    {sources : List BoundSource} (htest : g.Tests source.on)
    (hnew : ∀ source ∈ sources, ∀ x ∈ g.cursors, x.1 ≠ source.cursor) {s : Scene} {b : Bool}
    (hb : s.test source.on = .ok b) (rows : List (List Value)) :
    (s.putAll sources rows).meets (source :: sources) filter =
      (b && (s.putAll sources rows).meets sources filter) := by
  have hsame := Scene.test_congr (agree_putAll sources rows s hnew) htest
  simp [meets, holds, hsame, hb, Bool.and_assoc]

/-- Without failures the loops visit the tuples that meet the conditions, in order. -/
theorem visits_eq {filter : Option TypedExpr} {g : Sight} {sources : List BoundSource}
    {rows : List (List (List Value))} (hlen : rows.length = sources.length)
    (hnested : g.Nested filter sources) {s : Scene} (h : NeverFails filter sources rows s) :
    Reader.exact.visits filter (sources.zip (rows.map delivered)) s =
      (((product rows).map (s.putAll sources)).filter fun s => s.meets sources filter).map .ok := by
  induction sources generalizing g rows s with
  | nil =>
    obtain rfl := List.length_eq_zero_iff.mp hlen
    obtain ⟨b, hb⟩ := h
    cases b <;> simp [Reader.visits, Reader.passes_exact, guarded, hb, product, Scene.putAll, Scene.meets, Scene.holds]
  | cons source sources ih =>
    obtain ⟨hnew, htest, hrest⟩ := hnested
    cases rows with
    | nil => cases hlen
    | cons these rest =>
      have hlen : rest.length = sources.length := by simpa using hlen
      have htuples : (product (these :: rest)).map (s.putAll (source :: sources)) =
          these.flatMap fun row => (product rest).map ((s.put source.cursor row).putAll sources) := by
        simp only [product, List.map_flatMap, List.map_map]
        rfl
      have hvisits : Reader.exact.visits filter ((source :: sources).zip ((these :: rest).map delivered)) s =
          these.flatMap fun row => guarded ((s.put source.cursor row).test source.on)
            (Reader.exact.visits filter (sources.zip (rest.map delivered)) (s.put source.cursor row)) := by
        rw [← Reader.passes_exact]
        exact eachRow_ok these _
      rw [hvisits, htuples, List.filter_flatMap, List.map_flatMap]
      refine List.flatMap_congr fun row hrow => ?_
      obtain ⟨b, hb, hnever⟩ := h row hrow
      have hmeets : ∀ tuple, ((s.put source.cursor row).putAll sources tuple).meets (source :: sources) filter
          = (b && ((s.put source.cursor row).putAll sources tuple).meets sources filter) :=
        Scene.meets_cons htest hrest.new hb
      simp only [List.filter_map, List.map_map, Function.comp_def, hmeets, hb]
      cases b with
      | true =>
        rw [guarded, ih hlen hrest (hnever rfl)]
        simp only [List.filter_map, List.map_map, Function.comp_def, Bool.true_and]
      | false => simp [guarded]

end TabularQuery
