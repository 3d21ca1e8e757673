import Mathlib
import TabularQuery.Proofs.TableCalls
import TabularQuery.Table.Hash

/-!
Looking keys up. In every table that calls can make, an index finds under a key exactly the positions that a scan of
the rows finds, in order; it does not matter which came first, the index or the rows. Every row that has a key is in
one bucket and once there. Equal keys are hashed alike, so that the same holds of buckets in a hash table, whatever
the hasher.
-/

namespace TabularQuery

/-! ### Key equality and hashing -/

/-- Values that count as one in a key: reals by their bits, the zeros as one; others when they are equal. -/
def Value.SameInKey : Value → Value → Prop
  | .real x, .real y => x.keyBits = y.keyBits
  | v, w => v = w

theorem Value.sameInKey_iff {v w : Value} : v.SameInKey w ↔ v.keyForm = w.keyForm := by
  cases v <;> cases w <;> simp [SameInKey, keyForm]

theorem Value.hashItems_eq {v w : Value} (h : v.SameInKey w) : v.hashItems = w.hashItems := by
  cases v <;> cases w <;> simp_all [SameInKey, hashItems]

namespace Key

variable {a b c : Key}

theorem same_iff_forall₂ : a.same b = true ↔ List.Forall₂ Value.SameInKey a.values b.values := by
  have hsame : Value.SameInKey = fun v w => v.keyForm = w.keyForm := by
    funext v w
    exact propext Value.sameInKey_iff
  rw [same_iff, form, form, ← List.forall₂_eq_eq_eq, List.forall₂_map_left_iff, List.forall₂_map_right_iff, hsame]

theorem same_equivalence : Equivalence fun a b : Key => a.same b = true where
  refl := same_refl
  symm h := by rwa [same_comm]
  trans h h' := by rwa [same_congr h]

theorem hashItems_eq (h : a.same b = true) : a.hashItems = b.hashItems := by
  obtain ⟨values, _⟩ := a
  obtain ⟨values', _⟩ := b
  have hvalues : List.Forall₂ Value.SameInKey values values' := same_iff_forall₂.mp h
  have hitems : values.flatMap Value.hashItems = values'.flatMap Value.hashItems := by
    clear h
    induction hvalues with
    | nil => rfl
    | cons hv _ ih => rw [List.flatMap_cons, List.flatMap_cons, Value.hashItems_eq hv, ih]
  rw [hashItems, hashItems, hvalues.length_eq, hitems]

end Key

/-- A key in a hash table with this hasher. -/
structure HashedKey (hasher : List HashItem → UInt64) where
  key : Key

namespace HashedKey

variable {hasher : List HashItem → UInt64}

instance : BEq (HashedKey hasher) := ⟨fun a b => a.key.same b.key⟩

instance : Hashable (HashedKey hasher) := ⟨fun k => hasher k.key.hashItems⟩

theorem beq_eq (a b : HashedKey hasher) : (a == b) = a.key.same b.key := rfl

instance : EquivBEq (HashedKey hasher) where
  rfl {a} := a.key.same_refl
  symm {a b} h := Key.same_equivalence.symm (x := a.key) (y := b.key) h
  trans {a b c} h h' := Key.same_equivalence.trans (x := a.key) (y := b.key) (z := c.key) h h'

instance : LawfulHashable (HashedKey hasher) where
  hash_eq a b h := congrArg hasher (Key.hashItems_eq (a := a.key) (b := b.key) h)

end HashedKey

/-! ### Buckets -/

namespace Index

variable {i : Index} {key : Key} {position : Nat}

/-- No key has two buckets. -/
def Tidy (i : Index) : Prop := i.buckets.Pairwise fun a b => a.1.same b.1 = false

theorem mem_file {buckets : List (Key × List Nat)} {bucket : Key × List Nat} (h : bucket ∈ file key position buckets) :
    (∃ old ∈ buckets, old.1 = bucket.1) ∨ bucket.1 = key := by
  induction buckets with
  | nil =>
    rw [file, List.mem_singleton] at h
    exact .inr (congrArg Prod.fst h)
  | cons first rest ih =>
    rw [file] at h
    by_cases hsame : first.1.same key = true
    · rw [if_pos hsame] at h
      rcases List.mem_cons.mp h with rfl | hmem
      · exact .inl ⟨first, List.mem_cons_self, rfl⟩
      · exact .inl ⟨bucket, List.mem_cons_of_mem _ hmem, rfl⟩
    · rw [if_neg hsame] at h
      rcases List.mem_cons.mp h with rfl | hmem
      · exact .inl ⟨first, List.mem_cons_self, rfl⟩
      · rcases ih hmem with ⟨old, hold, hkey⟩ | hkey
        · exact .inl ⟨old, List.mem_cons_of_mem _ hold, hkey⟩
        · exact .inr hkey

theorem pairwise_file {buckets : List (Key × List Nat)} (h : buckets.Pairwise fun a b => a.1.same b.1 = false)
    (key : Key) (position : Nat) : (file key position buckets).Pairwise fun a b => a.1.same b.1 = false := by
  induction buckets with
  | nil => exact List.pairwise_singleton _ _
  | cons first rest ih =>
    rw [List.pairwise_cons] at h
    rw [file]
    by_cases hsame : first.1.same key = true
    · rw [if_pos hsame, List.pairwise_cons]
      exact h
    · rw [if_neg hsame, List.pairwise_cons]
      refine ⟨fun bucket hbucket => ?_, ih h.2⟩
      rcases mem_file hbucket with ⟨old, hold, hkey⟩ | hkey
      · rw [← hkey]
        exact h.1 old hold
      · rw [hkey]
        exact eq_false_of_ne_true hsame

theorem Tidy.insert (h : i.Tidy) (position : Nat) (row : List Value) : (i.insert position row).Tidy := by
  unfold Index.insert
  split
  · exact pairwise_file h _ position
  · exact h

theorem Tidy.positions_eq (h : i.Tidy) {bucket : Key × List Nat} (hbucket : bucket ∈ i.buckets) :
    i.positions bucket.1 = bucket.2 := by
  obtain ⟨columns, buckets⟩ := i
  unfold Tidy at h
  dsimp only at h hbucket
  induction buckets with
  | nil => cases hbucket
  | cons first rest ih =>
    rw [List.pairwise_cons] at h
    rw [positions_cons]
    rcases List.mem_cons.mp hbucket with rfl | hmem
    · rw [if_pos (Key.same_refl _)]
    · rw [if_neg (by simp [h.1 bucket hmem])]
      exact ih h.2 hmem

theorem exists_bucket (h : position ∈ i.positions key) : ∃ bucket ∈ i.buckets, position ∈ bucket.2 := by
  obtain ⟨columns, buckets⟩ := i
  induction buckets with
  | nil => cases h
  | cons first rest ih =>
    rw [positions_cons] at h
    by_cases hsame : first.1.same key = true
    · rw [if_pos hsame] at h
      exact ⟨first, List.mem_cons_self, h⟩
    · rw [if_neg hsame] at h
      obtain ⟨bucket, hbucket, hposition⟩ := ih h
      exact ⟨bucket, List.mem_cons_of_mem _ hbucket, hposition⟩

end Index

namespace Table

variable {t t' start : Table} {call : Call} {calls : List Call} {columns : List Nat} {key : Key} {position : Nat}

theorem tidy_indexOf (t : Table) (columns : List Nat) : (t.indexOf columns).Tidy := by
  have hfold (rows : List (List Value × Nat)) (i : Index) (h : i.Tidy) :
      (rows.foldl (fun i x => i.insert x.2 x.1) i).Tidy := by
    induction rows generalizing i with
    | nil => exact h
    | cons x rows ih => exact ih _ (h.insert x.2 x.1)
  exact hfold _ _ List.Pairwise.nil

/-! ### Scans -/

theorem mem_scan : position ∈ t.scan columns key ↔
    ∃ row k, t.rows[position]? = some row ∧ Key.ofRow? columns row = some k ∧ k.same key = true := by
  simp [scan, List.mk_mem_zipIdx_iff_getElem?, Key.isOf, Option.any_eq_true]

theorem pairwise_scan (t : Table) (columns : List Nat) (key : Key) : (t.scan columns key).Pairwise (· < ·) := by
  have hall : (t.rows.toList.zipIdx.map Prod.snd).Pairwise (· < ·) := by
    rw [List.zipIdx_map_snd]
    exact List.pairwise_lt_range'
  exact hall.sublist (List.filter_sublist.map Prod.snd)

/-! ### Hash tables -/

variable {hasher : List HashItem → UInt64}

/-- Files a row in a hash table; one without all of the columns is left out. -/
def fileHashed (columns : List Nat) (buckets : Std.HashMap (HashedKey hasher) (List Nat)) (position : Nat)
    (row : List Value) : Std.HashMap (HashedKey hasher) (List Nat) :=
  match Key.ofRow? columns row with
  | some key => buckets.alter ⟨key⟩ fun positions => some (positions.getD [] ++ [position])
  | none => buckets

/-- The rows of a table in a hash table. -/
def hashed (t : Table) (hasher : List HashItem → UInt64) (columns : List Nat) :
    Std.HashMap (HashedKey hasher) (List Nat) :=
  t.rows.toList.zipIdx.foldl (fun buckets (row, position) => fileHashed columns buckets position row) ∅

theorem getD_fileHashed (buckets : Std.HashMap (HashedKey hasher) (List Nat)) (position : Nat) (row : List Value) :
    (fileHashed columns buckets position row).getD ⟨key⟩ [] =
      buckets.getD ⟨key⟩ [] ++ if key.isOf columns row then [position] else [] := by
  unfold fileHashed Key.isOf
  cases Key.ofRow? columns row with
  | none => simp
  | some k =>
    simp only [Std.HashMap.getD_alter, HashedKey.beq_eq, Option.any_some, Option.getD_some]
    by_cases hsame : k.same key = true
    · have hfound : buckets[(⟨k⟩ : HashedKey hasher)]? = buckets[(⟨key⟩ : HashedKey hasher)]? :=
        Std.HashMap.getElem?_congr hsame
      rw [if_pos hsame, if_pos hsame, hfound, Std.HashMap.getD_eq_getD_getElem?]
    · rw [if_neg hsame, if_neg hsame, List.append_nil]

/-- A hash table finds what a scan finds, whatever the hasher. -/
theorem getD_hashed (t : Table) (hasher : List HashItem → UInt64) (columns : List Nat) (key : Key) :
    (t.hashed hasher columns).getD ⟨key⟩ [] = t.scan columns key := by
  have hfold (rows : List (List Value × Nat)) (buckets : Std.HashMap (HashedKey hasher) (List Nat)) :
      (rows.foldl (fun buckets (row, position) => fileHashed columns buckets position row) buckets).getD ⟨key⟩ [] =
        buckets.getD ⟨key⟩ [] ++ (rows.filter fun (row, _) => key.isOf columns row).map Prod.snd := by
    induction rows generalizing buckets with
    | nil => simp
    | cons x rows ih =>
      rw [List.foldl_cons, ih, getD_fileHashed, List.append_assoc, List.filter_cons]
      by_cases hkey : key.isOf columns x.1 = true <;> simp [hkey]
  rw [hashed, hfold, Std.HashMap.getD_empty, List.nil_append, scan]

/-! ### Lookups -/

theorem indexedOn_withIndex_iff {columns' : List Nat} :
    (t.withIndex columns').IndexedOn columns ↔ t.IndexedOn columns ∨ columns' = columns := by
  constructor
  · rintro ⟨i, hi, rfl⟩
    rcases mem_indexes_withIndex hi with hold | hnew
    · exact .inl ⟨i, hold, rfl⟩
    · exact .inr hnew.symm
  · rintro (⟨i, hi, rfl⟩ | rfl)
    · refine ⟨i, ?_, rfl⟩
      unfold withIndex
      split
      · exact hi
      · exact List.mem_append_left _ hi
    · exact indexedOn_withIndex t _

/-- The call adds an index on the columns. -/
def Registers (columns : List Nat) (t : Table) (call : Call) : Prop :=
  call = .addIndex columns ∧ ∃ t', t.addIndex columns = .ok t'

theorem indexedOn_iff (hmakes : Makes t call t') : t'.IndexedOn columns ↔ t.IndexedOn columns ∨ Registers columns t call := by
  cases hmakes with
  | @refused call e happly =>
    have hnot : ¬ Registers columns t call := by
      rintro ⟨rfl, t', ht'⟩
      rw [Call.apply, ht'] at happly
      cases happly
    simp [hnot]
  | columns => simp [IndexedOn, Registers]
  | @index columns' hlt =>
    have haccepted : ∃ t', t.addIndex columns' = .ok t' := ⟨_, addIndex_of_lt hlt⟩
    rw [indexedOn_withIndex_iff, Registers, Call.addIndex.injEq]
    refine or_congr_right ⟨fun h => ⟨h, h ▸ haccepted⟩, fun h => h.1⟩
  | @row row hfits =>
    have hnot : ¬ Registers columns t (.add row) := by
      rintro ⟨hcall, -⟩
      cases hcall
    simp [IndexedOn, push, hnot]

theorem Initial.indexedOn_iff (h : start.Initial) (calls : List Call) :
    (start.afterAll calls).IndexedOn columns ↔ start.Sometime calls (Registers columns) := by
  induction calls using List.reverseRecOn with
  | nil =>
    have hnone : ¬ start.IndexedOn columns := by simp [IndexedOn, h.indexes_eq]
    exact iff_of_false hnone (sometime_nil start _)
  | append_singleton calls call ih =>
    rw [afterAll_concat, sometime_concat, ← ih]
    exact Table.indexedOn_iff (makes_after _ call)

theorem Kept.addIndex_eq (h : t.Kept) (hindexed : t.IndexedOn columns) : t.addIndex columns = .ok t := by
  obtain ⟨i, hi, rfl⟩ := hindexed
  have hsome : (t.index? i.columns).isSome = true := by
    rw [index?, List.find?_isSome]
    exact ⟨i, hi, by simp⟩
  rw [addIndex_of_lt (h.within i hi), withIndex, if_pos hsome]

/-- Every row that has a key is in one bucket, and once there. -/
theorem Kept.filed_once (h : t.Kept) {i : Index} (hi : i ∈ t.indexes) :
    (i.buckets.flatMap Prod.snd).Nodup ∧ ∀ position, position ∈ i.buckets.flatMap Prod.snd ↔
      ∃ row key, t.rows[position]? = some row ∧ Key.ofRow? i.columns row = some key := by
  have hindex := h.indexes i hi
  have htidy : i.Tidy := hindex ▸ t.tidy_indexOf i.columns
  have hpositions (key : Key) : i.positions key = t.scan i.columns key := by
    conv_lhs => rw [hindex]
    exact t.positions_indexOf i.columns key
  have hbucket {bucket : Key × List Nat} (hmem : bucket ∈ i.buckets) : bucket.2 = t.scan i.columns bucket.1 := by
    rw [← hpositions, htidy.positions_eq hmem]
  constructor
  · rw [List.nodup_flatMap]
    constructor
    · intro bucket hmem
      rw [hbucket hmem]
      exact (t.pairwise_scan i.columns bucket.1).imp Nat.ne_of_lt
    · -- a position in two buckets would give its row two keys
      refine htidy.imp_of_mem fun {a b} ha hb hdiffer position hina hinb => ?_
      rw [hbucket ha] at hina
      rw [hbucket hb] at hinb
      obtain ⟨row, k, hrow, hk, hsame⟩ := mem_scan.mp hina
      obtain ⟨row', k', hrow', hk', hsame'⟩ := mem_scan.mp hinb
      cases hrow.symm.trans hrow'
      cases hk.symm.trans hk'
      rw [← Key.same_congr hsame, hsame'] at hdiffer
      cases hdiffer
  · intro position
    rw [List.mem_flatMap]
    constructor
    · rintro ⟨bucket, hmem, hposition⟩
      rw [hbucket hmem] at hposition
      obtain ⟨row, key, hrow, hkey, -⟩ := mem_scan.mp hposition
      exact ⟨row, key, hrow, hkey⟩
    · rintro ⟨row, key, hrow, hkey⟩
      have hposition : position ∈ i.positions key := by
        rw [hpositions]
        exact mem_scan.mpr ⟨row, key, hrow, hkey, key.same_refl⟩
      exact Index.exists_bucket hposition

/-- Whatever is called on a new table, and in whatever order: for columns that were registered and for every key, a
lookup gives the positions, in order, of the rows whose key on these columns is the same; a hash table of the rows gives
the same under every hasher; and to register the columns again changes nothing. In every index each row that has a
key is filed once. Key equality compares values one by one, is an equivalence, and equal keys are hashed alike. -/
theorem indexed_lookup_scans (hstart : start.Initial) (ht : start.afterAll calls = t) :
    (∀ columns, start.Sometime calls (fun earlier call =>
        call = .addIndex columns ∧ ∃ later, earlier.addIndex columns = .ok later) →
      t.addIndex columns = .ok t ∧ ∀ key, ∃ positions, t.lookup columns key = .ok positions ∧
        t.containsKey columns key = .ok (!positions.isEmpty) ∧ positions.Pairwise (· < ·) ∧
        (∀ position, position ∈ positions ↔
          ∃ row k, t.rows[position]? = some row ∧ Key.ofRow? columns row = some k ∧ k.same key = true) ∧
        ∀ hasher, (t.hashed hasher columns).getD ⟨key⟩ [] = positions) ∧
    (∀ i ∈ t.indexes, (i.buckets.flatMap Prod.snd).Nodup ∧ ∀ position, position ∈ i.buckets.flatMap Prod.snd ↔
      ∃ row k, t.rows[position]? = some row ∧ Key.ofRow? i.columns row = some k) ∧
    (∀ a b : Key, a.same b = true ↔ List.Forall₂ Value.SameInKey a.values b.values) ∧
    Equivalence (fun a b : Key => a.same b = true) ∧
    ∀ a b : Key, a.same b = true → a.hashItems = b.hashItems := by
  subst ht
  have hkept := hstart.kept_afterAll calls
  refine ⟨fun columns hregistered => ?_, fun i hi => hkept.filed_once hi, fun a b => Key.same_iff_forall₂,
    Key.same_equivalence, fun a b => Key.hashItems_eq⟩
  have hindexed := (hstart.indexedOn_iff calls).mpr hregistered
  refine ⟨hkept.addIndex_eq hindexed, fun key => ?_⟩
  have hlookup := lookup_eq hkept.indexes hindexed key
  refine ⟨_, hlookup, ?_, pairwise_scan _ columns key, fun position => mem_scan,
    fun hasher => getD_hashed _ hasher columns key⟩
  rw [containsKey, hlookup]
  rfl

/-- Both zeros and two NaNs, filed before and after the index, which is registered twice. -/
theorem indexed_lookup_scans_zeros :
    let columns : List Column := [⟨"x", .real⟩, ⟨"s", .text⟩]
    let zero : Value := .real ⟨0⟩
    let minusZero : Value := .real ⟨0x8000000000000000⟩
    let nan : Value := .real ⟨0x7ff8000000000000⟩
    let otherNaN : Value := .real ⟨0xfff8000000000000⟩
    let calls : List Call := [.add [zero, .text "a"], .addIndex [0], .add [nan, .text "b"], .add [minusZero, .text "a"],
      .addIndex [0], .addIndex [1, 0], .add [otherNaN, .text "b"]]
    let t := Table.afterAll ⟨"t", columns, #[], []⟩ calls
    t.lookup [0] ⟨[minusZero], [7]⟩ = .ok [0, 2] ∧ t.lookup [0] ⟨[nan], []⟩ = .ok [1] ∧
      (t.hashed (fun items => items.length.toUInt64) [0]).getD ⟨⟨[zero], []⟩⟩ [] = [0, 2] ∧ t.addIndex [0] = .ok t := by
  intro columns zero minusZero nan otherNaN calls t
  have hstart : Initial ⟨"t", columns, #[], []⟩ :=
    .withColumns (addColumns_eq_ok_iff.mpr ⟨rfl, by decide, rfl⟩)
  have hlookups : (t.lookup [0] ⟨[minusZero], [7]⟩).toOption = some [0, 2] ∧
      (t.lookup [0] ⟨[nan], []⟩).toOption = some [1] ∧ (t.lookup [0] ⟨[zero], []⟩).toOption = some [0, 2] := by
    decide +kernel
  obtain ⟨hfirst, hsecond, hzero⟩ := hlookups
  obtain ⟨hregistered, -⟩ := indexed_lookup_scans hstart (rfl : _ = t)
  obtain ⟨hagain, hlookup⟩ := hregistered [0]
    ⟨[.add [zero, .text "a"]], .addIndex [0], _, rfl, rfl, _, addIndex_of_lt (by decide)⟩
  obtain ⟨positions, hfound, -, -, -, hhashed⟩ := hlookup ⟨[zero], []⟩
  rw [hfound] at hzero
  cases hzero
  exact ⟨toOption_eq_some_iff.mp hfirst, toOption_eq_some_iff.mp hsecond, hhashed _, hagain⟩

end Table

end TabularQuery
