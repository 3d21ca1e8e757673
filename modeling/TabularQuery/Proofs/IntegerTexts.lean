import Mathlib.Data.List.Basic
import Mathlib.Data.Nat.Digits.Defs
import TabularQuery.Method.Standard

/-!
Texts of integers. A numeral is an optional sign before decimal digits, as many as one likes but at least one; leading
zeros do not count. The method `ToInt` reads a text exactly if it is a numeral of a 64-bit integer with white space around
it, and `ToString` writes one, so the first undoes the second.
-/

namespace TabularQuery

/-! ### Numerals -/

namespace Decimal

/-- At least one decimal digit, and the number that the digits stand for, the last one at the power zero of ten. -/
structure DigitRun (cs : List Char) (n : Nat) : Prop where
  nonempty : cs ≠ []
  digits : ∀ c ∈ cs, c.isDigit
  value : n = Nat.ofDigits 10 (cs.reverse.map digitValue)

/-- An optional sign and digits, and the integer that they stand for. -/
inductive Numeral : List Char → Int → Prop
  | unsigned {cs : List Char} {n : Nat} (digits : DigitRun cs n) : Numeral cs n
  | plus {cs : List Char} {n : Nat} (digits : DigitRun cs n) : Numeral ('+' :: cs) n
  | minus {cs : List Char} {n : Nat} (digits : DigitRun cs n) : Numeral ('-' :: cs) (-n)

variable {cs : List Char}

theorem natOfDigits_eq_ofDigits (cs : List Char) : natOfDigits cs = Nat.ofDigits 10 (cs.reverse.map digitValue) := by
  simp only [natOfDigits, Nat.ofDigits_eq_foldr, List.foldr_map, List.foldr_reverse, Nat.cast_id, Nat.add_comm]

theorem readDigits?_eq_some_iff {n : Nat} : readDigits? cs = some n ↔ DigitRun cs n := by
  unfold readDigits?
  rw [natOfDigits_eq_ofDigits]
  split
  · next h =>
    simp only [Bool.and_eq_true, Bool.not_eq_true', List.isEmpty_eq_false_iff, List.all_eq_true] at h
    exact ⟨fun hn => ⟨h.1, h.2, (Option.some.inj hn).symm⟩, fun hn => congrArg some hn.value.symm⟩
  · next h =>
    simp only [Bool.and_eq_true, Bool.not_eq_true', List.isEmpty_eq_false_iff, List.all_eq_true] at h
    exact ⟨nofun, fun hn => absurd ⟨hn.nonempty, hn.digits⟩ h⟩

/-- A sign is no digit, so a text is a numeral in one way only. -/
theorem readSigned?_eq_some_iff {n : Int} : readSigned? cs = some n ↔ Numeral cs n := by
  have hsign : ∀ {c : Char} {cs : List Char} {m : Nat}, c = '-' ∨ c = '+' → ¬ DigitRun (c :: cs) m := by
    rintro c cs m hc hdigits
    have hdigit := hdigits.digits c List.mem_cons_self
    rcases hc with rfl | rfl <;> cases hdigit
  unfold readSigned?
  split
  · next cs =>
    simp only [Option.map_eq_some_iff, Option.bind_eq_bind, Option.bind_eq_some_iff, Option.pure_def, Option.some.injEq,
      exists_exists_and_eq_and, readDigits?_eq_some_iff]
    constructor
    · rintro ⟨m, hdigits, rfl⟩
      exact .minus hdigits
    · rintro (hdigits | _ | hdigits)
      · exact absurd hdigits (hsign (.inl rfl))
      · exact ⟨_, hdigits, rfl⟩
  · next cs =>
    simp only [Option.map_eq_some_iff, readDigits?_eq_some_iff]
    constructor
    · rintro ⟨m, hdigits, rfl⟩
      exact .plus hdigits
    · rintro (hdigits | hdigits | _)
      · exact absurd hdigits (hsign (.inr rfl))
      · exact ⟨_, hdigits, rfl⟩
  · next hminus hplus =>
    simp only [Option.map_eq_some_iff, readDigits?_eq_some_iff]
    constructor
    · rintro ⟨m, hdigits, rfl⟩
      exact .unsigned hdigits
    · rintro (hdigits | hdigits | hdigits)
      · exact ⟨_, hdigits, rfl⟩
      · exact absurd rfl (hplus _)
      · exact absurd rfl (hminus _)

/-- The range is that of the number with its sign, so the least integer is read, too. -/
theorem readInt64?_eq_some_iff {n : Int64} : readInt64? cs = some n ↔ Numeral cs n.toInt := by
  rw [readInt64?, Option.bind_eq_some_iff]
  simp only [int64?_eq_some_iff, readSigned?_eq_some_iff]
  exact ⟨fun ⟨_, hnumeral, hn⟩ => hn ▸ hnumeral, fun hnumeral => ⟨_, hnumeral, rfl⟩⟩

theorem digits_toDigits (n : Nat) : DigitRun (Nat.toDigits 10 n) n where
  nonempty := Nat.toDigits_ne_nil
  digits _ hc := Nat.isDigit_of_mem_toDigits (by decide) (by decide) hc
  value := by
    rw [← natOfDigits_eq_ofDigits]
    exact (Nat.ofDigitChars_toDigits (by decide) (by decide)).symm

theorem toDigits_inj {m n : Nat} : Nat.toDigits 10 m = Nat.toDigits 10 n ↔ m = n := by
  refine ⟨fun h => ?_, congrArg _⟩
  have hm := (digits_toDigits m).value
  rw [h] at hm
  exact hm.trans (digits_toDigits n).value.symm

theorem numeral_toString (n : Int) : Numeral (toString n).toList n := by
  cases n with
  | ofNat m =>
    have htext : (toString (Int.ofNat m)).toList = Nat.toDigits 10 m := Nat.toList_repr
    rw [htext]
    exact .unsigned (digits_toDigits m)
  | negSucc m =>
    have htext : (toString (Int.negSucc m)).toList = '-' :: Nat.toDigits 10 (m + 1) := by
      rw [← Nat.toList_repr]
      exact String.toList_append
    rw [htext]
    exact .minus (digits_toDigits (m + 1))

end Decimal

/-! ### White space -/

namespace Text

variable {before middle after : List Char}

theorem dropWhile_isBlank (hbefore : ∀ c ∈ before, isBlank c) (hhead : ∀ c ∈ middle.head?, isBlank c = false) :
    (before ++ middle).dropWhile isBlank = middle := by
  rw [List.dropWhile_append_of_pos hbefore]
  cases middle with
  | nil => rfl
  | cons c cs => exact List.dropWhile_cons_of_neg (by simp [hhead c rfl])

theorem trimChars_append (hbefore : ∀ c ∈ before, isBlank c) (hafter : ∀ c ∈ after, isBlank c) (hmiddle : middle ≠ [])
    (hhead : ∀ c ∈ middle.head?, isBlank c = false) (hlast : ∀ c ∈ middle.getLast?, isBlank c = false) :
    trimChars (before ++ (middle ++ after)) = middle := by
  have hhead' : ∀ c ∈ (middle ++ after).head?, isBlank c = false := by rwa [List.head?_append_of_ne_nil _ hmiddle]
  rw [trimChars, dropWhile_isBlank hbefore hhead', dropRightWhile, List.reverse_append]
  rw [dropWhile_isBlank (by simpa using hafter) (by simpa using hlast), List.reverse_reverse]

theorem isBlank_of_mem_takeWhile {cs : List Char} : ∀ c ∈ cs.takeWhile isBlank, isBlank c :=
  List.all_eq_true.mp List.all_takeWhile

theorem exists_blanks_around (cs : List Char) : ∃ before after : List Char,
    (∀ c ∈ before, isBlank c) ∧ (∀ c ∈ after, isBlank c) ∧ cs = before ++ (trimChars cs ++ after) := by
  have hright : cs.dropWhile isBlank =
      trimChars cs ++ ((cs.dropWhile isBlank).reverse.takeWhile isBlank).reverse := by
    rw [trimChars, dropRightWhile, ← List.reverse_append, List.takeWhile_append_dropWhile, List.reverse_reverse]
  refine ⟨cs.takeWhile isBlank, ((cs.dropWhile isBlank).reverse.takeWhile isBlank).reverse, isBlank_of_mem_takeWhile, ?_, ?_⟩
  · intro c hc
    exact isBlank_of_mem_takeWhile c (List.mem_reverse.mp hc)
  · rw [← hright, List.takeWhile_append_dropWhile]

end Text

/-- The text is a numeral of the integer, with any white space around it. -/
def Text.Shows (s : String) (n : Int) : Prop := ∃ before numeral after : List Char,
  (∀ c ∈ before, Text.isBlank c) ∧ (∀ c ∈ after, Text.isBlank c) ∧ s.toList = before ++ (numeral ++ after) ∧
    Decimal.Numeral numeral n

namespace Decimal

variable {cs : List Char} {n : Int}

theorem isBlank_of_isDigit {c : Char} (h : c.isDigit) : Text.isBlank c = false := by
  have hdigit := Char.isDigit_iff_toNat.mp h
  have hrange : 0x30 ≤ c.toNat ∧ c.toNat ≤ 0x39 := hdigit
  simp only [Text.isBlank, Text.blanks, List.any_cons, List.any_nil, Bool.or_false, Bool.or_eq_false_iff,
    Bool.and_eq_false_iff, decide_eq_false_iff_not]
  omega

theorem DigitRun.isBlank {m : Nat} (h : DigitRun cs m) : ∀ c ∈ cs, Text.isBlank c = false :=
  fun c hc => isBlank_of_isDigit (h.digits c hc)

theorem Numeral.isBlank (h : Numeral cs n) : ∀ c ∈ cs, Text.isBlank c = false := by
  cases h with
  | unsigned digits => exact digits.isBlank
  | plus digits => exact List.forall_mem_cons.mpr ⟨by decide, digits.isBlank⟩
  | minus digits => exact List.forall_mem_cons.mpr ⟨by decide, digits.isBlank⟩

theorem Numeral.nonempty (h : Numeral cs n) : cs ≠ [] := by
  cases h with
  | unsigned digits => exact digits.nonempty
  | plus | minus => exact List.cons_ne_nil _ _

theorem numeral_trimChars_iff {s : String} : Numeral (Text.trimChars s.toList) n ↔ Text.Shows s n := by
  constructor
  · intro h
    obtain ⟨before, after, hbefore, hafter, htext⟩ := Text.exists_blanks_around s.toList
    exact ⟨before, _, after, hbefore, hafter, htext, h⟩
  · rintro ⟨before, numeral, after, hbefore, hafter, htext, hnumeral⟩
    rw [htext, Text.trimChars_append hbefore hafter hnumeral.nonempty]
    · exact hnumeral
    · exact fun c hc => hnumeral.isBlank c (List.mem_of_mem_head? hc)
    · exact fun c hc => hnumeral.isBlank c (List.mem_of_mem_getLast? hc)

end Decimal

/-! ### Reading and writing -/

namespace Scalar

theorem toInteger_eq_ok_iff {s : String} {v : Value} :
    toInteger [.text s] = .ok v ↔ ∃ n : Int64, v = .integer n ∧ Text.Shows s n.toInt := by
  simp only [toInteger, ← Decimal.numeral_trimChars_iff, ← Decimal.readInt64?_eq_some_iff]
  cases Decimal.readInt64? (Text.trimChars s.toList) with
  | none => simp
  | some n => simp [eq_comm]

theorem toInteger_eq_error {s : String} (h : ∀ n : Int64, ¬ Text.Shows s n.toInt) :
    toInteger [.text s] = .error (.notAnInteger s) := by
  simp only [← Decimal.numeral_trimChars_iff, ← Decimal.readInt64?_eq_some_iff] at h
  rw [toInteger, Option.eq_none_iff_forall_ne_some.mpr h]

end Scalar

/-- The methods `ToString` of an integer and `ToInt` of a text: the second gives back the integer that the first has
written, whatever white space is put around the text; it accepts exactly the numerals of 64-bit integers, with the numbers
that they stand for, and refuses every other text. -/
theorem integer_text_reads_back :
    (Catalog.standard.resolveMethod "ToString" [.integer] =
      .ok ⟨"ToString", [.integer], .text, .scalar Scalar.toText⟩ ∧
      Catalog.standard.resolveMethod "ToInt" [.text] = .ok ⟨"ToInt", [.text], .integer, .scalar Scalar.toInteger⟩) ∧
    (∀ (n : Int64) (before after : String), (∀ c ∈ before.toList, Text.isBlank c) → (∀ c ∈ after.toList, Text.isBlank c) →
      ∃ text, Scalar.toText [.integer n] = .ok (.text text) ∧
        Scalar.toInteger [.text (before ++ text ++ after)] = .ok (.integer n)) ∧
    ∀ s : String,
      (∀ v, Scalar.toInteger [.text s] = .ok v ↔ ∃ n : Int64, v = .integer n ∧ Text.Shows s n.toInt) ∧
      ((∀ n : Int64, ¬ Text.Shows s n.toInt) → Scalar.toInteger [.text s] = .error (.notAnInteger s)) := by
  refine ⟨⟨rfl, rfl⟩, ?_, fun s => ⟨fun v => Scalar.toInteger_eq_ok_iff, Scalar.toInteger_eq_error⟩⟩
  intro n before after hbefore hafter
  refine ⟨toString n.toInt, rfl, Scalar.toInteger_eq_ok_iff.mpr ⟨n, rfl, ?_⟩⟩
  refine ⟨before.toList, (toString n.toInt).toList, after.toList, hbefore, hafter, ?_, Decimal.numeral_toString n.toInt⟩
  rw [String.toList_append, String.toList_append, List.append_assoc]

/-- The least integer between blanks of two kinds, and the integer after the greatest. -/
theorem integer_text_reads_back_bounds :
    Scalar.toInteger [.text "\u3000-9223372036854775808\n"] = .ok (.integer Int64.minValue) ∧
    (∀ n : Int64, ¬ Text.Shows "9223372036854775808" n.toInt) ∧
      Scalar.toInteger [.text "9223372036854775808"] = .error (.notAnInteger "9223372036854775808") := by
  obtain ⟨-, hback, hexact⟩ := integer_text_reads_back
  obtain ⟨text, htext, hread⟩ := hback Int64.minValue "\u3000" "\n" (by simp; decide) (by simp; decide)
  cases htext
  have hnone : ∀ n : Int64, ¬ Text.Shows "9223372036854775808" n.toInt := by
    intro n hshows
    have hread := ((hexact "9223372036854775808").1 (.integer n)).mpr ⟨n, rfl, hshows⟩
    cases hread
  exact ⟨hread, hnone, (hexact _).2 hnone⟩

end TabularQuery
