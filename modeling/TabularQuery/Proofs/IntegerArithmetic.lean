import Mathlib.Algebra.Group.Int.Defs
import TabularQuery.Proofs.ExprRun

/-!
Arithmetic of 64-bit integers. An operation gives the result that it has in the integers, if that is in range, and
is refused otherwise. One remainder is refused although it is in range, that of the least integer by -1: it comes with
a quotient that is out of range.
-/

namespace TabularQuery

/-! ### Exact results -/

/-- Division toward zero: the rest is smaller than the divisor and on the same side of zero as the dividend. -/
structure Truncates (dividend divisor quotient rest : Int) : Prop where
  whole : dividend = quotient * divisor + rest
  small : rest.natAbs < divisor.natAbs
  side : (0 ≤ dividend → 0 ≤ rest) ∧ (dividend ≤ 0 → rest ≤ 0)

/-- The result of an operation in the integers. -/
def BinaryOp.Exact : BinaryOp → Int → Int → Int → Prop
  | .add, a, b, r => r = a + b
  | .sub, a, b, r => r = a - b
  | .mul, a, b, r => r = a * b
  | .div, a, b, r => ∃ rest, Truncates a b r rest
  | .mod, a, b, r => ∃ quotient, Truncates a b quotient r
  | _, _, _, _ => False

section Truncation

variable {a b q r : Int}

theorem tmod_nonpos (b : Int) (ha : a ≤ 0) : a.tmod b ≤ 0 := by
  have h := Int.tmod_nonneg b (Int.neg_nonneg_of_nonpos ha)
  rw [Int.neg_tmod] at h
  omega

theorem truncates_tdiv_tmod (hb : b ≠ 0) : Truncates a b (a.tdiv b) (a.tmod b) where
  whole := (Int.tdiv_mul_add_tmod a b).symm
  small := by
    rw [Int.natAbs_tmod]
    exact Nat.mod_lt _ (Int.natAbs_pos.mpr hb)
  side := ⟨Int.tmod_nonneg b, tmod_nonpos b⟩

theorem Truncates.eq_tdiv_tmod (h : Truncates a b q r) : q = a.tdiv b ∧ r = a.tmod b := by
  obtain ⟨hwhole, hsmall, hpos, hneg⟩ := h
  have hb : b ≠ 0 := by omega
  rw [Int.mul_comm] at hwhole
  have hunique : a.tdiv b = q ∧ a.tmod b = r := by
    rcases Int.le_total 0 a with ha | ha
    · have hr := hpos ha
      exact (Int.tdiv_tmod_unique ha hb).mpr ⟨by omega, hr, by omega⟩
    · have hr := hneg ha
      exact (Int.tdiv_tmod_unique' ha hb).mpr ⟨by omega, by omega, hr⟩
  exact ⟨hunique.1.symm, hunique.2.symm⟩

theorem exact_div_iff : BinaryOp.div.Exact a b r ↔ b ≠ 0 ∧ r = a.tdiv b := by
  constructor
  · rintro ⟨rest, h⟩
    exact ⟨fun hb => by simpa [hb] using h.small, h.eq_tdiv_tmod.1⟩
  · rintro ⟨hb, rfl⟩
    exact ⟨_, truncates_tdiv_tmod hb⟩

theorem exact_mod_iff : BinaryOp.mod.Exact a b r ↔ b ≠ 0 ∧ r = a.tmod b := by
  constructor
  · rintro ⟨quotient, h⟩
    exact ⟨fun hb => by simpa [hb] using h.small, h.eq_tdiv_tmod.2⟩
  · rintro ⟨hb, rfl⟩
    exact ⟨_, truncates_tdiv_tmod hb⟩

end Truncation

/-! ### Ranges -/

section Ranges

variable {a b : Int64}

theorem exists_int64_iff {n : Int} : (∃ r : Int64, r.toInt = n) ↔ -2 ^ 63 ≤ n ∧ n < 2 ^ 63 := by
  constructor
  · rintro ⟨r, rfl⟩
    exact ⟨r.le_toInt, r.toInt_lt⟩
  · rintro ⟨hle, hlt⟩
    exact ⟨Int64.ofInt n, Int64.toInt_ofInt_of_le hle hlt⟩

/-- All quotients but one are in range. -/
theorem exists_int64_tdiv_iff (hb : b.toInt ≠ 0) :
    (∃ q : Int64, q.toInt = a.toInt.tdiv b.toInt) ↔ ¬(a = Int64.minValue ∧ b = -1) := by
  have ha := exists_int64_iff.mp ⟨a, rfl⟩
  rw [exists_int64_iff]
  constructor
  · rintro hrange ⟨rfl, rfl⟩
    exact absurd hrange (by decide)
  · intro hother
    have hsmall : (a.toInt.tdiv b.toInt).natAbs ≤ a.toInt.natAbs := Int.natAbs_tdiv_le_natAbs _ _
    by_cases hone : b.toInt = 1
    · rw [hone, Int.tdiv_one]
      exact ha
    by_cases hminus : b.toInt = -1
    · -- the quotient is `-a`
      have hmin : a.toInt ≠ -2 ^ 63 := fun h => hother
        ⟨Int64.toInt_inj.mp (h.trans Int64.toInt_minValue.symm), Int64.toInt_inj.mp hminus⟩
      omega
    · have hhalf : (a.toInt.tdiv b.toInt).natAbs ≤ a.toInt.natAbs / 2 := by
        rw [Int.natAbs_tdiv]
        exact Nat.div_le_div_left (by omega) (by decide)
      omega

end Ranges

/-! ### Operations -/

namespace Number

variable {a b : Int64} {z : Number} {e : Error}

theorem ofInt_eq_ok_iff {n : Int} : ofInt n = .ok z ↔ ∃ r : Int64, z = .integer r ∧ r.toInt = n := by
  unfold ofInt
  cases h : Decimal.int64? n with
  | none =>
    simp only [reduceCtorEq, false_iff, not_exists, not_and]
    intro r _ hr
    rw [Decimal.int64?_eq_some_iff.mpr hr] at h
    cases h
  | some i =>
    have hi := Decimal.int64?_eq_some_iff.mp h
    constructor
    · intro hz
      cases hz
      exact ⟨i, rfl, hi⟩
    · rintro ⟨r, rfl, hr⟩
      rw [Int64.toInt_inj.mp (hi.trans hr.symm)]

theorem code_of_ofInt {n : Int} (h : ofInt n = .error e) : e.code = .arithmetic := by
  unfold ofInt at h
  split at h
  · cases h
  · cases h
    rfl

theorem div_eq_ok_iff : div (.integer a) (.integer b) = .ok z ↔
    ∃ r : Int64, z = .integer r ∧ BinaryOp.div.Exact a.toInt b.toInt r.toInt := by
  simp only [div, exact_div_iff]
  by_cases hb : b = 0
  · simp [hb]
  · rw [if_neg hb, ofInt_eq_ok_iff]
    have hb' : b.toInt ≠ 0 := fun h => hb (Int64.toInt_inj.mp h)
    simp only [hb', ne_eq, not_false_eq_true, true_and]

/-- The remainder is computed only if the quotient is in range. -/
theorem rem_eq_ok_iff : rem (.integer a) (.integer b) = .ok z ↔
    ∃ r : Int64, z = .integer r ∧ BinaryOp.mod.Exact a.toInt b.toInt r.toInt ∧ ¬(a = Int64.minValue ∧ b = -1) := by
  simp only [rem, exact_mod_iff]
  by_cases hb : b = 0
  · simp [hb]
  · have hb' : b.toInt ≠ 0 := fun h => hb (Int64.toInt_inj.mp h)
    rw [if_neg hb, except_bind_eq_ok, ← exists_int64_tdiv_iff hb']
    simp only [ofInt_eq_ok_iff]
    constructor
    · rintro ⟨_, ⟨q, _, hq⟩, r, hz, hr⟩
      exact ⟨r, hz, ⟨hb', hr⟩, q, hq⟩
    · rintro ⟨r, hz, ⟨_, hr⟩, q, hq⟩
      exact ⟨_, ⟨q, rfl, hq⟩, r, hz, hr⟩

theorem code_of_div (h : div (.integer a) (.integer b) = .error e) : e.code = .arithmetic := by
  rw [div] at h
  split at h
  · cases h
    rfl
  · exact code_of_ofInt h

theorem code_of_rem (h : rem (.integer a) (.integer b) = .error e) : e.code = .arithmetic := by
  rw [rem] at h
  split at h
  · cases h
    rfl
  · cases hq : ofInt (a.toInt.tdiv b.toInt) with
    | ok q =>
      rw [hq] at h
      exact code_of_ofInt h
    | error e' =>
      rw [hq] at h
      cases h
      exact code_of_ofInt hq

end Number

section Operations

variable {op : BinaryOp} {F : Number → Number → Except Error Number} (hF : op.onNumbers? = some F) (a b : Int64)
include hF

theorem onIntegers_eq_ok_iff (z : Number) : F (.integer a) (.integer b) = .ok z ↔
    ∃ r : Int64, z = .integer r ∧ op.Exact a.toInt b.toInt r.toInt ∧ ¬(op = .mod ∧ a = Int64.minValue ∧ b = -1) := by
  cases op with
  | mod =>
    cases hF
    simp only [Number.rem_eq_ok_iff, true_and]
  | div =>
    cases hF
    simp only [Number.div_eq_ok_iff, reduceCtorEq, false_and, not_false_eq_true, and_true]
  | add | sub | mul =>
    cases hF
    simp only [Number.add, Number.sub, Number.mul, Number.ofInt_eq_ok_iff, BinaryOp.Exact, reduceCtorEq, false_and,
      not_false_eq_true, and_true]
  | _ => cases hF

theorem code_of_onIntegers {e : Error} (h : F (.integer a) (.integer b) = .error e) : e.code = .arithmetic := by
  cases op with
  | mod =>
    cases hF
    exact Number.code_of_rem h
  | div =>
    cases hF
    exact Number.code_of_div h
  | add | sub | mul =>
    cases hF
    exact Number.code_of_ofInt h
  | _ => cases hF

end Operations

/-! ### On the machine -/

namespace Machine

/-- The instruction takes its operands off the stacks and pushes the result, or it fails with the error. -/
def Computes (op : Instruction) (operands : List Value) (result : Except Error Number) : Prop :=
  ∀ (ctx : RunContext) (m : Machine) (f : Frame),
    (∀ z, result = .ok z →
      exec ctx op { m with frame := f.pushAll operands } = .ok .next { m with frame := f.push z.toValue }) ∧
    ∀ e, result = .error e → exec ctx op { m with frame := f.pushAll operands } = .error e { m with frame := f }

theorem computes_of_acts {op : Instruction} {x : FrameAction Unit} {operands : List Value} {result : Except Error Number}
    (hacts : ∀ ctx, Acts ctx op x) (hx : ∀ f : Frame, x (f.pushAll operands) = match result with
      | .ok z => .ok ⟨⟩ (f.push z.toValue)
      | .error e => .error e f) : Computes op operands result := by
  intro ctx m f
  rw [hacts ctx, bind_apply, onFrame, hx]
  constructor
  · rintro z rfl
    rfl
  · rintro e rfl
    rfl

theorem computes_onNumbers {op : BinaryOp} {F : Number → Number → Except Error Number} (hF : op.onNumbers? = some F)
    (x y : Number) : Computes (.operation op .integer .integer) [x.toValue, y.toValue] (F x y) := by
  have hop : op.decidedBy? = none := by cases op <;> first | rfl | cases hF
  refine computes_of_acts (fun ctx => acts_operation ctx hop .integer .integer) fun f => ?_
  simp only [BinaryOp.act_onNumbers hF (by decide : ColumnType.integer ≠ .text), Frame.arithmetic, Frame.pushAll_cons,
    Frame.pushAll_nil, bind_apply, Frame.popNumber_push, ofExcept_apply]
  cases F x y <;> rfl

theorem computes_neg (x : Number) : Computes { opcode := .negate } [x.toValue] x.neg := by
  refine computes_of_acts (fun ctx => acts_unary ctx .neg) fun f => ?_
  simp only [UnaryOp.act, Frame.pushAll_cons, Frame.pushAll_nil, bind_apply, Frame.popNumber_push, ofExcept_apply]
  cases x.neg <;> rfl

end Machine

/-- Integers are computed with exactly or not at all: an operation gives the result that it has in the integers, if that
has 64 bits, and fails with an arithmetic error otherwise, and so does its instruction on the machine. The exception is
the remainder of the least integer by -1, which is refused. -/
theorem integer_arithmetic_exact :
    (∀ (op : BinaryOp) (F : Number → Number → Except Error Number), op.onNumbers? = some F → ∀ a b : Int64,
      (∀ z, F (.integer a) (.integer b) = .ok z ↔ ∃ r : Int64, z = .integer r ∧
        op.Exact a.toInt b.toInt r.toInt ∧ ¬(op = .mod ∧ a = Int64.minValue ∧ b = -1)) ∧
      (∀ e, F (.integer a) (.integer b) = .error e → e.code = .arithmetic) ∧
      Machine.Computes (.operation op .integer .integer) [.integer a, .integer b] (F (.integer a) (.integer b))) ∧
    (∀ a : Int64,
      (∀ z, Number.neg (.integer a) = .ok z ↔ ∃ r : Int64, z = .integer r ∧ r.toInt = -a.toInt) ∧
      (∀ e, Number.neg (.integer a) = .error e → e.code = .arithmetic) ∧
      Machine.Computes { opcode := .negate } [.integer a] (Number.neg (.integer a))) ∧
    ∀ a b q r : Int64, Number.div (.integer a) (.integer b) = .ok (.integer q) →
      Number.rem (.integer a) (.integer b) = .ok (.integer r) → a.toInt = q.toInt * b.toInt + r.toInt := by
  refine ⟨?_, ?_, ?_⟩
  · intro op F hF a b
    exact ⟨onIntegers_eq_ok_iff hF a b, fun e => code_of_onIntegers hF a b,
      Machine.computes_onNumbers hF (.integer a) (.integer b)⟩
  · intro a
    exact ⟨fun z => Number.ofInt_eq_ok_iff, fun e => Number.code_of_ofInt, Machine.computes_neg (.integer a)⟩
  · intro a b q r hdiv hrem
    obtain ⟨_, hq, hdivides⟩ := Number.div_eq_ok_iff.mp hdiv
    obtain ⟨_, hr, hleaves, _⟩ := Number.rem_eq_ok_iff.mp hrem
    cases hq
    cases hr
    rw [(exact_div_iff.mp hdivides).2, (exact_mod_iff.mp hleaves).2, Int.tdiv_mul_add_tmod]

theorem integer_arithmetic_exact_negative :
    (BinaryOp.mod.onNumbers? = some Number.rem ∧ Number.rem (.integer (-7)) (.integer 2) = .ok (.integer (-1))) ∧
    (Number.div (.integer (-7)) (.integer 2) = .ok (.integer (-3)) ∧
      (-7 : Int64).toInt = (-3 : Int64).toInt * (2 : Int64).toInt + (-1 : Int64).toInt) := by
  have htruncates : Truncates (-7 : Int64).toInt (2 : Int64).toInt (-3 : Int64).toInt (-1 : Int64).toInt :=
    ⟨by decide, by decide, by decide⟩
  have hrem : Number.rem (.integer (-7)) (.integer 2) = .ok (.integer (-1)) :=
    ((integer_arithmetic_exact.1 .mod Number.rem rfl (-7) 2).1 _).mpr ⟨-1, rfl, ⟨_, htruncates⟩, by decide⟩
  have hdiv : Number.div (.integer (-7)) (.integer 2) = .ok (.integer (-3)) :=
    ((integer_arithmetic_exact.1 .div Number.div rfl (-7) 2).1 _).mpr ⟨-3, rfl, ⟨_, htruncates⟩, by decide⟩
  exact ⟨⟨rfl, hrem⟩, hdiv, integer_arithmetic_exact.2.2 _ _ _ _ hdiv hrem⟩

/-- The remainder of the least integer by -1 is zero, and it is refused. -/
theorem least_remainder_refused :
    BinaryOp.mod.Exact Int64.minValue.toInt (-1 : Int64).toInt (0 : Int64).toInt ∧
      Number.rem (.integer Int64.minValue) (.integer (-1)) = .error .overflow :=
  ⟨⟨2 ^ 63, by decide, by decide, by decide⟩, rfl⟩

end TabularQuery
