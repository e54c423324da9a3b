/-
The shortest decimal of a double belongs to no other double.

The reals that round to a double lie between two ends, half a step above it and half a step
below, or a quarter where steps get shorter.  The ends belong to it exactly if its significand
is even.  Of two doubles next to each other only one has an even significand, so no real
belongs to both.

What is printed lies between the ends whatever the digits are, as long as the search finds any.
It does at the seventeenth digit at the latest: there two points of the grid next to each other
are closer than the ends are.
-/
import Mathlib.Algebra.Order.Field.Rat
import Mathlib.Algebra.Order.Field.Power
import Mathlib.Tactic.Linarith
import Mathlib.Tactic.NormNum
import Mathlib.Tactic.Positivity
import Mathlib.Tactic.Ring
import Mathlib.Tactic.FieldSimp
import SchemaBundle.Decimal.Shortest

namespace SchemaBundle

/-- The number that digits and a power of ten stand for. -/
def Scientific.value (s : Scientific) : ℚ :=
  s.digits * 10 ^ s.exponent

namespace Double

/-! ### The ends -/

/-- A quarter of the step from a double to the next one. -/
def quarter (x : Double) : ℚ :=
  2 ^ (x.exponent - 2)

/-- How many quarters the lower end is away. -/
def reach (x : Double) : Nat :=
  if x.significand = Nat.pow 2 52 ∧ -1074 < x.exponent then 1 else 2

/-- The value without its sign. -/
def size (x : Double) : ℚ :=
  4 * x.significand * x.quarter

/-- The lower end. -/
def low (x : Double) : ℚ :=
  (4 * x.significand - x.reach) * x.quarter

/-- The upper end. -/
def high (x : Double) : ℚ :=
  (4 * x.significand + 2) * x.quarter

variable {x y : Double}

theorem eq_of_parts (hn : x.negative = y.negative) (hm : x.significand = y.significand)
    (he : x.exponent = y.exponent) : x = y := by
  cases x
  cases y
  simp_all

theorem quarter_pos (x : Double) : 0 < x.quarter :=
  zpow_pos (by norm_num) _

theorem quarter_mul_four (x : Double) : x.quarter * 4 = 2 ^ x.exponent := by
  rw [quarter, zpow_sub₀ (by norm_num)]
  norm_num

theorem reach_eq (x : Double) :
    x.reach = 1 ∧ x.significand = 2 ^ 52 ∧ -1074 < x.exponent ∨
      x.reach = 2 ∧ (x.significand = 2 ^ 52 → x.exponent ≤ -1074) := by
  unfold reach
  split
  · rename_i hpow
    exact Or.inl ⟨rfl, hpow⟩
  · rename_i hpow
    exact Or.inr ⟨rfl, fun hbit => not_lt.mp fun hexponent => hpow ⟨hbit, hexponent⟩⟩

theorem reach_pos (x : Double) : 1 ≤ x.reach := by
  rcases x.reach_eq with h | h <;> omega

theorem reach_le (x : Double) : x.reach ≤ 2 := by
  rcases x.reach_eq with h | h <;> omega

theorem significand_lt (x : Double) : x.significand < 2 ^ 53 :=
  x.normal.1

theorem significand_pos (h : x.isZero = false) : 0 < x.significand := by
  refine Nat.pos_of_ne_zero fun hzero => ?_
  simp [isZero, hzero] at h

/-- Above the smallest exponent the leading bit is in place. -/
theorem le_significand (h : -1074 < x.exponent) : 2 ^ 52 ≤ x.significand := by
  rcases x.normal.2.2.2 with hbit | hexponent
  · exact hbit
  · omega

theorem parts_of_isZero (h : x.isZero = true) : x.significand = 0 ∧ x.exponent = -1074 := by
  have hm : x.significand = 0 := by simpa [isZero] using h
  refine ⟨hm, ?_⟩
  rcases x.normal.2.2.2 with hbit | hexponent
  · rw [hm] at hbit
    exact absurd hbit (by decide)
  · exact hexponent

theorem low_pos (h : x.isZero = false) : 0 < x.low := by
  refine mul_pos ?_ x.quarter_pos
  have hm : (1 : ℚ) ≤ x.significand := by exact_mod_cast significand_pos h
  have hr : (x.reach : ℚ) ≤ 2 := by exact_mod_cast x.reach_le
  linarith

/-- A double lies between its ends. -/
theorem low_lt_size (x : Double) : x.low < x.size := by
  have hr : (1 : ℚ) ≤ x.reach := by exact_mod_cast x.reach_pos
  refine mul_lt_mul_of_pos_right ?_ x.quarter_pos
  linarith

theorem size_lt_high (x : Double) : x.size < x.high := by
  refine mul_lt_mul_of_pos_right ?_ x.quarter_pos
  linarith

/-! ### No real rounds to two doubles -/

/-- The upper end of a double is not above the lower end of a larger one, and where the ends
meet one of the two significands is odd. -/
theorem high_le_low (h : x.exponent < y.exponent ∨
      x.exponent = y.exponent ∧ x.significand < y.significand) :
    x.high ≤ y.low ∧ (x.high = y.low → ¬ (x.significand % 2 = 0 ∧ y.significand % 2 = 0)) := by
  obtain ⟨k, hk⟩ : ∃ k : ℕ, y.exponent = x.exponent + k :=
    ⟨(y.exponent - x.exponent).toNat, by omega⟩
  have hquarter : y.quarter = 2 ^ k * x.quarter := by
    rw [quarter, quarter, hk, ← zpow_natCast, ← zpow_add₀ (by norm_num)]
    congr 1
    ring
  have hx := x.significand_lt
  have hreach := y.reach_eq
  -- in quarters of the smaller double
  have hends : (4 * x.significand + 2 : ℤ) ≤ (4 * y.significand - y.reach) * 2 ^ k ∧
      ((4 * x.significand + 2 : ℤ) = (4 * y.significand - y.reach) * 2 ^ k →
        ¬ (x.significand % 2 = 0 ∧ y.significand % 2 = 0)) := by
    cases k with
    | zero =>
        have hlt : x.significand < y.significand := by omega
        have hnormal : y.reach = 1 → 2 ^ 52 ≤ x.significand := fun hone => by
          refine le_significand ?_
          omega
        rw [pow_zero, mul_one]
        omega
    | succ k =>
        have hmin := x.normal.2.1
        have hbit : 2 ^ 52 ≤ y.significand := le_significand (by omega)
        have hlow : (2 ^ 54 - 1 : ℤ) ≤ 4 * y.significand - y.reach := by omega
        have hstep : (2 : ℤ) ≤ 2 ^ (k + 1) := by
          calc (2 : ℤ) = 2 ^ 1 := by norm_num
            _ ≤ 2 ^ (k + 1) := pow_le_pow_right₀ (by norm_num) (by omega)
        have hwide : (2 ^ 54 - 1 : ℤ) * 2 ≤ (4 * y.significand - y.reach) * 2 ^ (k + 1) :=
          mul_le_mul hlow hstep (by norm_num) (by omega)
        omega
  have hlow : y.low = (4 * y.significand - y.reach) * 2 ^ k * x.quarter := by
    rw [low, hquarter, mul_assoc]
  have hpos := x.quarter_pos
  rw [hlow, high]
  constructor
  · refine mul_le_mul_of_nonneg_right ?_ hpos.le
    exact_mod_cast hends.1
  · intro heq
    refine hends.2 ?_
    have hcancel := mul_right_cancel₀ hpos.ne' heq
    exact_mod_cast hcancel

/-! ### Points of an interval -/

theorem pow_length_toDigits_le {n : ℕ} (h : 0 < n) :
    10 ^ ((Nat.toDigits 10 n).length - 1) ≤ n := by
  rcases Nat.eq_zero_or_pos ((Nat.toDigits 10 n).length - 1) with hzero | hpos
  · rwa [hzero]
  · refine not_lt.mp fun hlt => ?_
    have hshort := (Nat.length_toDigits_le_iff (by decide) hpos).mpr hlt
    omega

namespace Interval

variable {i : Interval} {q : ℚ} {unit : Int} {n : ℕ}

/-- A real belongs to the interval. -/
def Holds (i : Interval) (q : ℚ) : Prop :=
  if i.closed then i.lower ≤ q * i.denominator ∧ q * i.denominator ≤ i.upper
  else i.lower < q * i.denominator ∧ q * i.denominator < i.upper

theorem contains_iff : i.contains n = true ↔ i.Holds n := by
  unfold contains Holds
  cases i.closed
  · simp only [Bool.false_eq_true, if_false, Bool.and_eq_true, decide_eq_true_eq]
    exact_mod_cast Iff.rfl
  · simp only [if_true, Bool.and_eq_true, decide_eq_true_eq]
    exact_mod_cast Iff.rfl

/-- To change the unit is to scale both sides. -/
theorem exists_inUnits_eq (i : Interval) (unit : Int) :
    ∃ a b : ℕ, 0 < a ∧ 0 < b ∧ (b : ℚ) = a * 10 ^ unit ∧
      i.inUnits unit = ⟨i.value * a, i.lower * a, i.upper * a, i.denominator * b, i.closed⟩ := by
  unfold inUnits
  split
  · rename_i h
    refine ⟨1, 10 ^ unit.toNat, one_pos, by positivity, ?_, by simp⟩
    conv_rhs => rw [← Int.toNat_of_nonneg h]
    push_cast
    rw [one_mul, zpow_natCast]
  · rename_i h
    obtain ⟨k, rfl⟩ : ∃ k : ℕ, unit = -(k : ℤ) := ⟨(-unit).toNat, by omega⟩
    refine ⟨10 ^ k, 1, by positivity, one_pos, ?_, by simp⟩
    push_cast
    rw [zpow_neg, zpow_natCast]
    field_simp

theorem holds_inUnits : (i.inUnits unit).Holds q ↔ i.Holds (q * 10 ^ unit) := by
  obtain ⟨a, b, ha, -, hb, heq⟩ := i.exists_inUnits_eq unit
  have hpos : (0 : ℚ) < a := by exact_mod_cast ha
  have hscale : q * ((i.denominator * b : ℕ) : ℚ) = q * 10 ^ unit * i.denominator * a := by
    push_cast
    rw [hb]
    ring
  unfold Holds
  rw [heq]
  simp only [hscale]
  push_cast
  simp only [mul_le_mul_iff_left₀ hpos, mul_lt_mul_iff_left₀ hpos]

/-- What the search finds belongs to the interval. -/
theorem holds_of_gridPoint? (h : i.gridPoint? unit = some n) : i.Holds (n * 10 ^ unit) := by
  rw [← holds_inUnits, ← contains_iff]
  unfold gridPoint? at h
  simp only at h
  split at h
  · rename_i hbelow _
    exact Option.some.inj h ▸ hbelow
  · rename_i _ habove
    exact Option.some.inj h ▸ habove
  · simp at h
  · rename_i hbelow habove
    split at h
    · exact Option.some.inj h ▸ hbelow
    · exact Option.some.inj h ▸ habove

/-- Where the search finds nothing, the two points next to the value do not belong to it. -/
theorem exists_of_gridPoint?_eq_none (hd : 0 < i.denominator) (h : i.gridPoint? unit = none) :
    ∃ n : ℕ, (n : ℚ) * 10 ^ unit * i.denominator ≤ i.value ∧
      i.value < ((n : ℚ) + 1) * 10 ^ unit * i.denominator ∧
      ¬ i.Holds (n * 10 ^ unit) ∧ ¬ i.Holds ((n + 1) * 10 ^ unit) := by
  obtain ⟨a, b, ha, hb, hba, heq⟩ := i.exists_inUnits_eq unit
  have hpos : (0 : ℚ) < a := by exact_mod_cast ha
  have hscale : ∀ n : ℕ, ((n * (i.denominator * b) : ℕ) : ℚ) =
      n * 10 ^ unit * i.denominator * a := by
    intro n
    push_cast
    rw [hba]
    ring
  have hden : 0 < i.denominator * b := Nat.mul_pos hd hb
  refine ⟨(i.inUnits unit).value / (i.inUnits unit).denominator, ?_, ?_, ?_⟩
  · rw [← mul_le_mul_iff_left₀ hpos, ← hscale, heq]
    exact_mod_cast Nat.div_mul_le_self _ _
  · rw [← mul_lt_mul_iff_left₀ hpos, ← Nat.cast_add_one, ← hscale, heq, Nat.mul_comm]
    exact_mod_cast Nat.lt_mul_div_succ _ hden
  · rw [← Nat.cast_add_one, ← holds_inUnits, ← holds_inUnits, ← contains_iff, ← contains_iff]
    unfold gridPoint? at h
    simp only at h
    split at h
    · simp at h
    · simp at h
    · rename_i hbelow habove
      simp [hbelow, habove]
    · split at h <;> simp at h

/-- The value has no fewer digits in front of the point than its position says. -/
theorem pow_pointPosition_le (hd : 0 < i.denominator)
    (h : ∀ n, 358 ≤ n → i.denominator ≤ i.value * Nat.pow 10 n) :
    (10 : ℚ) ^ (i.pointPosition - 1) * i.denominator ≤ i.value := by
  have hdigits := pow_length_toDigits_le (Nat.div_pos (h 400 (by decide)) hd)
  have hlength := Nat.length_toDigits_pos (b := 10)
    (n := i.value * Nat.pow 10 400 / i.denominator)
  have hposition : i.pointPosition =
      (Nat.toDigits 10 (i.value * Nat.pow 10 400 / i.denominator)).length - (400 : ℕ) := rfl
  generalize (Nat.toDigits 10 (i.value * Nat.pow 10 400 / i.denominator)).length = length at *
  generalize 400 = shift at *
  obtain ⟨k, rfl⟩ := Nat.exists_eq_add_one.mpr hlength
  have hle : (10 : ℚ) ^ k * i.denominator ≤ i.value * 10 ^ shift := by
    exact_mod_cast (Nat.le_div_iff_mul_le hd).mp hdigits
  have hexponent : i.pointPosition - 1 = (k : ℤ) - shift := by
    rw [hposition]
    push_cast
    ring
  rw [hexponent, zpow_sub₀ (by norm_num), zpow_natCast, zpow_natCast, div_mul_eq_mul_div,
    div_le_iff₀ (by positivity)]
  exact hle

end Interval

/-! ### The interval of a double -/

theorem interval_spec (h : x.isZero = false) : 0 < x.interval.denominator ∧
    (x.interval.value : ℚ) = x.size * x.interval.denominator ∧
    (x.interval.lower : ℚ) = x.low * x.interval.denominator ∧
    (x.interval.upper : ℚ) = x.high * x.interval.denominator ∧
    x.interval.closed = (x.significand % 2 == 0) := by
  have hreach : x.reach ≤ 4 * x.significand := by
    have := x.reach_le
    have := significand_pos h
    omega
  obtain ⟨scale, hscale, hpos, heq⟩ : ∃ scale : ℕ,
      (scale : ℚ) = x.quarter * x.interval.denominator ∧ 0 < x.interval.denominator ∧
      x.interval = ⟨4 * x.significand * scale, (4 * x.significand - x.reach) * scale,
        (4 * x.significand + 2) * scale, x.interval.denominator, x.significand % 2 == 0⟩ := by
    have hquarter := x.quarter_mul_four
    unfold interval
    by_cases hexponent : 0 ≤ x.exponent
    · obtain ⟨k, hk⟩ := Int.eq_ofNat_of_zero_le hexponent
      simp only [if_pos hexponent]
      refine ⟨2 ^ x.exponent.toNat, ?_, by decide, rfl⟩
      push_cast
      rw [hquarter, hk, Int.toNat_natCast, zpow_natCast]
    · obtain ⟨k, hk⟩ : ∃ k : ℕ, x.exponent = -(k : ℤ) := ⟨(-x.exponent).toNat, by omega⟩
      simp only [if_neg hexponent]
      refine ⟨1, ?_, Nat.mul_pos (by decide) (Nat.pow_pos (by decide)), rfl⟩
      rw [hk, neg_neg, Int.toNat_natCast, Nat.pow_eq]
      push_cast
      rw [← mul_assoc, hquarter, hk, zpow_neg, zpow_natCast]
      field_simp
  refine ⟨hpos, ?_, ?_, ?_, by rw [heq]⟩
  · rw [size, mul_assoc, ← hscale, heq]
    push_cast
    ring
  · rw [low, mul_assoc, ← hscale, heq]
    push_cast [Nat.cast_sub hreach]
    ring
  · rw [high, mul_assoc, ← hscale, heq]
    push_cast
    ring

theorem holds_interval_iff (h : x.isZero = false) {q : ℚ} : x.interval.Holds q ↔
    if x.significand % 2 = 0 then x.low ≤ q ∧ q ≤ x.high else x.low < q ∧ q < x.high := by
  obtain ⟨hd, -, hlower, hupper, hclosed⟩ := interval_spec h
  have hpos : (0 : ℚ) < x.interval.denominator := by exact_mod_cast hd
  unfold Interval.Holds
  rw [hclosed, hlower, hupper]
  simp only [mul_le_mul_iff_left₀ hpos, mul_lt_mul_iff_left₀ hpos, beq_iff_eq]

theorem holds_interval_of_lt (h : x.isZero = false) {q : ℚ} (hlow : x.low < q)
    (hhigh : q < x.high) : x.interval.Holds q := by
  rw [holds_interval_iff h]
  split
  · exact ⟨hlow.le, hhigh.le⟩
  · exact ⟨hlow, hhigh⟩

/-- **No real rounds to two doubles** of the same sign. -/
theorem eq_of_holds {q : ℚ} (hx : x.isZero = false) (hy : y.isZero = false)
    (hxq : x.interval.Holds q) (hyq : y.interval.Holds q) :
    x.significand = y.significand ∧ x.exponent = y.exponent := by
  have hnot : ∀ {x y : Double}, x.isZero = false → y.isZero = false → x.interval.Holds q →
      y.interval.Holds q → ¬ (x.exponent < y.exponent ∨
        x.exponent = y.exponent ∧ x.significand < y.significand) := by
    intro x y hx hy hxq hyq hlt
    obtain ⟨hends, hodd⟩ := high_le_low hlt
    rw [holds_interval_iff hx] at hxq
    rw [holds_interval_iff hy] at hyq
    split at hxq
    · split at hyq
      · exact hodd (le_antisymm hends (hyq.1.trans hxq.2)) ⟨‹_›, ‹_›⟩
      · exact absurd (hyq.1.trans_le hxq.2) (not_lt_of_ge hends)
    · split at hyq
      · exact absurd (hyq.1.trans_lt hxq.2) (not_lt_of_ge hends)
      · exact absurd (hyq.1.trans hxq.2) (not_lt_of_ge hends)
  have hxy := hnot hx hy hxq hyq
  have hyx := hnot hy hx hyq hxq
  omega

/-! ### The shortest decimal -/

/-- No double but zero is so small that its digits start behind the four hundredth. -/
theorem le_value_mul_pow (h : x.isZero = false) {n : ℕ} (hn : 358 ≤ n) :
    x.interval.denominator ≤ x.interval.value * Nat.pow 10 n := by
  obtain ⟨hd, hvalue, -⟩ := interval_spec h
  have hpos : (0 : ℚ) < x.interval.denominator := by exact_mod_cast hd
  have hshift : (2 : ℚ) ^ 1074 ≤ 10 ^ n :=
    calc (2 : ℚ) ^ (3 * 358) = (2 ^ 3) ^ 358 := pow_mul 2 3 358
      _ ≤ 10 ^ 358 := pow_le_pow_left₀ (by norm_num) (by norm_num) 358
      _ ≤ 10 ^ n := pow_le_pow_right₀ (by norm_num) hn
  have hsize : ((2 : ℚ) ^ 1074)⁻¹ ≤ x.size := by
    have hm : (1 : ℚ) ≤ x.significand := by exact_mod_cast significand_pos h
    calc ((2 : ℚ) ^ 1074)⁻¹ = 2 ^ (-((1074 : ℕ) : ℤ)) := by rw [zpow_neg, zpow_natCast]
      _ ≤ 2 ^ x.exponent := zpow_le_zpow_right₀ (by norm_num) x.normal.2.1
      _ = 1 * (4 * x.quarter) := by rw [← quarter_mul_four]; ring
      _ ≤ x.significand * (4 * x.quarter) :=
        mul_le_mul_of_nonneg_right hm (by linarith [x.quarter_pos])
      _ = x.size := by rw [size]; ring
  have hleast : (0 : ℚ) < 2 ^ 1074 := pow_pos (by norm_num) _
  generalize (2 : ℚ) ^ 1074 = least at *
  have hone : 1 ≤ x.size * 10 ^ n := by
    rw [← inv_mul_cancel₀ hleast.ne']
    exact mul_le_mul hsize hshift hleast.le ((inv_pos.mpr hleast).le.trans hsize)
  have hle : (x.interval.denominator : ℚ) ≤ x.interval.value * 10 ^ n := by
    rw [hvalue]
    nlinarith
  rw [Nat.pow_eq]
  exact_mod_cast hle

/-- **Seventeen digits suffice.** -/
theorem isSome_gridPoint? (h : x.isZero = false) :
    (x.interval.gridPoint? (x.interval.pointPosition - 17)).isSome := by
  obtain ⟨hd, hvalue, -⟩ := interval_spec h
  have hpos : (0 : ℚ) < x.interval.denominator := by exact_mod_cast hd
  have hquarter := x.quarter_pos
  -- the point above the value and the one below it are closer than the ends
  by_contra hnone
  rw [Option.not_isSome_iff_eq_none] at hnone
  obtain ⟨n, hbelow, habove, hnotBelow, hnotAbove⟩ :=
    Interval.exists_of_gridPoint?_eq_none hd hnone
  have hposition := Interval.pow_pointPosition_le hd fun n => le_value_mul_pow h
  rw [hvalue, mul_le_mul_iff_left₀ hpos] at hbelow hposition
  rw [hvalue, mul_lt_mul_iff_left₀ hpos] at habove
  generalize hunit : (10 : ℚ) ^ (x.interval.pointPosition - 17) = unit at *
  have hfine : unit * 10 ^ 16 ≤ x.size := by
    rw [← hunit, ← zpow_natCast, ← zpow_add₀ (by norm_num)]
    refine le_trans (le_of_eq ?_) hposition
    congr 1
    ring
  have hlow : n * unit ≤ x.low := by
    by_contra hlt
    exact hnotBelow (holds_interval_of_lt h (not_le.mp hlt) (hbelow.trans_lt x.size_lt_high))
  have hhigh : x.high ≤ (n + 1) * unit := by
    by_contra hlt
    exact hnotAbove (holds_interval_of_lt h (x.low_lt_size.trans habove) (not_le.mp hlt))
  have hwide : (2 + x.reach) * x.quarter ≤ unit := by
    have hends : x.high - x.low = (2 + x.reach) * x.quarter := by
      rw [high, low]
      ring
    linarith
  have hsignificand : (2 + x.reach) * 10 ^ 16 ≤ 4 * x.significand := by
    have hle : ((2 + x.reach) * 10 ^ 16 : ℚ) * x.quarter ≤ 4 * x.significand * x.quarter := by
      rw [size] at hfine
      linarith
    exact_mod_cast (mul_le_mul_iff_left₀ hquarter).mp hle
  have hbits := x.significand_lt
  rcases x.reach_eq with hreach | hreach <;> omega

theorem value_stripZeros (fuel : ℕ) (s : Scientific) : (stripZeros fuel s).value = s.value := by
  induction fuel generalizing s with
  | zero => rfl
  | succ fuel ih =>
      unfold stripZeros
      split
      · rename_i hzero
        rw [ih, Scientific.value, Scientific.value, zpow_add₀ (by norm_num), zpow_one]
        have hdigits : s.digits = s.digits / 10 * 10 := by omega
        conv_rhs => rw [hdigits]
        push_cast
        ring
      · rfl

/-- **The shortest decimal of a double rounds to it.** -/
theorem holds_shortest (h : x.isZero = false) : x.interval.Holds x.shortest.value := by
  unfold shortest
  rw [if_neg (by rw [h]; decide)]
  dsimp only
  rw [value_stripZeros]
  obtain ⟨s, hs⟩ : ∃ s, (List.range 17).findSome? (fun n =>
      (x.interval.gridPoint? (x.interval.pointPosition - (n + 1 : Nat))).map fun digits =>
        Scientific.mk digits (x.interval.pointPosition - (n + 1 : Nat))) = some s := by
    rw [← Option.isSome_iff_exists, List.findSome?_isSome_iff]
    exact ⟨16, by decide, by rw [Option.isSome_map]; exact isSome_gridPoint? h⟩
  obtain ⟨n, -, hn⟩ := List.exists_of_findSome?_eq_some hs
  obtain ⟨digits, hdigits, rfl⟩ := Option.map_eq_some_iff.mp hn
  rw [hs]
  exact Interval.holds_of_gridPoint? hdigits

theorem value_shortest_pos (h : x.isZero = false) : 0 < x.shortest.value := by
  have hholds := (holds_interval_iff h).mp (holds_shortest h)
  split at hholds
  · exact (low_pos h).trans_le hholds.1
  · exact (low_pos h).trans hholds.1

end Double

end SchemaBundle
