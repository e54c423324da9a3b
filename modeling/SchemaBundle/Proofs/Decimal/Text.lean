/-
The text of a double says which double it is.

A decimal text writes digits, a point somewhere among them, and perhaps an exponent.  Whichever
of its layouts a double is printed in, the text writes the value of its shortest decimal: zeros
that are put in front do not count, and those behind are made up for by where the point is.
That decimal rounds to the double and to no other one of its sign, and the sign is there to be
read.
-/
import SchemaBundle.Proofs.Decimal.Interval
import SchemaBundle.Proofs.Layout
import SchemaBundle.Proofs.Text

namespace SchemaBundle

namespace Double

/-! ### What a decimal text writes -/

/-- The exponent that characters behind an `e` write. -/
def readExponent : List Char → ℤ
  | '-' :: digits => -(Nat.ofDigitChars 10 digits 0 : ℤ)
  | '+' :: digits => Nat.ofDigitChars 10 digits 0
  | digits => Nat.ofDigitChars 10 digits 0

/-- The number that a decimal text without sign writes. -/
def readDecimal (cs : List Char) : ℚ :=
  let (mantissa, exponent) := (Text.splitOnce? 'e' cs).getD (cs, [])
  let (whole, fraction) := (Text.splitOnce? '.' mantissa).getD (mantissa, [])
  Nat.ofDigitChars 10 (whole ++ fraction) 0 * 10 ^ (readExponent exponent - fraction.length)

variable {whole fraction : List Char}

theorem not_mem_of_digits {digits : List Char} {c : Char} (h : ∀ d ∈ digits, d.isDigit = true)
    (hc : c.isDigit = false) : c ∉ digits := by
  intro hmem
  rw [h c hmem] at hc
  exact Bool.noConfusion hc

/-- Digits with a point among them. -/
theorem readDecimal_point (hw : ∀ c ∈ whole, c.isDigit = true)
    (hf : ∀ c ∈ fraction, c.isDigit = true) : readDecimal (whole ++ '.' :: fraction) =
      Nat.ofDigitChars 10 (whole ++ fraction) 0 * 10 ^ (-(fraction.length : ℤ)) := by
  have he : 'e' ∉ whole ++ '.' :: fraction := by
    simp [not_mem_of_digits hw, not_mem_of_digits hf]
  have hpoint := Text.splitOnce?_append (not_mem_of_digits hw (c := '.') rfl) fraction
  unfold readDecimal
  rw [Text.splitOnce?_eq, if_neg he]
  simp [hpoint, readExponent]

/-- Digits, with a point among them if there are any behind it, and an exponent. -/
theorem readDecimal_exponent (hw : ∀ c ∈ whole, c.isDigit = true)
    (hf : ∀ c ∈ fraction, c.isDigit = true) (exponent : List Char) :
    readDecimal (whole ++ (if fraction.isEmpty then [] else '.' :: fraction) ++ 'e' :: exponent) =
      Nat.ofDigitChars 10 (whole ++ fraction) 0 *
        10 ^ (readExponent exponent - fraction.length) := by
  have hmantissa : 'e' ∉ whole ++ (if fraction.isEmpty then [] else '.' :: fraction) := by
    cases fraction with
    | nil => simp [not_mem_of_digits hw]
    | cons d ds => simp [not_mem_of_digits hw, not_mem_of_digits hf]
  unfold readDecimal
  rw [Text.splitOnce?_append hmantissa]
  cases fraction with
  | nil =>
      have hpoint : '.' ∉ whole := not_mem_of_digits hw rfl
      simp [Text.splitOnce?_eq, hpoint]
  | cons d ds =>
      have hpoint := Text.splitOnce?_append (not_mem_of_digits hw (c := '.') rfl) (d :: ds)
      simp [hpoint]

/-- The exponent is read back, with or without its sign. -/
theorem readExponent_natAbs (style : ExponentStyle) (exponent : ℤ) :
    readExponent ((if exponent < 0 then ['-'] else if style.plus then ['+'] else []) ++
      Nat.toDigits 10 exponent.natAbs) = exponent := by
  split
  · show -(Nat.ofDigitChars 10 (Nat.toDigits 10 exponent.natAbs) 0 : ℤ) = exponent
    rw [Nat.ofDigitChars_ten_toDigits]
    omega
  · split
    · show (Nat.ofDigitChars 10 (Nat.toDigits 10 exponent.natAbs) 0 : ℤ) = exponent
      rw [Nat.ofDigitChars_ten_toDigits]
      omega
    · have hdigits : ∀ c ∈ Nat.toDigits 10 exponent.natAbs, c.isDigit = true := fun c hc =>
        Nat.isDigit_of_mem_toDigits (by decide) (by decide) hc
      rw [List.nil_append]
      unfold readExponent
      split
      · rename_i rest heq
        exact absurd (heq ▸ List.mem_cons_self) (not_mem_of_digits hdigits (c := '-') rfl)
      · rename_i rest heq
        exact absurd (heq ▸ List.mem_cons_self) (not_mem_of_digits hdigits (c := '+') rfl)
      · rw [Nat.ofDigitChars_ten_toDigits]
        omega

/-! ### The layouts -/

variable {digits : List Char} {exponent : ℤ}

/-- Digits and the exponent of the first of them. -/
def leading (digits : List Char) (exponent : ℤ) : ℚ :=
  Nat.ofDigitChars 10 digits 0 * 10 ^ (exponent + 1 - digits.length)

theorem isDigit_zeros (n : ℕ) : ∀ c ∈ List.replicate n '0', c.isDigit = true := by
  intro c hc
  rw [List.eq_of_mem_replicate hc]
  rfl

theorem isDigit_zero : ∀ c ∈ ['0'], c.isDigit = true :=
  isDigit_zeros 1

theorem ofDigitChars_zeros (n : ℕ) (digits : List Char) :
    Nat.ofDigitChars 10 (List.replicate n '0' ++ digits) 0 = Nat.ofDigitChars 10 digits 0 := by
  rw [Nat.ofDigitChars_append, Nat.ofDigitChars_replicate_zero, Nat.mul_zero]

/-- Below one, zeros stand in front of the digits. -/
theorem readDecimal_small (h : ∀ c ∈ digits, c.isDigit = true) (hexponent : exponent < 0) :
    readDecimal ('0' :: '.' :: List.replicate (exponent.natAbs - 1) '0' ++ digits) =
      leading digits exponent := by
  have hfraction : ∀ c ∈ List.replicate (exponent.natAbs - 1) '0' ++ digits, c.isDigit = true :=
    List.forall_mem_append.mpr ⟨isDigit_zeros _, h⟩
  show readDecimal (['0'] ++ '.' :: (List.replicate (exponent.natAbs - 1) '0' ++ digits)) = _
  rw [readDecimal_point isDigit_zero hfraction, leading,
    show ['0'] = List.replicate 1 '0' from rfl, ofDigitChars_zeros, ofDigitChars_zeros,
    List.length_append, List.length_replicate]
  congr 2
  omega

/-- Otherwise the digits are cut by the point, with zeros behind them if there are too few. -/
theorem readDecimal_cut (h : ∀ c ∈ digits, c.isDigit = true) (hexponent : 0 ≤ exponent) :
    let padded := digits ++ List.replicate (exponent.toNat + 1 - digits.length) '0'
    let fraction := padded.drop (exponent.toNat + 1)
    readDecimal (padded.take (exponent.toNat + 1) ++ '.' ::
      (if fraction.isEmpty then ['0'] else fraction)) = leading digits exponent := by
  intro padded fraction
  by_cases hlength : digits.length ≤ exponent.toNat + 1
  · -- the point stands behind all digits, and behind it a zero
    obtain ⟨zeros, hzeros⟩ := Nat.exists_eq_add_of_le hlength
    have hpadded : padded = digits ++ List.replicate zeros '0' := by
      simp only [padded, hzeros, Nat.add_sub_cancel_left]
    have hwhole : ∀ c ∈ padded, c.isDigit = true :=
      hpadded ▸ List.forall_mem_append.mpr ⟨h, isDigit_zeros zeros⟩
    have htake : padded.length = exponent.toNat + 1 := by
      rw [hpadded, List.length_append, List.length_replicate, hzeros]
    have hfraction : fraction = [] := List.drop_of_length_le htake.le
    rw [hfraction, List.take_of_length_le htake.le]
    show readDecimal (padded ++ '.' :: ['0']) = _
    rw [readDecimal_point hwhole isDigit_zero, leading, hpadded, List.append_assoc,
      show List.replicate zeros '0' ++ ['0'] = List.replicate (zeros + 1) '0' from
        List.replicate_succ'.symm, Nat.ofDigitChars_append, Nat.ofDigitChars_replicate_zero]
    have hexponent' : exponent + 1 - digits.length = zeros := by omega
    rw [hexponent', zpow_natCast]
    push_cast
    rw [pow_succ]
    norm_num
    ring
  · have hpadded : padded = digits := by
      simp only [padded]
      rw [Nat.sub_eq_zero_of_le (by omega)]
      exact List.append_nil _
    have hfraction : fraction = digits.drop (exponent.toNat + 1) := by
      simp only [fraction, hpadded]
    have hfilled : fraction.isEmpty = false := by
      rw [hfraction, List.isEmpty_eq_false_iff]
      intro hnil
      have := List.drop_eq_nil_iff.mp hnil
      omega
    rw [hfilled, hpadded, hfraction]
    rw [if_neg Bool.false_ne_true,
      readDecimal_point (fun c hc => h c (List.mem_of_mem_take hc))
        (fun c hc => h c (List.mem_of_mem_drop hc)), leading, List.take_append_drop,
      List.length_drop]
    congr 2
    omega

/-- **The text of a double** is its sign and a text that writes its shortest decimal. -/
theorem text_value (style : ExponentStyle) (x : Double) :
    ∃ body, x.text style = (if x.negative then ['-'] else []) ++ body ∧
      readDecimal body = x.shortest.value := by
  have hdigits : ∀ c ∈ Nat.toDigits 10 x.shortest.digits, c.isDigit = true := fun c hc =>
    Nat.isDigit_of_mem_toDigits (by decide) (by decide) hc
  have hvalue : x.shortest.value = leading (Nat.toDigits 10 x.shortest.digits)
      (x.shortest.exponent + ((Nat.toDigits 10 x.shortest.digits).length : ℤ) - 1) := by
    rw [leading, Scientific.value, Nat.ofDigitChars_ten_toDigits]
    congr 2
    ring
  obtain ⟨d, ds, hcons⟩ :=
    List.exists_cons_of_ne_nil (Nat.toDigits_ne_nil (n := x.shortest.digits) (b := 10))
  rw [hvalue]
  unfold text
  dsimp only
  generalize x.shortest.exponent + ((Nat.toDigits 10 x.shortest.digits).length : ℤ) - 1 = exponent
  generalize Nat.toDigits 10 x.shortest.digits = digits at *
  refine ⟨_, rfl, ?_⟩
  split
  · subst hcons
    obtain ⟨hd, hds⟩ := List.forall_mem_cons.mp hdigits
    rw [List.append_assoc, List.cons_append, List.take_succ_cons, List.take_zero,
      List.drop_succ_cons, List.drop_zero, readDecimal_exponent (by simpa using hd) hds,
      readExponent_natAbs, leading, List.length_cons, List.singleton_append]
    congr 2
    push_cast
    ring
  · split
    · exact readDecimal_small hdigits ‹_›
    · exact readDecimal_cut hdigits (not_lt.mp ‹_›)

theorem value_shortest_eq_zero_iff {x : Double} : x.shortest.value = 0 ↔ x.isZero = true := by
  cases h : x.isZero with
  | true => simp [shortest, h, Scientific.value]
  | false => simp [(value_shortest_pos h).ne']

/-- **A double is determined by its text.** -/
theorem text_injective (style : ExponentStyle) : Function.Injective (text style) := by
  intro x y h
  have hsign := negative_eq_of_text h
  obtain ⟨body, hx, hbody⟩ := text_value style x
  obtain ⟨body', hy, hbody'⟩ := text_value style y
  rw [hx, hy, hsign] at h
  have hvalue : x.shortest.value = y.shortest.value := by
    rw [← hbody, ← hbody', List.append_cancel_left h]
  have hzero : x.isZero = y.isZero := by
    rw [Bool.eq_iff_iff, ← value_shortest_eq_zero_iff, hvalue, value_shortest_eq_zero_iff]
  have hparts : x.significand = y.significand ∧ x.exponent = y.exponent := by
    cases hx : x.isZero with
    | true =>
        obtain ⟨hm, he⟩ := parts_of_isZero hx
        obtain ⟨hm', he'⟩ := parts_of_isZero (hzero ▸ hx)
        exact ⟨hm.trans hm'.symm, he.trans he'.symm⟩
    | false =>
        have hy : y.isZero = false := hzero ▸ hx
        exact eq_of_holds hx hy (holds_shortest hx) (hvalue ▸ holds_shortest hy)
  exact eq_of_parts hsign hparts.1 hparts.2

end Double

end SchemaBundle
