import Mathlib
import Treewalk.Proofs.Texts.Number

/-!
# Numbers are read back from their texts

Reading finds the rung that is nearest to a decimal. The decimal that a text shows is nearest to the
rung of the number, and so reading the text leads back to it; a minus sign in front of the text
stands for the sign bit, of zeros too.
-/

namespace Treewalk.Number

/-! ## The nearest rung -/

/-- If `p` holds up to `b` and not beyond, climbing ends at `b`. -/
theorem climb_eq {p : Nat → Bool} {b : Nat} (hp : ∀ k, 0 < k → (p k ↔ k ≤ b)) {bits low : Nat}
    (hlow : low ≤ b) (hhigh : b < low + Nat.pow 2 bits) : climb p bits low = b := by
  induction bits generalizing low with
  | zero =>
    have hone : Nat.pow 2 0 = 1 := rfl
    rw [climb]
    omega
  | succ bits ih =>
    have hpow : Nat.pow 2 (bits + 1) = Nat.pow 2 bits * 2 := rfl
    have hpos : 0 < Nat.pow 2 bits := Nat.pow_pos (by decide)
    have hstep := hp (low + Nat.pow 2 bits) (by omega)
    rw [climb]
    split
    next h => exact ih (hstep.1 h) (by omega)
    next h =>
      have hbelow := mt hstep.2 h
      exact ih hlow (by omega)

/-- Whether a decimal belongs to a rung, in terms of the point on a grid that it is. -/
theorem Decimal.reaches_iff {d : Decimal} {n j : Nat}
    (h : d.digits * Nat.pow 10 finest = n * Nat.pow 10 j * Nat.pow 10 d.places) (k : Nat) :
    d.reaches k ↔ k ≤ infinity ∧
      (midpoint (k - 1) * Nat.pow 10 finest < n * spacing j ∨
        midpoint (k - 1) * Nat.pow 10 finest = n * spacing j ∧ k % 2 = 0) := by
  -- Both sides compare the same numbers, up to a common factor.
  have hvalue : d.digits * one * Nat.pow 10 finest = n * spacing j * Nat.pow 10 d.places := by
    calc d.digits * one * Nat.pow 10 finest
        = d.digits * Nat.pow 10 finest * one := Nat.mul_right_comm ..
      _ = n * Nat.pow 10 j * Nat.pow 10 d.places * one := by rw [h]
      _ = n * (one * Nat.pow 10 j) * Nat.pow 10 d.places := by
        rw [Nat.mul_right_comm, Nat.mul_assoc n, Nat.mul_comm one]
  have hplaces : 0 < Nat.pow 10 d.places := Nat.pow_pos (by decide)
  have hlt : midpoint (k - 1) * Nat.pow 10 d.places < d.digits * one ↔
      midpoint (k - 1) * Nat.pow 10 finest < n * spacing j := by
    rw [← Nat.mul_lt_mul_right ten_pow_finest_pos, hvalue, Nat.mul_right_comm,
      Nat.mul_lt_mul_right hplaces]
  have heq : midpoint (k - 1) * Nat.pow 10 d.places = d.digits * one ↔
      midpoint (k - 1) * Nat.pow 10 finest = n * spacing j := by
    rw [← Nat.mul_left_inj (Nat.ne_of_gt ten_pow_finest_pos), hvalue, Nat.mul_right_comm,
      Nat.mul_left_inj (Nat.ne_of_gt hplaces)]
  simp only [reaches, Bool.and_eq_true, Bool.or_eq_true, decide_eq_true_eq, beq_iff_eq, hlt, heq]

/-- A decimal reaches the rungs up to the one that it stands for. -/
theorem reaches_iff_le {b j n : Nat} (hb : b ≤ infinity) (h : StandsFor b j n) {d : Decimal}
    (hd : d.digits * Nat.pow 10 finest = n * Nat.pow 10 j * Nat.pow 10 d.places) {k : Nat}
    (hk : 0 < k) : d.reaches k ↔ k ≤ b := by
  rw [Decimal.reaches_iff hd]
  unfold StandsFor at h
  split at h
  next hzero =>
    subst hzero h
    have hpos : 0 < midpoint (k - 1) * Nat.pow 10 finest :=
      Nat.mul_pos (Nat.zero_lt_of_lt (units_lt_midpoint _)) ten_pow_finest_pos
    rw [Nat.zero_mul]
    omega
  next hzero =>
    obtain ⟨hlower, hupper, heven⟩ := readsBack_iff.1 h
    have hmono {a c : Nat} (hac : a < c) :
        midpoint a * Nat.pow 10 finest < midpoint c * Nat.pow 10 finest :=
      Nat.mul_lt_mul_of_pos_right (midpoint_lt_midpoint hac) ten_pow_finest_pos
    constructor
    · rintro ⟨-, hreaches⟩
      refine Nat.le_of_not_lt fun hlt => ?_
      -- Above `b`, the boundary is at or beyond the point halfway to the next rung.
      by_cases hnext : k - 1 = b
      · rw [hnext] at hreaches
        omega
      · have := hmono (show b < k - 1 by omega)
        omega
    · intro hle
      refine ⟨Nat.le_trans hle hb, ?_⟩
      by_cases heq : k = b
      · subst heq
        omega
      · have := hmono (show k - 1 < b - 1 by omega)
        omega

/-- A decimal is nearest to the rung for which it stands. -/
theorem nearest_eq {b j n : Nat} (hb : b ≤ infinity) (h : StandsFor b j n) {d : Decimal}
    (hd : d.digits * Nat.pow 10 finest = n * Nat.pow 10 j * Nat.pow 10 d.places) :
    d.nearest = b := by
  have hlast : infinity < Nat.pow 2 63 := by decide
  exact climb_eq (fun _ hk => reaches_iff_le hb h hd hk) (Nat.zero_le b) (by omega)

/-- The text of a rung is read as that rung. -/
theorem exists_ofText?_magnitudeText {b : Nat} (hb : b ≤ infinity) :
    ∃ d, Decimal.ofText? (magnitudeText b) = some d ∧ d.nearest = b := by
  obtain ⟨n, j, htext, hstands⟩ := exists_point b
  obtain ⟨d, hread, hvalue⟩ := ofText?_pointText n j
  exact ⟨d, by rw [htext, hread], nearest_eq hb hstands hvalue⟩

/-! ## Signs -/

section Sign

open Float.Model (Format UnpackedFloat)
open Float.Model.UnpackedFloat

/-- Two bit patterns that differ in their signs only unpack to a number and its negation. -/
theorem unpack_eq_neg {spec : Format} {b b' : BitVec spec.numBits}
    (hexponent : unpackExponent b' = unpackExponent b)
    (hmantissa : unpackMantissa b' = unpackMantissa b)
    (hsign : Sign.ofBitVec (unpackSign b') = -Sign.ofBitVec (unpackSign b)) :
    unpack spec b' = (unpack spec b).neg := by
  simp only [unpack, hexponent, hmantissa, hsign]
  split
  · split <;> rfl
  · split
    · split <;> rfl
    · rfl

theorem unpackExponent_toNat (b : BitVec 64) :
    (@unpackExponent .binary64 b).toNat = b.toNat / 2 ^ 52 % 2 ^ 11 := by
  simp [unpackExponent, Nat.shiftRight_eq_div_pow]

theorem unpackMantissa_toNat (b : BitVec 64) :
    (@unpackMantissa .binary64 b).toNat = b.toNat % 2 ^ 52 := by
  simp [unpackMantissa]

theorem unpackSign_toNat (b : BitVec 64) :
    (@unpackSign .binary64 b).toNat = b.toNat / 2 ^ 63 % 2 := by
  simp [unpackSign, Nat.shiftRight_eq_div_pow]

/-- A bit pattern below that of infinity is no pattern of what is not a number. -/
theorem valid_of_lt_infinity {b : Nat} (hb : b < infinity) :
    Format.binary64.Valid (BitVec.ofNat 64 b) := by
  refine ⟨fun hexponent => ?_⟩
  have hnat := unpackExponent_toNat (BitVec.ofNat 64 b)
  have hones : (-BitVec.ofNat Format.binary64.exponentBits 1).toNat = 2047 := rfl
  rw [hexponent, hones, BitVec.toNat_ofNat] at hnat
  rw [infinity] at hb
  omega

theorem toBits_ofBits {b : Nat} (hb : b < infinity) :
    (Float.ofBits (UInt64.ofNat b)).toBits = UInt64.ofNat b :=
  UInt64.toBitVec_inj.1 (pack_unpack_of_valid (valid_of_lt_infinity hb))

/-- A double without its sign bit, negated, is the double with its sign bit. -/
theorem neg_ofBits {x : Float} {b : Nat} (hb : b < infinity)
    (hx : x.toBits.toNat = Nat.pow 2 63 + b) : -Float.ofBits (UInt64.ofNat b) = x := by
  have hx : x.toBits.toBitVec.toNat = 2 ^ 63 + b := hx
  have hlt : b < 0x7FF0000000000000 := hb
  have hbits : (BitVec.ofNat 64 b).toNat = b := by
    rw [BitVec.toNat_ofNat]
    omega
  have hunpack : unpack .binary64 x.toBits.toBitVec =
      (unpack .binary64 (BitVec.ofNat 64 b)).neg := by
    apply unpack_eq_neg
    · rw [← BitVec.toNat_inj, unpackExponent_toNat, unpackExponent_toNat, hx, hbits]
      omega
    · rw [← BitVec.toNat_inj, unpackMantissa_toNat, unpackMantissa_toNat, hx, hbits]
      omega
    · have hminus : @unpackSign .binary64 x.toBits.toBitVec = 1#1 := by
        rw [← BitVec.toNat_inj, unpackSign_toNat, hx]
        change _ = 1
        omega
      have hplus : @unpackSign .binary64 (BitVec.ofNat 64 b) = 0#1 := by
        rw [← BitVec.toNat_inj, unpackSign_toNat, hbits]
        change _ = 0
        omega
      rw [hminus, hplus]
      rfl
  -- Both sides are compared as bit patterns, of which negation changes the sign alone.
  refine Float.toBits_inj.1 (UInt64.toBitVec_inj.1 ?_)
  have hneg : (-Float.ofBits (UInt64.ofNat b)).toBits.toBitVec =
      pack .binary64 (unpack .binary64 (Float.ofBits (UInt64.ofNat b)).toBits.toBitVec).neg := rfl
  have hpattern : (UInt64.ofNat b).toBitVec = BitVec.ofNat 64 b := rfl
  rw [hneg, toBits_ofBits hb, hpattern, ← hunpack]
  exact pack_unpack_of_valid x.toModel.valid

end Sign

/-! ## Fractions -/

/-- The fraction of a text is what stands behind its point. -/
theorem eq_of_append_point {whole whole' fraction fraction' : List Char}
    (hfraction : ∀ c ∈ fraction, c.isDigit) (hfraction' : ∀ c ∈ fraction', c.isDigit)
    (h : whole ++ '.' :: fraction = whole' ++ '.' :: fraction') : fraction = fraction' := by
  have hbehind {whole fraction : List Char} (hdigits : ∀ c ∈ fraction, c.isDigit) :
      (whole ++ '.' :: fraction).reverse.takeWhile Char.isDigit = fraction.reverse := by
    rw [List.reverse_append, List.reverse_cons, List.append_assoc,
      List.takeWhile_append_of_pos (by simpa using hdigits)]
    exact List.append_nil _
  have heq := congrArg (fun text => text.reverse.takeWhile Char.isDigit) h
  simp only [hbehind hfraction, hbehind hfraction'] at heq
  exact List.reverse_injective heq

/-- No text of a point ends with a point and a zero: a fraction that is zero is not written. -/
theorem not_pointZero_suffix_pointText (n j : Nat) : ¬['.', '0'] <:+ pointText n j := by
  have hdigits (m : Nat) : ¬['.', '0'] <:+ Nat.toDigits 10 m := by
    intro h
    have hmem : '.' ∈ Nat.toDigits 10 m := h.subset (by simp)
    exact absurd (Nat.isDigit_of_mem_toDigits (by decide) (by decide) hmem) (by decide)
  unfold pointText
  split
  · exact hdigits _
  · dsimp only
    split
    · exact hdigits _
    next hfraction =>
      rintro ⟨whole, h⟩
      -- The fraction would be zero, which has been excluded.
      have hzero := eq_of_append_point (List.forall_mem_singleton.2 rfl)
        (fun _ => isDigit_of_mem_padded) h
      have hvalue := ofDigitChars_padded (finest - j) (n % Nat.pow 10 (finest - j))
      rw [← hzero] at hvalue
      exact hfraction hvalue.symm

/-- The same holds of all texts of numbers. -/
theorem not_pointZero_suffix_text (x : Float) : ¬['.', '0'] <:+ (text x).toList := by
  have hsigned {sign digits : List Char} (hsign : sign = [] ∨ sign = ['-'])
      (hdigits : ¬['.', '0'] <:+ digits) : ¬['.', '0'] <:+ sign ++ digits := by
    obtain rfl | rfl := hsign
    · exact hdigits
    · rw [List.singleton_append, List.suffix_cons_iff]
      exact fun h => h.elim (fun h => absurd (List.cons.inj h).1 (by decide)) hdigits
  have hsign {p : Prop} [Decidable p] :
      (if p then [] else ['-'] : List Char) = [] ∨ (if p then [] else ['-']) = ['-'] := by
    split <;> simp
  simp only [text]
  split
  · decide
  split
  · rw [String.toList_ofList]
    exact hsigned hsign (by decide)
  · rw [String.toList_ofList]
    obtain ⟨n, j, hpoint, -⟩ := exists_point (x.toBits.toNat % Nat.pow 2 63)
    exact hsigned hsign (hpoint ▸ not_pointZero_suffix_pointText n j)

/-- No text has a fraction that is only a zero, and so nothing is left out. -/
theorem valueText_eq_text (x : Float) : valueText x = text x := by
  have h : ¬['.', '0'].isSuffixOf (text x).toList := by
    rw [List.isSuffixOf_iff_suffix]
    exact not_pointZero_suffix_text x
  exact if_neg h

/-! ## Texts -/

/-- The text of a finite double is a decimal that reads as the double, or a minus sign and a decimal
that reads as its negation. -/
theorem exists_decimal_of_isFinite {x : Float} (h : x.isFinite) :
    ∃ digits d, Decimal.ofText? digits = some d ∧
      ((text x).toList = digits ∧ d.toFloat = x ∨
        (text x).toList = '-' :: digits ∧ -d.toFloat = x) := by
  have hlt := magnitude_lt_infinity h
  obtain ⟨d, hread, hnearest⟩ := exists_ofText?_magnitudeText (Nat.le_of_lt hlt)
  refine ⟨_, d, hread, ?_⟩
  rw [text_of_isFinite h, Decimal.toFloat, hnearest]
  have hbits := x.toBits.toNat_lt
  by_cases hsign : x.toBits.toNat / Nat.pow 2 63 = 0
  · have hmagnitude : x.toBits.toNat % Nat.pow 2 63 = x.toBits.toNat := by
      simp only [Nat.pow_eq] at hsign ⊢
      omega
    refine .inl ⟨by rw [if_pos hsign, List.nil_append], ?_⟩
    rw [hmagnitude, UInt64.ofNat_toNat, Float.ofBits_toBits]
  · refine .inr ⟨by rw [if_neg hsign, List.singleton_append], neg_ofBits hlt ?_⟩
    simp only [Nat.pow_eq] at hsign ⊢
    omega

end Treewalk.Number
