import Treewalk.Number.Shortest

/-!
# The text of a number tells the number

The text of a finite double is a decimal that lies strictly nearer to its rung than to any other,
ties going to the even rung. So two finite doubles with one text are one double.
-/

namespace Treewalk.Number

/-! ## Rungs and the points between them -/

theorem units_eq {e f : Nat} (hf : f < 0x10000000000000) :
    units (e * 0x10000000000000 + f) =
      if e = 0 then 2 * f else (0x10000000000000 + f) * Nat.pow 2 e := by
  have hpow : Nat.pow 2 52 = 0x10000000000000 := rfl
  have hdiv : (e * 0x10000000000000 + f) / 0x10000000000000 = e := by omega
  have hmod : (e * 0x10000000000000 + f) % 0x10000000000000 = f := by omega
  simp only [units, hpow, hdiv, hmod]

/-- Rungs are at least two units apart, so that there is a point strictly between them. -/
theorem units_add_two_le (b : Nat) : units b + 2 ≤ units (b + 1) := by
  obtain ⟨e, f, hf, rfl⟩ : ∃ e f, f < 0x10000000000000 ∧ b = e * 0x10000000000000 + f :=
    ⟨b / 0x10000000000000, b % 0x10000000000000, Nat.mod_lt _ (by decide), by omega⟩
  have htwo (h : e ≠ 0) : 2 ≤ Nat.pow 2 e := Nat.le_self_pow h 2
  rw [units_eq hf]
  by_cases hlast : f + 1 < 0x10000000000000
  · rw [Nat.add_assoc, units_eq hlast]
    split
    · omega
    next h =>
      have hstep : (0x10000000000000 + (f + 1)) * Nat.pow 2 e =
          (0x10000000000000 + f) * Nat.pow 2 e + Nat.pow 2 e := by
        rw [← Nat.add_assoc, Nat.add_one_mul]
      have := htwo h
      omega
  · -- The last fraction of an exponent: the next rung has the next exponent.
    obtain rfl : f = 0xFFFFFFFFFFFFF := by omega
    have hnext : e * 0x10000000000000 + 0xFFFFFFFFFFFFF + 1 = (e + 1) * 0x10000000000000 + 0 := by
      omega
    have hpow : Nat.pow 2 (e + 1) = Nat.pow 2 e * 2 := rfl
    rw [hnext, units_eq (by decide), if_neg (Nat.succ_ne_zero e), hpow]
    split
    next h =>
      subst h
      decide
    next h =>
      have := htwo h
      omega

theorem units_lt_midpoint (b : Nat) : units b < midpoint b := by
  have := units_add_two_le b
  rw [midpoint]
  omega

theorem midpoint_lt_units_succ (b : Nat) : midpoint b < units (b + 1) := by
  have := units_add_two_le b
  rw [midpoint]
  omega

theorem midpoint_lt_midpoint {b b' : Nat} (h : b < b') : midpoint b < midpoint b' := by
  induction h with
  | refl => exact Nat.lt_trans (midpoint_lt_units_succ b) (units_lt_midpoint (b + 1))
  | step _ ih =>
    exact Nat.lt_trans ih (Nat.lt_trans (midpoint_lt_units_succ _) (units_lt_midpoint _))

/-! ## Points that read back -/

theorem readsBack_iff {b j n : Nat} :
    readsBack b j n ↔
      midpoint (b - 1) * Nat.pow 10 finest ≤ n * spacing j ∧
      n * spacing j ≤ midpoint b * Nat.pow 10 finest ∧
      (n * spacing j = midpoint (b - 1) * Nat.pow 10 finest ∨
        n * spacing j = midpoint b * Nat.pow 10 finest → b % 2 = 0) := by
  simp only [readsBack]
  split <;> simp only [Bool.and_eq_true, decide_eq_true_eq] <;> omega

theorem ten_pow_finest_pos : 0 < Nat.pow 10 finest := by
  decide +kernel

theorem one_le_ten_pow_finest : one ≤ Nat.pow 10 finest := by
  decide +kernel

/-- The finest grid always has a point that reads back. -/
theorem readsBack_below {b : Nat} (hb : b ≠ 0) : readsBack b 0 (below b 0) := by
  have hone : 0 < one := by decide +kernel
  have hspacing : spacing 0 = one := by rw [spacing, Nat.pow_eq, Nat.pow_zero, Nat.mul_one]
  have hlower :
      midpoint (b - 1) * Nat.pow 10 finest + Nat.pow 10 finest ≤ units b * Nat.pow 10 finest := by
    rw [← Nat.succ_mul]
    have := midpoint_lt_units_succ (b - 1)
    rw [Nat.sub_add_cancel (Nat.pos_of_ne_zero hb)] at this
    exact Nat.mul_le_mul_right _ this
  have hupper : units b * Nat.pow 10 finest < midpoint b * Nat.pow 10 finest :=
    Nat.mul_lt_mul_of_pos_right (units_lt_midpoint b) ten_pow_finest_pos
  have hbelow : below b 0 * one + units b * Nat.pow 10 finest % one =
      units b * Nat.pow 10 finest := by
    rw [below, hspacing, Nat.mul_comm, Nat.div_add_mod]
  have hrest := Nat.mod_lt (units b * Nat.pow 10 finest) hone
  have hfine := one_le_ten_pow_finest
  rw [readsBack_iff, hspacing]
  omega

/-- Of two neighbours the nearer one is taken, but only if it reads back. -/
theorem readsBack_of_neighbour? {b j n : Nat} (h : neighbour? b j = some n) : readsBack b j n := by
  simp only [neighbour?] at h
  split at h
  next hn hn' =>
    rw [← Option.some.inj h]
    split
    · exact hn
    · exact hn'
  next hn _ => exact Option.some.inj h ▸ hn
  next _ hn' => exact Option.some.inj h ▸ hn'
  next => exact absurd h (Option.some_ne_none n).symm

/-- The point that is found on the coarsest grid reads back; on the finest grid there always is one.
-/
theorem readsBack_coarsest {b : Nat} (hb : b ≠ 0) (j : Nat) :
    readsBack b (coarsest b j).2 (coarsest b j).1 := by
  induction j with
  | zero => exact readsBack_below hb
  | succ j ih =>
    rw [coarsest]
    split
    next h => exact readsBack_of_neighbour? h
    next => exact ih

/-- Point `n` of grid `j` is where the text of rung `b` may point. -/
def StandsFor (b j n : Nat) : Prop :=
  if b = 0 then n = 0 else readsBack b j n

theorem ne_zero_of_readsBack {b j n : Nat} (h : readsBack b j n) : n ≠ 0 := by
  rintro rfl
  have hlower := (readsBack_iff.1 h).1
  rw [Nat.zero_mul, Nat.le_zero, Nat.mul_eq_zero] at hlower
  rcases hlower with hlower | hlower
  · exact absurd hlower (Nat.ne_zero_of_lt (units_lt_midpoint (b - 1)))
  · exact absurd hlower (Nat.ne_zero_of_lt ten_pow_finest_pos)

/-- One point does not read back as two rungs: it would be halfway between two even ones. -/
theorem le_of_readsBack {b b' j j' n n' : Nat} (h : readsBack b j n) (h' : readsBack b' j' n')
    (hpoint : n * spacing j = n' * spacing j') : b' ≤ b := by
  rw [readsBack_iff, hpoint] at h
  rw [readsBack_iff] at h'
  refine Nat.le_of_not_lt fun hlt => ?_
  by_cases hnext : b = b' - 1
  · subst hnext
    omega
  · have : midpoint b * Nat.pow 10 finest < midpoint (b' - 1) * Nat.pow 10 finest :=
      Nat.mul_lt_mul_of_pos_right (midpoint_lt_midpoint (by omega)) ten_pow_finest_pos
    omega

/-- One point stands for one rung. -/
theorem StandsFor.unique {b b' j j' n n' : Nat} (h : StandsFor b j n) (h' : StandsFor b' j' n')
    (hpoint : n * Nat.pow 10 j = n' * Nat.pow 10 j') : b = b' := by
  -- A point is zero or not, on whatever grid.
  have hzero : n = 0 ↔ n' = 0 := by
    have hpos (m k : Nat) : m * Nat.pow 10 k = 0 ↔ m = 0 := by
      rw [Nat.pow_eq, Nat.mul_eq_zero, or_iff_left (Nat.ne_zero_of_lt (Nat.pow_pos (by decide)))]
    rw [← hpos n j, hpoint, hpos]
  unfold StandsFor at h h'
  split at h <;> split at h'
  · omega
  · exact absurd (hzero.1 h) (ne_zero_of_readsBack h')
  · exact absurd (hzero.2 h') (ne_zero_of_readsBack h)
  · have hpoint : n * spacing j = n' * spacing j' := by
      simp only [spacing, Nat.mul_left_comm _ one, hpoint]
    exact Nat.le_antisymm (le_of_readsBack h' h hpoint.symm) (le_of_readsBack h h' hpoint)

/-! ## Texts of points -/

section OfText

variable {whole fraction : List Char}

theorem Decimal.ofText?_digits (hne : whole ≠ []) (hwhole : ∀ c ∈ whole, c.isDigit) :
    ofText? whole = some (ofDigits whole []) := by
  have htake : whole.takeWhile Char.isDigit = whole := by
    simpa using @List.takeWhile_append_of_pos _ _ _ [] hwhole
  have hdrop : whole.dropWhile Char.isDigit = [] := by
    simpa using @List.dropWhile_append_of_pos _ _ _ [] hwhole
  simp only [ofText?, htake, hdrop]

theorem Decimal.ofText?_point (hne : whole ≠ []) (hwhole : ∀ c ∈ whole, c.isDigit)
    (hne' : fraction ≠ []) (hfraction : ∀ c ∈ fraction, c.isDigit) :
    ofText? (whole ++ '.' :: fraction) = some (ofDigits whole fraction) := by
  have htake : (whole ++ '.' :: fraction).takeWhile Char.isDigit = whole := by
    simp [List.takeWhile_append_of_pos hwhole]
  have hdrop : (whole ++ '.' :: fraction).dropWhile Char.isDigit = '.' :: fraction := by
    simp [List.dropWhile_append_of_pos hwhole]
  have hall : (!fraction.isEmpty && fraction.all Char.isDigit) = true := by
    simpa using ⟨hne', hfraction⟩
  simp only [ofText?, htake, hdrop, hall, if_true]

end OfText

theorem padded_length {width n : Nat} (hpos : 0 < width) (h : n < Nat.pow 10 width) :
    (padded width n).length = width := by
  have := (Nat.length_toDigits_le_iff (by decide) hpos).2 h
  simp only [padded, List.length_append, List.length_replicate]
  omega

theorem isDigit_of_mem_padded {width n : Nat} {c : Char} (h : c ∈ padded width n) : c.isDigit := by
  rcases List.mem_append.1 h with h | h
  · rw [List.eq_of_mem_replicate h]
    decide
  · exact Nat.isDigit_of_mem_toDigits (by decide) (by decide) h

/-- Leading zeros do not change what digits denote. -/
theorem ofDigitChars_padded (width n : Nat) : Nat.ofDigitChars 10 (padded width n) 0 = n := by
  rw [padded, Nat.ofDigitChars_append, Nat.ofDigitChars_replicate_zero, Nat.mul_zero,
    Nat.ofDigitChars_ten_toDigits]

/-- The text of a point reads back as the point itself. -/
theorem ofText?_pointText (n j : Nat) :
    ∃ d, Decimal.ofText? (pointText n j) = some d ∧
      d.digits * Nat.pow 10 finest = n * Nat.pow 10 j * Nat.pow 10 d.places := by
  have hdigits (m : Nat) : ∀ c ∈ Nat.toDigits 10 m, c.isDigit := fun _ =>
    Nat.isDigit_of_mem_toDigits (by decide) (by decide)
  have hinteger (m : Nat) :
      Decimal.ofText? (Nat.toDigits 10 m) = some ⟨m, 0⟩ := by
    rw [Decimal.ofText?_digits Nat.toDigits_ne_nil (hdigits m), Decimal.ofDigits, List.append_nil,
      Nat.ofDigitChars_ten_toDigits]
    rfl
  unfold pointText
  split
  next h =>
    refine ⟨_, hinteger _, ?_⟩
    simp only [Nat.pow_eq]
    rw [Nat.mul_assoc, ← Nat.pow_add, Nat.sub_add_cancel h, Nat.pow_zero, Nat.mul_one]
  next h =>
    -- On finer grids than the integers there are digits behind the point.
    obtain ⟨places, hplaces⟩ : ∃ places, finest = j + places := ⟨finest - j, by omega⟩
    have hpos : 0 < places := by omega
    simp only [hplaces, Nat.add_sub_cancel_left]
    have hsplit := Nat.div_add_mod n (Nat.pow 10 places)
    split
    next hzero =>
      refine ⟨_, hinteger _, ?_⟩
      rw [hzero, Nat.add_zero] at hsplit
      simp only [Nat.pow_eq] at hsplit ⊢
      rw [Nat.pow_zero, Nat.mul_one, Nat.add_comm, Nat.pow_add, ← Nat.mul_assoc,
        Nat.mul_comm _ (10 ^ places), hsplit]
    next =>
      -- The fraction is filled up with zeros, so that its digits are as many as there are places.
      have hlength := padded_length hpos (Nat.mod_lt n (Nat.pow_pos (by decide)))
      have hne : padded places (n % Nat.pow 10 places) ≠ [] := by
        rw [← List.length_pos_iff, hlength]
        exact hpos
      refine ⟨_, Decimal.ofText?_point Nat.toDigits_ne_nil (hdigits _) hne
        (fun _ => isDigit_of_mem_padded), ?_⟩
      rw [Decimal.ofDigits, Nat.ofDigitChars_append, Nat.ofDigitChars_ten_toDigits,
        Nat.ofDigitChars_eq_ofDigitChars_zero, ofDigitChars_padded, hlength]
      simp only [Nat.pow_eq] at hsplit ⊢
      rw [hsplit, Nat.pow_add, Nat.mul_assoc]

/-! ## Texts of numbers -/

/-- The text of a magnitude shows a point that stands for it. -/
theorem exists_point (b : Nat) : ∃ n j, magnitudeText b = pointText n j ∧ StandsFor b j n := by
  by_cases hb : b = 0
  · refine ⟨0, finest, ?_, by rw [StandsFor, if_pos hb]⟩
    rw [magnitudeText, if_pos hb, pointText, if_pos (Nat.le_refl finest), Nat.zero_mul]
    rfl
  · have hreads := readsBack_coarsest hb (topGrid b)
    cases hpoint : coarsest b (topGrid b) with
    | mk n j =>
      rw [hpoint] at hreads
      exact ⟨n, j, by rw [magnitudeText, if_neg hb, hpoint], by rwa [StandsFor, if_neg hb]⟩

/-- Texts of magnitudes tell them apart. -/
theorem magnitudeText_injective : Function.Injective magnitudeText := by
  intro b b' h
  obtain ⟨n, j, htext, hstands⟩ := exists_point b
  obtain ⟨n', j', htext', hstands'⟩ := exists_point b'
  obtain ⟨d, hread, hvalue⟩ := ofText?_pointText n j
  obtain ⟨d', hread', hvalue'⟩ := ofText?_pointText n' j'
  -- Both texts show the same decimal, and so the same point.
  obtain rfl : d = d' := by
    rw [← htext, h, htext', hread'] at hread
    exact (Option.some.inj hread).symm
  exact hstands.unique hstands'
    (Nat.eq_of_mul_eq_mul_right (Nat.pow_pos (by decide)) (hvalue.symm.trans hvalue'))

/-- The text is `digits` or `digits.digits`. -/
theorem isSome_ofText?_magnitudeText (b : Nat) : (Decimal.ofText? (magnitudeText b)).isSome := by
  obtain ⟨n, j, htext, -⟩ := exists_point b
  obtain ⟨d, hread, -⟩ := ofText?_pointText n j
  rw [htext, hread]
  rfl

theorem Decimal.head_of_ofText? {text : List Char} (h : (ofText? text).isSome) :
    ∃ c rest, text = c :: rest ∧ c.isDigit := by
  cases text with
  | nil => simp [ofText?] at h
  | cons c rest =>
    refine ⟨c, rest, rfl, ?_⟩
    by_cases hc : c.isDigit
    · exact hc
    · simp [ofText?, hc] at h

theorem magnitudeText_ne_minus (b : Nat) (rest : List Char) : magnitudeText b ≠ '-' :: rest := by
  intro h
  obtain ⟨c, tail, htext, hc⟩ := Decimal.head_of_ofText? (isSome_ofText?_magnitudeText b)
  rw [h, List.cons.injEq] at htext
  rw [← htext.1] at hc
  exact absurd hc (by decide)

/-- The characters of the texts of finite numbers. -/
def isTextChar (c : Char) : Bool :=
  c.isDigit || c == '.' || c == '-'

/-- There are no other characters in the text of a decimal. -/
theorem Decimal.isTextChar_of_ofText? {text : List Char} (h : (ofText? text).isSome) :
    ∀ c ∈ text, isTextChar c := by
  intro c hc
  have hdigit {c : Char} (hc : c.isDigit) : isTextChar c := by simp [isTextChar, hc]
  rw [← List.takeWhile_append_dropWhile (p := Char.isDigit) (l := text), List.mem_append] at hc
  rcases hc with hc | hc
  · exact hdigit (List.all_eq_true.1 List.all_takeWhile c hc)
  simp only [ofText?] at h
  split at h
  · cases h
  next hdrop _ =>
    rw [hdrop] at hc
    cases hc
  next hdrop _ =>
    rw [hdrop] at hc
    split at h
    next hall =>
      rcases List.mem_cons.1 hc with rfl | hc
      · rfl
      · simp only [Bool.and_eq_true, List.all_eq_true] at hall
        exact hdigit (hall.2 c hc)
    · cases h
  · cases h

theorem eq_of_toBits_eq {x y : Float} (h : x.toBits = y.toBits) : x = y := by
  obtain ⟨⟨bits, _⟩⟩ := x
  obtain ⟨⟨bits', _⟩⟩ := y
  cases (h : bits = bits')
  rfl

/-- The exponent of a finite double is not all ones. -/
theorem magnitude_lt_infinity {x : Float} (h : x.isFinite) :
    x.toBits.toNat % Nat.pow 2 63 < infinity := by
  have hexponent :
      @Float.Model.UnpackedFloat.unpackExponent .binary64 x.toModel.toBits.toBitVec ≠ -1#_ := by
    intro hexponent
    delta Float.isFinite Float.Model.isFinite Float.Model.unpack
      Float.Model.UnpackedFloat.unpack at h
    dsimp only at h
    rw [if_pos hexponent] at h
    split at h <;> cases h
  have hexponent : x.toModel.toBits.toNat / 2 ^ 52 % 2 ^ 11 ≠ 2047 := by
    simpa [Float.Model.UnpackedFloat.unpackExponent, ← BitVec.toNat_inj,
      Nat.shiftRight_eq_div_pow] using hexponent
  change x.toModel.toBits.toNat % Nat.pow 2 63 < infinity
  rw [infinity, Nat.pow_eq]
  omega

/-- The text of a finite number is that of its magnitude, behind a minus sign if the sign bit is
set. -/
theorem text_of_isFinite {x : Float} (h : x.isFinite) :
    (text x).toList =
      (if x.toBits.toNat / Nat.pow 2 63 = 0 then [] else ['-']) ++
        magnitudeText (x.toBits.toNat % Nat.pow 2 63) := by
  have hlt := magnitude_lt_infinity h
  rw [text, if_neg (Nat.lt_asymm hlt), if_neg (Nat.ne_of_lt hlt), String.toList_ofList]

theorem isTextChar_of_isFinite {x : Float} (h : x.isFinite) :
    ∀ c ∈ (text x).toList, isTextChar c := by
  intro c hc
  rw [text_of_isFinite h] at hc
  rcases List.mem_append.1 hc with hc | hc
  · split at hc
    · cases hc
    · rw [List.mem_singleton.1 hc]
      rfl
  · exact Decimal.isTextChar_of_ofText? (isSome_ofText?_magnitudeText _) c hc

/-- Two finite doubles with one text are one double. -/
theorem text_injective {x y : Float} (hx : x.isFinite) (hy : y.isFinite) (h : text x = text y) :
    x = y := by
  have hbits : x.toBits.toNat = y.toBits.toNat := by
    have htext := congrArg String.toList h
    rw [text_of_isFinite hx, text_of_isFinite hy] at htext
    have hx64 := x.toBits.toNat_lt
    have hy64 := y.toBits.toNat_lt
    split at htext <;> split at htext
    · have hmagnitude := magnitudeText_injective htext
      simp only [Nat.pow_eq] at *
      omega
    · exact absurd htext (magnitudeText_ne_minus _ _)
    · exact absurd htext.symm (magnitudeText_ne_minus _ _)
    · have hmagnitude := magnitudeText_injective (List.cons.inj htext).2
      simp only [Nat.pow_eq] at *
      omega
  exact eq_of_toBits_eq (UInt64.toNat_inj.1 hbits)

end Treewalk.Number
