import Treewalk.Text.Quoted

/-!
# The quoted form of a text tells the text

The escapes of characters are a prefix code in which no code word starts with a double quote. So a
quoted text ends at the first quote that is not part of an escape, whatever stands behind it, and
what stands before it can be read back.
-/

namespace Treewalk.Text

/-- A word that ends where a mark or nothing follows can be told from what follows it. -/
theorem split_at_mark {p : Char → Bool} {word word' rest rest' : List Char}
    (hword : ∀ c ∈ word, ¬ p c) (hword' : ∀ c ∈ word', ¬ p c)
    (hrest : ∀ c ∈ rest.head?, p c) (hrest' : ∀ c ∈ rest'.head?, p c)
    (h : word ++ rest = word' ++ rest') : word = word' ∧ rest = rest' := by
  have htake {word rest : List Char} (hword : ∀ c ∈ word, ¬ p c)
      (hrest : ∀ c ∈ rest.head?, p c) : (word ++ rest).takeWhile (!p ·) = word := by
    rw [List.takeWhile_append_of_pos (by simpa using hword)]
    cases rest with
    | nil => simp
    | cons c rest => simp [hrest c rfl]
  obtain rfl : word = word' := by
    rw [← htake hword hrest, h, htake hword' hrest']
  exact ⟨rfl, List.append_cancel_left h⟩

namespace Quoted

/-! ## Hexadecimal digits -/

theorem digitChar_inj {m n : Nat} (hm : m < 16) (hn : n < 16) (h : m.digitChar = n.digitChar) :
    m = n := by
  have hall : ∀ m < 16, ∀ n < 16, m.digitChar = n.digitChar → m = n := by decide
  exact hall m hm n hn h

/-- Hexadecimal digits tell the number. -/
theorem toDigits_injective : Function.Injective (Nat.toDigits 16) := by
  intro m n h
  induction m using Nat.strongRecOn generalizing n with
  | ind m ih =>
    rw [Nat.toDigits_eq_if (by decide), Nat.toDigits_eq_if (by decide) (n := n)] at h
    split at h <;> split at h
    next hm hn => exact digitChar_inj hm hn (List.head_eq_of_cons_eq h)
    · exact absurd (List.append_inj' (show [] ++ _ = _ from h) rfl).1.symm Nat.toDigits_ne_nil
    · exact absurd (List.append_inj' (show _ = [] ++ _ from h) rfl).1 Nat.toDigits_ne_nil
    next hm hn =>
      obtain ⟨hinit, hlast⟩ := List.append_inj' h rfl
      -- The digits in front of the last one tell the quotient, and the last one the remainder.
      have hdiv := ih (m / 16) (by omega) hinit
      have hmod := digitChar_inj (Nat.mod_lt m (by decide)) (Nat.mod_lt n (by decide))
        (List.head_eq_of_cons_eq hlast)
      omega

/-- The closing brace of an escape is no digit, so that it ends the digits. -/
theorem ne_brace_of_mem_toDigits {n : Nat} {c : Char} (h : c ∈ Nat.toDigits 16 n) :
    c ≠ '\x7d' := by
  induction n using Nat.strongRecOn with
  | ind n ih =>
    rw [Nat.toDigits_eq_if (by decide)] at h
    split at h
    · rw [List.mem_singleton.1 h]
      exact Nat.digitChar_ne '\x7d' (by decide)
    next hn =>
      rcases List.mem_append.1 h with h | h
      · exact ih (n / 16) (by omega) h
      · rw [List.mem_singleton.1 h]
        exact Nat.digitChar_ne '\x7d' (by decide)

/-! ## Escapes -/

/-- The characters that are escaped by a letter, with the letter. -/
def marks : List (Char × Char) :=
  [('\x00', '0'), ('\t', 't'), ('\r', 'r'), ('\n', 'n'), ('\\', '\\'), ('"', '"')]

/-- The three ways in which a character is written. -/
inductive Written (c : Char) : List Char → Prop where
  | marked {mark : Char} (h : (c, mark) ∈ marks) : Written c ['\\', mark]
  | coded : Written c ('\\' :: 'u' :: '\x7b' :: (Nat.toDigits 16 c.toNat ++ ['\x7d']))
  | plain (hslash : c ≠ '\\') (hquote : c ≠ '"') : Written c [c]

/-- Every escape is one of the three forms. -/
theorem written_escape (c : Char) : Written c (escape c) := by
  unfold escape
  split
  iterate 6 exact .marked (by decide)
  split
  · exact .coded
  next hslash hquote _ => exact .plain hslash hquote

/-- No code word starts with a quote. -/
theorem Written.ne_quote {c : Char} {code : List Char} (h : Written c code)
    (rest rest' : List Char) :
    code ++ rest ≠ '"' :: rest' := by
  intro heq
  cases h with
  | marked | coded => exact absurd (List.cons.inj heq).1 (by decide)
  | plain _ hquote => exact hquote (List.cons.inj heq).1

theorem marks_inj : ∀ p ∈ marks, ∀ q ∈ marks, p.2 = q.2 → p.1 = q.1 := by
  decide

theorem mark_ne_u : ∀ p ∈ marks, p.2 ≠ 'u' := by
  decide

/-- No code word is the beginning of another one. -/
theorem Written.inj {c c' : Char} {code code' rest rest' : List Char} (h : Written c code)
    (h' : Written c' code') (heq : code ++ rest = code' ++ rest') : c = c' ∧ rest = rest' := by
  cases h with
  | marked hm =>
    cases h' with
    | marked hm' =>
      simp only [List.cons_append, List.nil_append, List.cons.injEq, true_and] at heq
      exact ⟨marks_inj _ hm _ hm' heq.1, heq.2⟩
    | coded =>
      simp only [List.cons_append, List.nil_append, List.cons.injEq, true_and] at heq
      exact absurd heq.1 (mark_ne_u _ hm)
    | plain hslash => exact absurd (List.cons.inj heq).1.symm hslash
  | coded =>
    cases h' with
    | marked hm' =>
      simp only [List.cons_append, List.nil_append, List.cons.injEq, true_and] at heq
      exact absurd heq.1.symm (mark_ne_u _ hm')
    | coded =>
      simp only [List.cons_append, List.append_assoc, List.nil_append, List.cons.injEq,
        true_and] at heq
      -- The digits end at the brace, which is none of them.
      obtain ⟨hdigits, hrest⟩ := split_at_mark (p := (· == '\x7d'))
        (by simpa using fun _ => ne_brace_of_mem_toDigits)
        (by simpa using fun _ => ne_brace_of_mem_toDigits) (by simp) (by simp) heq
      exact ⟨Char.toNat_inj.1 (toDigits_injective hdigits), (List.cons.inj hrest).2⟩
    | plain hslash => exact absurd (List.cons.inj heq).1.symm hslash
  | plain hslash =>
    cases h' with
    | marked | coded => exact absurd (List.cons.inj heq).1 hslash
    | plain => exact List.cons.inj heq

/-- Two quoted texts with anything behind them that look the same are the same. -/
theorem encode_append_inj {s s' rest rest' : List Char}
    (h : encode s ++ rest = encode s' ++ rest') : s = s' ∧ rest = rest' := by
  simp only [encode, List.cons_append, List.append_assoc, List.nil_append, List.cons.injEq,
    true_and] at h
  induction s generalizing s' with
  | nil =>
    cases s' with
    | nil => exact ⟨rfl, (List.cons.inj h).2⟩
    | cons c' s' =>
      rw [List.flatMap_cons, List.append_assoc] at h
      exact absurd h.symm ((written_escape c').ne_quote _ _)
  | cons c s ih =>
    cases s' with
    | nil =>
      rw [List.flatMap_cons, List.append_assoc] at h
      exact absurd h ((written_escape c).ne_quote _ _)
    | cons c' s' =>
      rw [List.flatMap_cons, List.flatMap_cons, List.append_assoc, List.append_assoc] at h
      obtain ⟨rfl, htail⟩ := (written_escape c).inj (written_escape c') h
      obtain ⟨rfl, rfl⟩ := ih htail
      exact ⟨rfl, rfl⟩

end Quoted

end Treewalk.Text
