import Treewalk.Proofs.Lexing.Lines

/-!
# The order of positions

Every segment takes at least one character, and so each starts behind the one before it. The errors
in the spelling of a text therefore have increasing positions, and the lines of its tokens do not
decrease. None of these lines is before the first or behind the last line of the text.
-/

namespace Treewalk

open Lexical

/-! ## Positions -/

namespace Position

/-- The first position stands before the second. -/
def Before (p q : Position) : Prop :=
  p.line < q.line ∨ p.line = q.line ∧ p.column < q.column

theorem Before.line_le {p q : Position} (h : p.Before q) : p.line ≤ q.line := by
  unfold Before at h
  omega

theorem Before.trans {p q r : Position} (h : p.Before q) (h' : q.Before r) : p.Before r := by
  unfold Before at *
  omega

theorem before_step (p : Position) (c : Char) : p.Before (p.step c) := by
  unfold step
  split
  · exact .inl (Nat.lt_succ_self _)
  · exact .inr ⟨rfl, Nat.lt_succ_self _⟩

theorem before_advance (p : Position) {text : List Char} (h : text ≠ []) :
    p.Before (p.advance text) := by
  induction text generalizing p with
  | nil => exact absurd rfl h
  | cons c text ih =>
    cases text with
    | nil => exact p.before_step c
    | cons d text => exact (p.before_step c).trans (ih _ (by simp))

end Position

/-! ## Segments -/

theorem Lexical.First.segment_text_ne_nil {text : List Char} {s : Segment} (h : First text s) :
    s.text ≠ [] := by
  cases h with
  | longest hproper _ _ => exact hproper.text_ne_nil
  | stray | unclosed => simp [Segment.text]

theorem Lexical.Segmentation.text_ne_nil {text : List Char} {segments : List Segment}
    (h : Segmentation text segments) : ∀ s ∈ segments, s.text ≠ [] := by
  induction h with
  | nil => simp
  | cons hfirst _ ih => exact List.forall_mem_cons.2 ⟨hfirst.segment_text_ne_nil, ih⟩

namespace Segment

/-- A segment stands behind those before it. -/
theorem exists_of_mem_placed {before : List Char} {segments : List Segment} {p : Position}
    {s : Segment} (h : (p, s) ∈ placed before segments) :
    ∃ text, text <+: segments.flatMap Segment.text ∧ p = .behind (before ++ text) := by
  induction segments generalizing before with
  | nil => cases h
  | cons s' segments ih =>
    obtain heq | hmem := List.mem_cons.1 h
    · cases heq
      exact ⟨[], List.nil_prefix, by simp⟩
    · obtain ⟨text, hpre, rfl⟩ := ih hmem
      exact ⟨s'.text ++ text, (List.prefix_append_right_inj _).2 hpre, by simp⟩

/-- Segments stand at increasing positions. -/
theorem placed_pairwise {segments : List Segment} (hne : ∀ s ∈ segments, s.text ≠ [])
    (before : List Char) : (placed before segments).Pairwise fun a b => a.1.Before b.1 := by
  induction segments generalizing before with
  | nil => exact .nil
  | cons s segments ih =>
    obtain ⟨hs, hsegments⟩ := List.forall_mem_cons.1 hne
    refine .cons (fun other hmem => ?_) (ih hsegments _)
    -- The first segment stands between its own position and all positions behind it.
    obtain ⟨text, -, hplace⟩ := exists_of_mem_placed hmem
    rw [hplace, List.append_assoc, Position.behind_append]
    exact Position.before_advance _ (by simp [hs])

/-- A token is on the line on which its segment starts. -/
theorem token?_line {p : Position} {s : Segment} {t : Token} (h : s.token? p = some t) :
    t.line = p.line := by
  cases s <;> cases h
  rfl

theorem error?_position {p : Position} {s : Segment} {e : LexicalError}
    (h : s.error? p = some e) : e.position = p := by
  cases s <;> cases h <;> rfl

end Segment

/-! ## What scanning gives -/

/-- Errors are listed in the order of the text. -/
theorem scan_errors_pairwise (source : String) :
    (scan source).errors.Pairwise fun a b => a.position.Before b.position := by
  obtain ⟨segments, hsegments⟩ := Cursor.exists_segmentation source.toList
  rw [(scan_of_segmentation hsegments).2]
  refine (Segment.placed_pairwise hsegments.text_ne_nil []).filterMap _ ?_
  intro a b hbefore e he e' he'
  rwa [Segment.error?_position he, Segment.error?_position he']

/-- A line of the text. -/
def IsLineOf (source : String) (line : Nat) : Prop :=
  1 ≤ line ∧ line ≤ source.toList.count '\n' + 1

theorem isLineOf_of_mem_placed {source : String} {segments : List Segment}
    (hsegments : Segmentation source.toList segments) {p : Position} {s : Segment}
    (h : (p, s) ∈ Segment.placed [] segments) : IsLineOf source p.line := by
  obtain ⟨text, hpre, rfl⟩ := Segment.exists_of_mem_placed h
  rw [hsegments.flatMap_text] at hpre
  exact ⟨Nat.le_add_left _ _, Nat.succ_le_succ (hpre.sublist.count_le _)⟩

theorem isLineOf_of_mem_errors {source : String} {e : LexicalError}
    (h : e ∈ (scan source).errors) : IsLineOf source e.position.line := by
  obtain ⟨segments, hsegments⟩ := Cursor.exists_segmentation source.toList
  rw [(scan_of_segmentation hsegments).2] at h
  obtain ⟨⟨p, s⟩, hmem, he⟩ := List.mem_filterMap.1 h
  rw [Segment.error?_position he]
  exact isLineOf_of_mem_placed hsegments hmem

/-- Tokens are on lines of the text. The end of the input is on the last one. -/
theorem isLineOf_of_mem_tokens {source : String} {t : Token}
    (h : t ∈ (scan source).tokens) : IsLineOf source t.line := by
  obtain ⟨segments, hsegments⟩ := Cursor.exists_segmentation source.toList
  rw [(scan_of_segmentation hsegments).1] at h
  obtain hmem | hend := List.mem_append.1 h
  · obtain ⟨⟨p, s⟩, hmem, ht⟩ := List.mem_filterMap.1 hmem
    rw [Segment.token?_line ht]
    exact isLineOf_of_mem_placed hsegments hmem
  · cases List.mem_singleton.1 hend
    exact ⟨Nat.le_add_left _ _, Nat.le_refl _⟩

/-- Tokens are listed in the order of their lines. -/
theorem scan_tokens_pairwise (source : String) :
    (scan source).tokens.Pairwise fun a b => a.line ≤ b.line := by
  obtain ⟨segments, hsegments⟩ := Cursor.exists_segmentation source.toList
  have hlast : ∀ t ∈ (scan source).tokens, t.line ≤ source.toList.count '\n' + 1 :=
    fun t ht => (isLineOf_of_mem_tokens ht).2
  rw [(scan_of_segmentation hsegments).1] at hlast ⊢
  refine List.pairwise_append.2 ⟨?_, List.pairwise_singleton _ _, fun t ht e he => ?_⟩
  · refine (Segment.placed_pairwise hsegments.text_ne_nil []).filterMap _ ?_
    intro a b hbefore t ht t' ht'
    rw [Segment.token?_line ht, Segment.token?_line ht']
    exact hbefore.line_le
  · -- The end of the input is on the last line, and no token is on a later one.
    cases List.mem_singleton.1 he
    exact hlast t (List.mem_append_left _ ht)

end Treewalk
