import Treewalk.Proofs.Lexing.Lines
import Treewalk.Text.Space

/-!
# White space around a line

White space at the ends of a line makes no tokens. In front of the line each character of it is a
segment of its own, a blank or a stray character. Behind the line it is so too, unless the line ends
in a comment or in a string without a closing quote: these take in what stands behind them.
-/

namespace Treewalk

open Lexical

/-! ## White space characters -/

/-- White space, which may be other than ASCII, is not in words. -/
theorem isWordChar_eq_false_of_isSpace {c : Char} (h : Text.isSpace c) : isWordChar c = false := by
  have hcode : c.val.toNat = c.toNat := rfl
  simp only [Text.isSpace, Bool.or_eq_true, Bool.and_eq_true, decide_eq_true_eq, beq_iff_eq] at h
  cases hword : isWordChar c with
  | false => rfl
  | true =>
    obtain rfl | halpha | hdigit : c = '_' ∨ c.isAlpha ∨ c.isDigit := by
      simpa [isWordChar, Char.isAlphanum] using hword
    · simp at h
    -- The ranges of letters and of white space are compared as numbers.
    · change (decide (c.val ≥ 65 ∧ c.val ≤ 90) || c.val ≥ 97 && c.val ≤ 122) = true at halpha
      simp only [Bool.or_eq_true, Bool.and_eq_true, decide_eq_true_eq, ge_iff_le,
        UInt32.le_iff_toNat_le, hcode, UInt32.reduceToNat] at halpha
      omega
    · simp only [Char.isDigit, Bool.and_eq_true, decide_eq_true_eq, ge_iff_le,
        UInt32.le_iff_toNat_le, hcode, Char.reduceVal, UInt32.reduceToNat] at hdigit
      omega

theorem not_mem_symbolChars_of_isSpace {c : Char} (h : Text.isSpace c) : c ∉ symbolChars := by
  have hall : symbolChars.all fun d => !Text.isSpace d := by decide
  intro hmem
  have hnot := List.all_eq_true.1 hall c hmem
  simp [h] at hnot

/-- White space is in blanks, in comments and in strings. -/
theorem Lexical.Proper.of_space_mem {s : Segment} (h : Proper s) {c : Char} (hc : Text.isSpace c)
    (hmem : c ∈ s.text) :
    s = .blank c ∨ (∃ cs, s = .comment ('/' :: '/' :: cs)) ∨ ∃ raw, s.text = '"' :: raw := by
  cases h with
  | blank =>
    obtain rfl := List.mem_singleton.1 hmem
    exact .inl rfl
  | comment => exact .inr (.inl ⟨_, rfl⟩)
  | token hlexeme =>
    exact .inr (.inr (hlexeme.of_char_mem (isWordChar_eq_false_of_isSpace hc)
      (not_mem_symbolChars_of_isSpace hc) hmem))

/-- The segment that a white space character is on its own. -/
def Segment.ofSpace (c : Char) : Segment :=
  if isBlank c then .blank c else .stray c

theorem Segment.ofSpace_text (c : Char) : (ofSpace c).text = [c] := by
  unfold ofSpace
  split <;> rfl

theorem Segment.ofSpace_token? (p : Position) (c : Char) : (ofSpace c).token? p = none := by
  unfold ofSpace
  split <;> rfl

theorem Segment.ofSpace_error?_eq_none_iff (p : Position) (c : Char) :
    (ofSpace c).error? p = none ↔ isBlank c := by
  unfold ofSpace
  split <;> simp_all [error?]

/-- A white space character is a segment of its own at the start of a text. -/
theorem first_space {c : Char} (hc : Text.isSpace c) (rest : List Char) :
    First (c :: rest) (.ofSpace c) := by
  unfold Segment.ofSpace
  split
  next hblank => exact first_blank hblank rest
  next hblank =>
    have hquote : c ≠ '"' := by rintro rfl; exact absurd hc (by decide)
    -- Nothing that is longer starts with it: only comments and strings hold white space, and they
    -- start with something else.
    refine .stray hquote fun other hother hpre => ?_
    obtain hnil | ⟨tail, htext, -⟩ := List.prefix_cons_iff.1 hpre
    · exact hother.text_ne_nil hnil
    obtain rfl | ⟨cs, rfl⟩ | ⟨raw, hraw⟩ := hother.of_space_mem hc (by simp [htext])
    · cases hother with
      | blank hmem => exact hblank (isBlank_iff.2 hmem)
    · obtain ⟨rfl, -⟩ := List.cons.inj htext
      exact absurd hc (by decide)
    · exact hquote (List.cons.inj (htext.symm.trans hraw)).1

/-! ## Segments with white space behind them -/

/-- Whether a segment goes on up to the end of its line. -/
def Segment.isOpen : Segment → Bool
  | comment _ => true
  | unclosed _ => true
  | _ => false

/-- The segment with more text in it, if it goes on. -/
def Segment.extend (more : List Char) : Segment → Segment
  | comment text => comment (text ++ more)
  | unclosed text => unclosed (text ++ more)
  | s => s

theorem Segment.extend_text {s : Segment} (h : s.isOpen) (more : List Char) :
    (s.extend more).text = s.text ++ more := by
  cases s with
  | comment => rfl
  | unclosed => rfl
  | _ => cases h

theorem Segment.extend_token? (p : Position) (more : List Char) (s : Segment) :
    (s.extend more).token? p = s.token? p := by
  cases s <;> rfl

theorem Segment.extend_error? (p : Position) (more : List Char) (s : Segment) :
    (s.extend more).error? p = s.error? p := by
  cases s <;> rfl

/-- White space on one line. -/
def IsMargin (text : List Char) : Prop :=
  ∀ c ∈ text, Text.isSpace c ∧ c ≠ '\n'

theorem IsMargin.newline_not_mem {margin : List Char} (h : IsMargin margin) : '\n' ∉ margin :=
  fun hmem => (h _ hmem).2 rfl

/-- White space in front of a text is one segment for each character. -/
theorem IsMargin.segmentation {margin rest : List Char} {segments : List Segment}
    (h : IsMargin margin) (hrest : Segmentation rest segments) :
    Segmentation (margin ++ rest) (margin.map .ofSpace ++ segments) :=
  .chars_append (fun c hc => ⟨Segment.ofSpace_text c, first_space (h c hc).1⟩) hrest

theorem Lexical.First.unique {text : List Char} {s s' : Segment} (h : First text s)
    (h' : First text s') : s = s' := by
  cases hread : Cursor.segment? ⟨text, .start⟩ with
  | none => exact absurd (Cursor.segment?_eq_none_iff.1 hread) h.text_ne_nil
  | some read => exact (Cursor.eq_of_first hread h).symm.trans (Cursor.eq_of_first hread h')

/-- On a line, a comment goes on up to the end. -/
theorem first_comment {cs : List Char} (hline : '\n' ∉ cs) :
    First ('/' :: '/' :: cs) (.comment ('/' :: '/' :: cs)) :=
  .longest (.comment hline) (List.prefix_refl _) fun _ _ hpre => hpre.length_le

/-- A segment that does not go on ends where it ended before, if white space follows. -/
theorem Lexical.First.append_margin {text margin : List Char} {s : Segment} (h : First text s)
    (hopen : s.isOpen = false) (hline : '\n' ∉ text) (hmargin : IsMargin margin) :
    First (text ++ margin) s := by
  cases margin with
  | nil => rwa [List.append_nil]
  | cons c more =>
    have hc := (hmargin c List.mem_cons_self).1
    refine h.append_cons (fun _ hs => by simp [hs, Segment.isOpen] at hopen)
      (fun other hother tail htext => ?_) more
    -- What would be longer has the white space in it.
    obtain ⟨d, ds, rfl⟩ := List.exists_cons_of_ne_nil h.text_ne_nil
    obtain rfl | ⟨cs, rfl⟩ | hquote := hother.of_space_mem hc (by simp [htext])
    · simp [Segment.text] at htext
    · -- The second slash of the comment is not the white space, and so the text starts with one.
      obtain ⟨rfl, hbehind⟩ := List.cons.inj htext
      cases ds with
      | nil =>
        obtain ⟨rfl, -⟩ := List.cons.inj hbehind
        exact absurd hc (by decide)
      | cons e ds =>
        obtain ⟨rfl, -⟩ := List.cons.inj hbehind
        obtain rfl := h.unique (first_comment fun hmem => hline (by simp [hmem]))
        cases hopen
    · exact hquote

/-- The body of a string ends with its closing quote. -/
theorem Lexical.StringBody.exists_concat {raw value : List Char} (h : StringBody raw value) :
    ∃ inside, raw = inside ++ ['"'] := by
  induction h with
  | close => exact ⟨[], rfl⟩
  | escape c _ ih =>
    obtain ⟨inside, rfl⟩ := ih
    exact ⟨'\\' :: c :: inside, rfl⟩
  | plain _ _ _ ih =>
    obtain ⟨inside, rfl⟩ := ih
    exact ⟨_ :: inside, rfl⟩

/-- White space does not close a string. -/
theorem Lexical.First.unclosed_append {text unclosed margin : List Char}
    (h : First text (.unclosed unclosed)) (hmargin : IsMargin margin) :
    First (text ++ margin) (.unclosed (unclosed ++ margin)) := by
  cases margin with
  | nil => simpa using h
  | cons c more =>
    cases h with
    | longest hproper => cases hproper
    | @unclosed rest hnone =>
      suffices hnone : ∀ other, Proper other → ¬other.text <+: '"' :: (rest ++ c :: more) from
        .unclosed hnone
      intro other hother hpre
      obtain hinside | ⟨tail, htext⟩ : other.text <+: '"' :: rest ∨ _ := prefix_append_cons hpre
      · exact hnone other hother hinside
      have hquote : other.text = '"' :: (rest ++ c :: tail) := htext
      obtain ⟨value, hbody⟩ := hother.stringBody hquote
      obtain ⟨inside, hinside⟩ := hbody.exists_concat
      -- The closing quote would be white space.
      have hlast : '"' ∈ c :: tail := by
        have hlast := congrArg List.getLast? hinside
        rw [List.getLast?_append, List.getLast?_concat, List.getLast?_cons, Option.some_or] at hlast
        exact List.mem_of_getLast? (List.getLast?_cons.trans hlast)
      have hpre' : c :: tail <+: c :: more := by
        rw [htext] at hpre
        exact (List.prefix_append_right_inj ('"' :: rest)).1 hpre
      exact absurd (hmargin _ (hpre'.subset hlast)).1 (by decide)

/-- A segment that goes on takes in the white space behind it. -/
theorem Lexical.First.extend {text margin : List Char} {s : Segment} (h : First text s)
    (hopen : s.isOpen) (hline : '\n' ∉ text) (hmargin : IsMargin margin) :
    s.text = text ∧ First (text ++ margin) (s.extend margin) := by
  cases s with
  | comment comment =>
    obtain ⟨cs, rfl⟩ : ∃ cs, text = '/' :: '/' :: cs := by
      cases h with
      | longest hproper hpre _ =>
        cases hproper with
        | @comment cs _ =>
          obtain ⟨rest, rfl⟩ := hpre
          exact ⟨cs ++ rest, rfl⟩
    have hcs : '\n' ∉ cs := fun hmem => hline (by simp [hmem])
    obtain rfl := Segment.comment.inj (h.unique (first_comment hcs))
    refine ⟨rfl, @first_comment (cs ++ margin) fun hmem => ?_⟩
    exact (List.mem_append.1 hmem).elim hcs hmargin.newline_not_mem
  | unclosed => exact ⟨h.text_eq.symm, h.unclosed_append hmargin⟩
  | _ => cases hopen

/-- A line with white space behind it: if its last segment goes on, this segment takes in the white
space, and otherwise there is one more segment for each character of it. -/
theorem Lexical.Segmentation.append_margin {text margin : List Char} {segments : List Segment}
    (h : Segmentation text segments) (hline : '\n' ∉ text) (hmargin : IsMargin margin) :
    (∃ front s, segments = front ++ [s] ∧ s.isOpen ∧
      Segmentation (text ++ margin) (front ++ [s.extend margin])) ∨
    (∀ s ∈ segments, s.isOpen = false) ∧
      Segmentation (text ++ margin) (segments ++ margin.map .ofSpace) := by
  induction h with
  | nil =>
    exact .inr ⟨by simp, by simpa using hmargin.segmentation .nil⟩
  | @cons s rest segments hfirst hrest ih =>
    rw [List.append_assoc]
    cases hopen : s.isOpen with
    | true =>
      -- It takes the rest of the line, and so it is the last segment.
      obtain ⟨htext, hextend⟩ := hfirst.extend hopen hline hmargin
      obtain rfl : rest = [] := by simpa using htext
      obtain rfl := hrest.eq_nil
      refine .inl ⟨[], s, rfl, hopen, ?_⟩
      rw [List.append_nil, ← Segment.extend_text hopen] at hextend
      rw [List.nil_append, ← Segment.extend_text hopen]
      exact hextend.segmentation
    | false =>
      have hfirst := hfirst.append_margin hopen hline hmargin
      rw [List.append_assoc] at hfirst
      obtain ⟨front, last, rfl, hlast, hsegments⟩ | ⟨hnone, hsegments⟩ :=
        ih fun hmem => hline (List.mem_append_right _ hmem)
      · exact .inl ⟨s :: front, last, rfl, hlast, .cons hfirst hsegments⟩
      · exact .inr ⟨List.forall_mem_cons.2 ⟨hopen, hnone⟩, .cons hfirst hsegments⟩

/-! ## Scanning -/

theorem Segment.exists_mem_placed_iff {segments : List Segment} {s : Segment} :
    (∃ p, (p, s) ∈ placed [] segments) ↔ s ∈ segments := by
  conv => rhs; rw [← map_snd_placed [] segments]
  simp

/-- White space alone makes no tokens, and no errors if it consists of blanks. -/
theorem scan_margin {margin : List Char} (h : IsMargin margin) :
    (scan (String.ofList margin)).tokens = [.endOfInput 1] ∧
    ((scan (String.ofList margin)).errors = [] ↔ margin.all isBlank) := by
  obtain ⟨htokens, herrors⟩ := @scan_of_segmentation (String.ofList margin) (margin.map .ofSpace)
    (by simpa using h.segmentation .nil)
  have hspace {p : Position} {s : Segment}
      (hmem : (p, s) ∈ Segment.placed [] (margin.map .ofSpace)) : ∃ c ∈ margin, .ofSpace c = s :=
    List.mem_map.1 (Segment.exists_mem_placed_iff.1 ⟨p, hmem⟩)
  constructor
  · have hline : margin.count '\n' = 0 := List.count_eq_zero.2 h.newline_not_mem
    rw [htokens, String.toList_ofList, hline, List.filterMap_eq_nil_iff.2]
    · rfl
    · rintro ⟨p, s⟩ hmem
      obtain ⟨c, -, rfl⟩ := hspace hmem
      exact Segment.ofSpace_token? p c
  · rw [herrors, List.filterMap_eq_nil_iff, List.all_eq_true]
    constructor
    · intro hnone c hc
      obtain ⟨p, hmem⟩ := Segment.exists_mem_placed_iff.2 (List.mem_map_of_mem hc)
      exact (Segment.ofSpace_error?_eq_none_iff p c).1 (hnone _ hmem)
    · rintro hblank ⟨p, s⟩ hmem
      obtain ⟨c, hc, rfl⟩ := hspace hmem
      exact (Segment.ofSpace_error?_eq_none_iff p c).2 (hblank c hc)

theorem map_down_of_line {text : List Char} (h : '\n' ∉ text) (ts : List Token) :
    ts.map (Token.down (text.count '\n')) = ts := by
  rw [List.count_eq_zero.2 h]
  exact List.map_id ts

/-- White space in front of a text. -/
theorem scan_margin_append {margin : List Char} (h : IsMargin margin) (rest : List Char) :
    (scan (String.ofList (margin ++ rest))).tokens = (scan (String.ofList rest)).tokens ∧
    (scan (String.ofList (margin ++ rest))).errors = (scan (String.ofList margin)).errors ++
      (scan (String.ofList rest)).errors.map (LexicalError.after margin) := by
  obtain ⟨segments, hrest⟩ := Cursor.exists_segmentation rest
  obtain ⟨htokens, herrors⟩ := scan_append (a := String.ofList margin) (b := String.ofList rest)
    (by simpa using h.segmentation .nil) (by simpa using hrest)
    (by simpa using h.segmentation hrest)
  rw [(scan_margin h).1, String.toList_ofList, map_down_of_line h.newline_not_mem] at htokens
  rw [String.toList_ofList] at herrors
  rw [String.ofList_append]
  exact ⟨htokens, herrors⟩

/-- Whether a line ends in a comment or in a string without a closing quote. -/
def endsOpen (text : List Char) : Bool :=
  ((Cursor.start text).segments.map Prod.snd).any Segment.isOpen

/-- By any segmentation, since there is only one. -/
theorem endsOpen_iff {text : List Char} {segments : List Segment} (h : Segmentation text segments) :
    endsOpen text ↔ ∃ s ∈ segments, s.isOpen := by
  rw [Cursor.eq_segments_of_segmentation h .start]
  exact List.any_eq_true

/-- White space behind a line. -/
theorem scan_append_margin {text margin : List Char} (hline : '\n' ∉ text)
    (hmargin : IsMargin margin) :
    (scan (String.ofList (text ++ margin))).tokens = (scan (String.ofList text)).tokens ∧
    (scan (String.ofList (text ++ margin))).errors = (scan (String.ofList text)).errors ++
      if endsOpen text then []
      else (scan (String.ofList margin)).errors.map (LexicalError.after text) := by
  obtain ⟨segments, hsegments⟩ := Cursor.exists_segmentation text
  obtain ⟨front, s, rfl, hopen, hboth⟩ | ⟨hclosed, hboth⟩ := hsegments.append_margin hline hmargin
  · have hends : endsOpen text := (endsOpen_iff hsegments).2 ⟨s, by simp, hopen⟩
    obtain ⟨htokens, herrors⟩ := @scan_of_segmentation (String.ofList text) _
      (by simpa using hsegments)
    obtain ⟨htokens', herrors'⟩ := @scan_of_segmentation (String.ofList (text ++ margin)) _
      (by simpa using hboth)
    -- The last segment takes in the margin, and nothing else changes.
    have hcount : (text ++ margin).count '\n' = text.count '\n' := by
      rw [List.count_append, List.count_eq_zero.2 hmargin.newline_not_mem]
      rfl
    rw [if_pos hends, htokens, herrors, htokens', herrors']
    simp [Segment.placed_append, Segment.placed, List.filterMap_cons, Segment.extend_token?,
      Segment.extend_error?, hcount]
  · have hends : endsOpen text = false := by
      rw [← Bool.not_eq_true, endsOpen_iff hsegments]
      rintro ⟨s, hs, hopen⟩
      simp [hclosed s hs] at hopen
    obtain ⟨htokens, herrors⟩ := scan_append (a := String.ofList text) (b := String.ofList margin)
      (by simpa using hsegments) (by simpa using hmargin.segmentation .nil)
      (by simpa using hboth)
    rw [(scan_margin hmargin).1, String.toList_ofList, map_down_of_line hline] at htokens
    rw [String.toList_ofList] at herrors
    rw [hends, String.ofList_append, herrors, htokens]
    refine ⟨?_, rfl⟩
    conv => rhs; rw [scan_tokens_eq, String.toList_ofList, List.count_eq_zero.2 hline]

end Treewalk
