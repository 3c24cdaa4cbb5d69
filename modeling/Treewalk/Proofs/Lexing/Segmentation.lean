import Treewalk.Proofs.Lexing.Munch

/-!
# Segmentation of source text

Every text falls into segments of the lexical grammar in exactly one way. The scanner finds them
all, at their places, and keeps the tokens and the errors among them.
-/

namespace Treewalk

open Lexical

/-! ## The first segment -/

/-- Every segment takes at least one character. -/
theorem Lexical.Proper.text_ne_nil {s : Segment} (h : Proper s) : s.text ≠ [] := by
  cases h with
  | blank => simp [Segment.text]
  | comment => simp [Segment.text]
  | @token kind _ _ hlexeme =>
    cases hlexeme with
    | symbol hkind =>
      have hne : ∀ kind ∈ symbols, kind.text.toList ≠ [] := by decide
      exact hne kind hkind
    | reserved hkind =>
      have hne : ∀ kind ∈ TokenKind.reserved, kind.text.toList ≠ [] := by decide
      exact hne kind hkind
    | identifier => simp [Segment.text]
    | whole hne => exact hne
    | fraction => simp [Segment.text]
    | string => simp [Segment.text]

/-- Only strings start with a quote. -/
theorem Lexical.Proper.stringBody {s : Segment} (h : Proper s) {raw : List Char}
    (htext : s.text = '"' :: raw) : ∃ value, StringBody raw value := by
  cases h with
  | blank hc =>
    obtain ⟨rfl, -⟩ := List.cons.inj htext
    exact absurd hc (by decide)
  | comment => exact absurd (List.cons.inj htext).1 (by decide)
  | @token kind _ _ hlexeme =>
    have hhead := congrArg (List.headD · ' ') htext
    cases hlexeme with
    | symbol hkind =>
      have hne : ∀ kind ∈ symbols, kind.text.toList.headD ' ' ≠ '"' := by decide
      exact absurd hhead (hne kind hkind)
    | reserved hkind =>
      have hne : ∀ kind ∈ TokenKind.reserved, kind.text.toList.headD ' ' ≠ '"' := by decide
      exact absurd hhead (hne kind hkind)
    | identifier hc =>
      obtain ⟨rfl, -⟩ := List.cons.inj htext
      exact absurd hc (by decide)
    | whole _ hds =>
      exact absurd (hds '"' (by rw [Segment.text] at htext; simp [htext])) (by decide)
    | @fraction ds fs hne hds =>
      obtain ⟨d, ds, rfl⟩ := List.exists_cons_of_ne_nil hne
      obtain ⟨rfl, -⟩ := List.cons.inj htext
      exact absurd (hds '"' List.mem_cons_self) (by decide)
    | string hbody =>
      obtain ⟨-, rfl⟩ := List.cons.inj htext
      exact ⟨_, hbody⟩

theorem Lexical.First.text_ne_nil {text : List Char} {s : Segment} (h : First text s) :
    text ≠ [] := by
  cases h with
  | longest hproper hpre _ =>
    rintro rfl
    exact hproper.text_ne_nil (List.prefix_nil.1 hpre)
  | stray => simp
  | unclosed => simp

namespace Cursor

variable {cur after : Cursor} {s : Segment}

/-- What is read is the segment that the text starts with. -/
theorem segment?_first (h : cur.segment? = some (s, after)) : First cur.rest s := by
  obtain hproper | ⟨c, rest, rfl, hc, hrest⟩ | ⟨rest, rfl, hrest⟩ := segment?_proper h
  · refine .longest hproper ⟨after.rest, (moved_segment h).rest.symm⟩ fun other hother hpre => ?_
    obtain hlt | rfl := segment?_outdoes h hother hpre
    · exact Nat.le_of_lt hlt
    · exact Nat.le_refl _
  · rw [hrest]
    refine .stray hc fun other hother hpre => ?_
    obtain hlt | rfl := segment?_outdoes h hother (hrest ▸ hpre)
    · exact hother.text_ne_nil (List.eq_nil_of_length_eq_zero (Nat.lt_one_iff.1 hlt))
    · cases hother
  · rw [hrest]
    refine .unclosed fun other hother hpre => ?_
    obtain ⟨text, p⟩ := cur
    obtain rfl : text = '"' :: rest := hrest
    obtain hnil | ⟨raw, htext, tail, rfl⟩ := List.prefix_cons_iff.1 hpre
    · exact hother.text_ne_nil hnil
    -- A string that the text starts with would have been read to its closing quote.
    obtain ⟨value, hbody⟩ := hother.stringBody htext
    have hread := congrArg Prod.fst (Option.some.inj (segment?_quote.symm.trans h))
    simp [stringSegment, closeQuote?_append hbody] at hread

/-- Reading stops at the end of the text only. -/
theorem segment?_eq_none_iff : cur.segment? = none ↔ cur.rest = [] := by
  obtain ⟨_ | ⟨c, rest⟩, p⟩ := cur
  · simp [segment?, next?]
  · simp only [segment?, next?]
    repeat' split
    all_goals simp

/-- The segment that a text starts with is what is read. -/
theorem eq_of_first (h : cur.segment? = some (s, after)) {other : Segment}
    (hother : First cur.rest other) : s = other := by
  have hfirst := segment?_first h
  generalize htext : cur.rest = text at hother hfirst
  cases hother with
  | longest hproper hpre hmax =>
    -- What is read is the longest too, and nothing else is as long as it.
    obtain hlt | rfl := segment?_outdoes h hproper (htext ▸ hpre)
    · cases hfirst with
      | longest hproper' hpre' _ => exact absurd hlt (Nat.not_lt.2 (hmax _ hproper' hpre'))
      | stray _ hnone => exact absurd hpre (hnone _ hproper)
      | unclosed hnone => exact absurd hpre (hnone _ hproper)
    · rfl
  | stray hc hnone =>
    cases hfirst with
    | longest hproper hpre _ => exact absurd hpre (hnone _ hproper)
    | stray => rfl
    | unclosed => exact absurd rfl hc
  | unclosed hnone =>
    cases hfirst with
    | longest hproper hpre _ => exact absurd hpre (hnone _ hproper)
    | stray hc => exact absurd rfl hc
    | unclosed => rfl

/-! ## All segments -/

theorem readSegments_none (h : cur.rest = []) : cur.readSegments = ([], cur) := by
  rw [readSegments]
  split
  · rfl
  · rename_i heq
    rw [segment?_eq_none_iff.2 h] at heq
    cases heq

/-- Reading goes on behind the first segment. -/
theorem readSegments_some (h : cur.segment? = some (s, after)) :
    cur.readSegments = ((cur.position, s) :: after.readSegments.1, after.readSegments.2) := by
  rw [readSegments]
  split
  · rename_i heq
    rw [h] at heq
    cases heq
  · rename_i heq
    rw [h] at heq
    obtain ⟨rfl, rfl⟩ := Prod.mk.inj (Option.some.inj heq)
    rfl

/-- The segments of the unread text, each with the position at which it starts. -/
def segments (cur : Cursor) : List (Position × Segment) :=
  cur.readSegments.1

theorem segments_none (h : cur.rest = []) : cur.segments = [] :=
  congrArg Prod.fst (readSegments_none h)

theorem segments_some (h : cur.segment? = some (s, after)) :
    cur.segments = (cur.position, s) :: after.segments :=
  congrArg Prod.fst (readSegments_some h)

/-- The cursor behind the last segment has read the whole text. -/
theorem readSegments_position (cur : Cursor) :
    cur.readSegments.2.position = cur.position.advance cur.rest := by
  induction hn : cur.rest.length using Nat.strongRecOn generalizing cur with
  | ind n ih =>
    cases h : cur.segment? with
    | none =>
      have hnil := segment?_eq_none_iff.1 h
      rw [readSegments_none hnil, hnil]
      rfl
    | some read =>
      obtain ⟨s, after⟩ := read
      have hmoved := moved_segment h
      rw [readSegments_some h, ih _ (hn ▸ rest_length_lt h) after rfl, hmoved.position,
        hmoved.rest, Position.advance_append]

/-- What is read are the segments of the grammar. -/
theorem segmentation_segments (cur : Cursor) :
    Segmentation cur.rest (cur.segments.map Prod.snd) := by
  induction hn : cur.rest.length using Nat.strongRecOn generalizing cur with
  | ind n ih =>
    cases h : cur.segment? with
    | none =>
      have hnil := segment?_eq_none_iff.1 h
      rw [segments_none hnil, hnil]
      exact .nil
    | some read =>
      obtain ⟨s, after⟩ := read
      have hrest := (moved_segment h).rest
      rw [segments_some h, hrest]
      exact .cons (hrest ▸ segment?_first h) (ih _ (hn ▸ rest_length_lt h) after rfl)

/-- Every text has a segmentation. -/
theorem exists_segmentation (text : List Char) : ∃ segments, Segmentation text segments :=
  ⟨_, segmentation_segments (.start text)⟩

/-- A text falls into segments in one way only. -/
theorem eq_segments_of_segmentation {text : List Char} {segments : List Segment}
    (h : Segmentation text segments) (p : Position) :
    segments = (Cursor.segments ⟨text, p⟩).map Prod.snd := by
  induction h generalizing p with
  | nil => rw [segments_none rfl]; rfl
  | @cons s rest segments hfirst _ ih =>
    cases h : segment? ⟨s.text ++ rest, p⟩ with
    | none => exact absurd (segment?_eq_none_iff.1 h) hfirst.text_ne_nil
    | some read =>
      obtain ⟨s', after, p'⟩ := read
      obtain rfl := eq_of_first h hfirst
      obtain rfl : rest = after := List.append_cancel_left (moved_segment h).rest
      rw [segments_some h, List.map_cons, ← ih p']

end Cursor

/-! ## What every segmentation is like -/

theorem Lexical.First.lexeme {text lexeme : List Char} {kind : TokenKind}
    {literal : Option Literal} (h : First text (.token kind lexeme literal)) :
    Lexeme kind lexeme literal := by
  cases h with
  | longest hproper _ _ =>
    cases hproper with
    | token hlexeme => exact hlexeme

theorem Lexical.First.text_eq {text unclosed : List Char} (h : First text (.unclosed unclosed)) :
    text = unclosed := by
  cases h with
  | longest hproper _ _ => cases hproper
  | unclosed => rfl

namespace Lexical.Segmentation

variable {text : List Char} {segments : List Segment}

/-- Nothing is left out between segments. -/
theorem flatMap_text (h : Segmentation text segments) : segments.flatMap Segment.text = text := by
  induction h with
  | nil => rfl
  | cons _ _ ih => rw [List.flatMap_cons, ih]

theorem lexeme_of_mem (h : Segmentation text segments) {kind : TokenKind} {lexeme : List Char}
    {literal : Option Literal} (hmem : .token kind lexeme literal ∈ segments) :
    Lexeme kind lexeme literal := by
  induction h with
  | nil => cases hmem
  | @cons s rest segments hfirst _ ih =>
    obtain rfl | hmem := List.mem_cons.1 hmem
    · exact hfirst.lexeme
    · exact ih hmem

theorem eq_nil (h : Segmentation [] segments) : segments = [] := by
  generalize htext : ([] : List Char) = text at h
  cases h with
  | nil => rfl
  | cons hfirst _ => exact absurd htext.symm hfirst.text_ne_nil

/-- An unclosed string is the last segment. -/
theorem unclosed_last (h : Segmentation text segments) {pre post : List Segment}
    {unclosed : List Char} (hsegments : segments = pre ++ .unclosed unclosed :: post) :
    post = [] := by
  induction h generalizing pre with
  | nil => simp at hsegments
  | @cons s rest segments hfirst hrest ih =>
    cases pre with
    | cons s' pre =>
      obtain ⟨-, hsegments⟩ := List.cons.inj hsegments
      exact ih hsegments
    | nil =>
      obtain ⟨rfl, rfl⟩ := List.cons.inj hsegments
      -- An unclosed string takes the whole text that it starts.
      obtain rfl : rest = [] := by simpa [Segment.text] using hfirst.text_eq
      exact hrest.eq_nil

end Lexical.Segmentation

/-- Only numbers and strings denote a value, and no text is the end of the input. -/
theorem Lexical.Lexeme.literal_isSome_iff {kind : TokenKind} {text : List Char}
    {literal : Option Literal} (h : Lexeme kind text literal) :
    kind ≠ .eof ∧ (literal.isSome ↔ kind = .number ∨ kind = .string) := by
  cases h with
  | symbol hkind =>
    have hall : ∀ kind ∈ symbols, kind ≠ .eof ∧ kind ≠ .number ∧ kind ≠ .string := by decide
    simpa using hall kind hkind
  | reserved hkind =>
    have hall : ∀ kind ∈ TokenKind.reserved, kind ≠ .eof ∧ kind ≠ .number ∧ kind ≠ .string := by
      decide
    simpa using hall kind hkind
  | identifier => simp
  | whole => simp
  | fraction => simp
  | string => simp

/-- A text that is a token starts with no other segment. -/
theorem Lexical.Lexeme.first {kind : TokenKind} {text : List Char} {literal : Option Literal}
    (h : Lexeme kind text literal) : First text (.token kind text literal) :=
  .longest (.token h) (List.prefix_refl text) fun _ _ hpre => hpre.length_le

/-- A text is a token of one kind only, and denotes one value only. -/
theorem Lexical.Lexeme.unique {kind kind' : TokenKind} {text : List Char}
    {literal literal' : Option Literal} (h : Lexeme kind text literal)
    (h' : Lexeme kind' text literal') : kind = kind' ∧ literal = literal' := by
  cases hread : (Cursor.start text).segment? with
  | none => exact absurd (Cursor.segment?_eq_none_iff.1 hread) (Proper.token h).text_ne_nil
  | some read =>
    obtain ⟨s, after⟩ := read
    have htoken := Cursor.eq_of_first hread h.first
    rw [Cursor.eq_of_first hread h'.first] at htoken
    cases htoken
    exact ⟨rfl, rfl⟩

/-! ## Places -/

theorem Position.behind_concat (text : List Char) (c : Char) :
    behind (text ++ [c]) = (behind text).step c := by
  unfold behind step
  split
  · rename_i hc
    simp [hc]
  · rename_i hc
    simp [hc]

/-- Places add up. -/
theorem Position.behind_append (text more : List Char) :
    behind (text ++ more) = (behind text).advance more := by
  induction more generalizing text with
  | nil => simp
  | cons c more ih =>
    rw [advance_cons, ← behind_concat, ← ih, List.append_assoc, List.singleton_append]

/-- Segments are read at their places. -/
theorem Cursor.segments_eq_placed (cur : Cursor) (before : List Char)
    (h : cur.position = .behind before) :
    cur.segments = Segment.placed before (cur.segments.map Prod.snd) := by
  induction hn : cur.rest.length using Nat.strongRecOn generalizing cur before with
  | ind n ih =>
    cases hread : cur.segment? with
    | none =>
      rw [segments_none (segment?_eq_none_iff.1 hread)]
      rfl
    | some read =>
      obtain ⟨s, after⟩ := read
      -- The cursor has moved past the segment, and its position with it.
      have hafter : after.position = .behind (before ++ s.text) := by
        rw [(moved_segment hread).position, h, ← Position.behind_append]
      rw [segments_some hread, List.map_cons, Segment.placed, h,
        ← ih _ (hn ▸ rest_length_lt hread) after _ hafter rfl]

/-- What scanning makes of the segments of a text. -/
theorem scan_of_segmentation {source : String} {segments : List Segment}
    (h : Segmentation source.toList segments) :
    (scan source).tokens = (Segment.placed [] segments).filterMap (fun (p, s) => s.token? p) ++
        [.endOfInput (source.toList.count '\n' + 1)] ∧
    (scan source).errors = (Segment.placed [] segments).filterMap fun (p, s) => s.error? p := by
  have hplaced := Cursor.segments_eq_placed (.start source.toList) [] rfl
  have hend : (Cursor.start source.toList).readSegments.2.position.line =
      source.toList.count '\n' + 1 := by
    rw [Cursor.readSegments_position]
    exact congrArg Position.line (Position.behind_append [] source.toList).symm
  have hsegments : segments = (Cursor.start source.toList).segments.map Prod.snd :=
    Cursor.eq_segments_of_segmentation h .start
  rw [hsegments, ← hplaced, ← hend]
  exact ⟨rfl, rfl⟩

/-- Every text falls, without gaps, into segments of the lexical grammar, each the longest that
starts where it starts, and it does so in one way only. Only the last segment can be an unclosed
string. Scanning the text gives its tokens, with the line on which each of them starts, and one mark
of the end of the input on the last line, and the errors among the segments, with their
positions. -/
theorem scan_segmentation (source : String) : ∃ segments : List Segment,
    Segmentation source.toList segments ∧
    (∀ other, Segmentation source.toList other → other = segments) ∧
    segments.flatMap Segment.text = source.toList ∧
    (∀ pre text post, segments = pre ++ .unclosed text :: post → post = []) ∧
    (∀ kind text literal, .token kind text literal ∈ segments →
      kind ≠ .eof ∧ (literal.isSome ↔ kind = .number ∨ kind = .string)) ∧
    (scan source).tokens =
      (Segment.placed [] segments).filterMap (fun (p, s) => s.token? p) ++
        [⟨.eof, "", none, source.toList.count '\n' + 1⟩] ∧
    (scan source).errors = (Segment.placed [] segments).filterMap fun (p, s) => s.error? p := by
  have hsegmentation := Cursor.segmentation_segments (.start source.toList)
  exact ⟨_, hsegmentation, fun other hother => Cursor.eq_segments_of_segmentation hother _,
    hsegmentation.flatMap_text, fun _ _ _ => hsegmentation.unclosed_last,
    fun _ _ _ hmem => (hsegmentation.lexeme_of_mem hmem).literal_isSome_iff,
    scan_of_segmentation hsegmentation⟩

end Treewalk
