import Treewalk.Proofs.Lexing.Lines

/-!
# Scanning lexemes again

The lexeme of a token is all that the scanner needs to find the token again. The lexemes of a text,
one behind the other with blanks between them, are scanned to the same tokens, whatever stood
between these in the text and whatever was wrong with it.
-/

namespace Treewalk

open Lexical

/-! ## Lexemes with blanks between them -/

/-- A run of blanks that is not empty. -/
structure Gap where
  text : List Char
  text_ne_nil : text ≠ []
  blank : ∀ c ∈ text, isBlank c

def Gap.space : Gap := ⟨[' '], by simp, by simp [isBlank]⟩

/-- The texts one behind the other, with a gap between any two. A gap is given by the number of the
texts behind it. -/
def joined (gap : Nat → Gap) : List (List Char) → List Char
  | [] => []
  | [text] => text
  | text :: next :: texts =>
    text ++ ((gap (texts.length + 1)).text ++ joined gap (next :: texts))

theorem joined_space (texts : List (List Char)) :
    joined (fun _ => .space) texts = [' '].intercalate texts := by
  induction texts with
  | nil => rfl
  | cons text texts ih =>
    cases texts with
    | nil => simp [joined]
    | cons next texts =>
      rw [joined, ih]
      simp [Gap.space]

/-- A token in front of a blank is read up to the blank. -/
theorem Lexical.Lexeme.first_append_blank {kind : TokenKind} {text : List Char}
    {literal : Option Literal} (h : Lexeme kind text literal) {b : Char} (hb : isBlank b)
    (more : List Char) : First (text ++ b :: more) (.token kind text literal) := by
  refine h.first.append_cons (by simp) (fun other hother tail htext => ?_) more
  obtain ⟨c, cs, rfl⟩ := List.exists_cons_of_ne_nil h.first.text_ne_nil
  cases hother with
  | blank => simp [Segment.text] at htext
  | comment =>
    -- A comment has a second slash where the blank is, or no token starts as it does.
    obtain ⟨rfl, hbehind⟩ := List.cons.inj htext
    cases cs with
    | nil =>
      obtain ⟨rfl, -⟩ := List.cons.inj hbehind
      exact absurd hb (by decide)
    | cons d cs =>
      obtain ⟨rfl, -⟩ := List.cons.inj hbehind
      cases Cursor.eq_of_first (Cursor.segment?_comment (p := .start)) h.first
  | token hother => exact hother.of_blank_mem hb (by rw [Segment.text] at htext; simp [htext])

theorem Lexical.Lexeme.segmentation {kind : TokenKind} {text : List Char} {literal : Option Literal}
    (h : Lexeme kind text literal) : Segmentation text [.token kind text literal] :=
  First.segmentation (s := .token kind text literal) h.first

theorem Lexical.Segmentation.blanks {gap more : List Char} {segments : List Segment}
    (hgap : ∀ c ∈ gap, isBlank c) (h : Segmentation more segments) :
    Segmentation (gap ++ more) (gap.map .blank ++ segments) :=
  .chars_append (fun c hc => ⟨rfl, first_blank (hgap c hc)⟩) h

/-! ## Tokens without their lines -/

/-- What a token is apart from its line. -/
def Token.spelling (t : Token) : TokenKind × String × Option Literal :=
  (t.kind, t.lexeme, t.literal)

/-- The token that a segment makes, apart from its line. -/
def Segment.spelling? : Segment → Option (TokenKind × String × Option Literal)
  | token kind text literal => some (kind, String.ofList text, literal)
  | _ => none

theorem Segment.map_token?_spelling (p : Position) (s : Segment) :
    (s.token? p).map Token.spelling = s.spelling? := by
  cases s <;> rfl

theorem Lexical.Proper.error?_eq_none {s : Segment} (h : Proper s) (p : Position) :
    s.error? p = none := by
  cases h <;> rfl

/-- Scanning the text gives the tokens, though perhaps on other lines, and reports no error. -/
structure ScansTo (text : String) (ts : List Token) : Prop where
  errors : (scan text).errors = []
  tokens : (scan text).tokens.map Token.spelling = ts.map Token.spelling ++ [(.eof, "", none)]

/-- Segments of the grammar make these tokens, and no errors. -/
theorem scansTo_of_segmentation {text : String} {segments : List Segment} {ts : List Token}
    (h : Segmentation text.toList segments) (hproper : ∀ s ∈ segments, Proper s)
    (hts : segments.filterMap Segment.spelling? = ts.map Token.spelling) : ScansTo text ts := by
  obtain ⟨htokens, herrors⟩ := scan_of_segmentation h
  have hplaced := Segment.map_snd_placed [] segments
  constructor
  · rw [herrors, List.filterMap_eq_nil_iff]
    intro ⟨p, s⟩ hmem
    have hs : s ∈ segments := hplaced ▸ List.mem_map_of_mem (f := Prod.snd) hmem
    exact (hproper s hs).error?_eq_none p
  · have hspelling := List.map_filterMap (f := fun x : Position × Segment => x.2.token? x.1)
      (g := Token.spelling) (l := Segment.placed [] segments)
    simp only [Segment.map_token?_spelling] at hspelling
    rw [htokens, List.map_append, hspelling, ← hts, ← hplaced, List.filterMap_map, hplaced]
    rfl

/-- Each lexeme is a segment, and so is each blank of a gap. -/
theorem exists_segmentation_joined (gap : Nat → Gap) {ts : List Token}
    (hts : ∀ t ∈ ts, Lexeme t.kind t.lexeme.toList t.literal) :
    ∃ segments, Segmentation (joined gap (ts.map (·.lexeme.toList))) segments ∧
      (∀ s ∈ segments, Proper s) ∧
      segments.filterMap Segment.spelling? = ts.map Token.spelling := by
  induction ts with
  | nil => exact ⟨[], .nil, by simp, rfl⟩
  | cons t ts ih =>
    obtain ⟨ht, hts⟩ := List.forall_mem_cons.1 hts
    have htoken : (Segment.token t.kind t.lexeme.toList t.literal).spelling? = some t.spelling := by
      simp [Segment.spelling?, Token.spelling]
    cases ts with
    | nil => exact ⟨[_], ht.segmentation, by simpa using .token ht, by simp [htoken]⟩
    | cons u ts =>
      obtain ⟨segments, hsegments, hproper, hspelling⟩ := ih hts
      have hblank := (gap (ts.length + 1)).blank
      -- A lexeme ends at the first blank of the gap, which is why gaps must not be empty.
      obtain ⟨b, bs, hgap⟩ := List.exists_cons_of_ne_nil (gap (ts.length + 1)).text_ne_nil
      rw [hgap] at hblank
      refine ⟨.token t.kind t.lexeme.toList t.literal :: ((b :: bs).map .blank ++ segments),
        ?_, ?_, ?_⟩
      · rw [List.map_cons, List.map_cons, joined, List.length_map, hgap]
        exact .cons (s := .token ..) (ht.first_append_blank (hblank b List.mem_cons_self) _)
          (hsegments.blanks hblank)
      · refine List.forall_mem_cons.2 ⟨.token ht, fun s hs => ?_⟩
        obtain hs | hs := List.mem_append.1 hs
        · obtain ⟨c, hc, rfl⟩ := List.mem_map.1 hs
          exact .blank (isBlank_iff.1 (hblank c hc))
        · exact hproper s hs
      · have hnone : ((b :: bs).map Segment.blank).filterMap Segment.spelling? = [] := by
          simp [Segment.spelling?]
        rw [List.filterMap_cons_some htoken, List.filterMap_append, hnone, hspelling]
        rfl

/-- The tokens of a text without the mark of the end of the input. -/
def tokensOf (source : String) : List Token :=
  (scan source).tokens.filter (·.kind ≠ .eof)

/-- Scanning a text and then its lexemes gives the same tokens again. Take the tokens of any text,
be it scanned with errors or without, and write their lexemes with a space, or any other gap of
blanks, between any two of them. What is so written is scanned without errors to tokens of the same
kinds, with the same lexemes and the same values, in the same order, and then the end of the
input. -/
theorem lexemes_scan_to_tokens (source : String) :
    ScansTo (" ".intercalate ((tokensOf source).map Token.lexeme)) (tokensOf source) ∧
    ∀ gap : Nat → Gap, ScansTo
      (String.ofList (joined gap ((tokensOf source).map (·.lexeme.toList)))) (tokensOf source) := by
  have hlexemes : ∀ t ∈ tokensOf source, Lexeme t.kind t.lexeme.toList t.literal := by
    intro t ht
    rw [tokensOf, scan_tokens_filter] at ht
    exact lexeme_of_mem_scan ht
  have hscans : ∀ gap : Nat → Gap, ScansTo
      (String.ofList (joined gap ((tokensOf source).map (·.lexeme.toList)))) (tokensOf source) := by
    intro gap
    obtain ⟨segments, hsegments, hproper, hspelling⟩ := exists_segmentation_joined gap hlexemes
    exact scansTo_of_segmentation (by simpa using hsegments) hproper hspelling
  have hspaces : " ".intercalate ((tokensOf source).map Token.lexeme) =
      String.ofList (joined (fun _ => .space) ((tokensOf source).map (·.lexeme.toList))) := by
    apply String.ext
    simp [joined_space, Function.comp_def]
  exact ⟨hspaces ▸ hscans _, hscans⟩

end Treewalk
