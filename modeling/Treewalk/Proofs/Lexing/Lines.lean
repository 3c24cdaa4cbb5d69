import Treewalk.Proofs.Lexing.Segmentation

/-!
# Scanning line by line

Only strings run over the end of a line. So a text in which every string is closed is scanned apart
from the lines behind it, and these lines are scanned as they would be on their own, but for the
numbers of their lines.
-/

namespace Treewalk

open Lexical

/-! ## Blanks in segments -/

/-- Of all tokens, only strings have other characters in them than words and symbols have. -/
theorem Lexical.Lexeme.of_char_mem {kind : TokenKind} {text : List Char} {literal : Option Literal}
    (h : Lexeme kind text literal) {b : Char} (hword : isWordChar b = false)
    (hsymbol : b ∉ symbolChars) (hmem : b ∈ text) : ∃ raw, text = '"' :: raw := by
  have hdigit {d : Char} (hd : d.isDigit) : isWordChar d := by
    simp [isWordChar, Char.isAlphanum, hd]
  cases h with
  | symbol hkind =>
    have hall : ∀ kind ∈ symbols, kind.text.toList.all symbolChars.contains := by decide
    exact absurd (List.contains_iff_mem.1 (List.all_eq_true.1 (hall kind hkind) b hmem)) hsymbol
  | reserved hkind =>
    have hchars := List.all_eq_true.1 (Cursor.word_reserved kind hkind).2 b hmem
    exact absurd hchars (by simp [hword])
  | identifier hc hcs =>
    obtain rfl | hmem := List.mem_cons.1 hmem
    · exact absurd (Cursor.isWordChar_of_isWordStart hc) (by simp [hword])
    · exact absurd (hcs b hmem) (by simp [hword])
  | whole _ hds => exact absurd (hdigit (hds b hmem)) (by simp [hword])
  | fraction _ hds _ hfs =>
    obtain hmem | hmem := List.mem_append.1 hmem
    · exact absurd (hdigit (hds b hmem)) (by simp [hword])
    · obtain rfl | hmem := List.mem_cons.1 hmem
      · exact absurd (by decide) hsymbol
      · exact absurd (hdigit (hfs b hmem)) (by simp [hword])
  | @string raw => exact ⟨raw, rfl⟩

theorem Lexical.Lexeme.of_blank_mem {kind : TokenKind} {text : List Char}
    {literal : Option Literal} (h : Lexeme kind text literal) {b : Char} (hb : isBlank b)
    (hmem : b ∈ text) : ∃ raw, text = '"' :: raw := by
  have hall : [' ', '\t', '\r', '\n'].all fun d => !isWordChar d && !symbolChars.contains d := by
    decide
  have hneither := List.all_eq_true.1 hall b (isBlank_iff.1 hb)
  obtain ⟨hword, hsymbol⟩ : isWordChar b = false ∧ b ∉ symbolChars := by simpa using hneither
  exact h.of_char_mem hword hsymbol hmem

/-- Only a blank or a string has a line feed in it. -/
theorem Lexical.Proper.of_newline_mem {s : Segment} (h : Proper s) (hmem : '\n' ∈ s.text) :
    s = .blank '\n' ∨ ∃ raw, s.text = '"' :: raw := by
  cases h with
  | blank =>
    obtain rfl := List.mem_singleton.1 hmem
    exact .inl rfl
  | comment hcs => simp [Segment.text, hcs] at hmem
  | token hlexeme => exact .inr (hlexeme.of_blank_mem (by decide) hmem)

/-- The start of a text with a character in the middle ends before this character or takes it in. -/
theorem prefix_append_cons {pre text more : List Char} {c : Char} (h : pre <+: text ++ c :: more) :
    pre <+: text ∨ ∃ tail, pre = text ++ c :: tail := by
  obtain ⟨rest, hrest⟩ := h
  obtain ⟨as, rfl, -⟩ | ⟨bs, rfl, hbs⟩ := List.append_eq_append_iff.1 hrest
  · exact .inl (List.prefix_append _ _)
  · cases bs with
    | nil => exact .inl (by simp)
    | cons b bs =>
      obtain ⟨rfl, -⟩ := List.cons.inj hbs
      exact .inr ⟨bs, rfl⟩

/-- A string has one end only. -/
theorem stringBody_unique {raw raw' value value' : List Char} (h : StringBody raw value)
    (h' : StringBody raw' value') {text : List Char} (hpre : raw <+: text)
    (hpre' : raw' <+: text) : raw = raw' := by
  obtain ⟨tail, rfl⟩ := hpre
  obtain ⟨tail', htail'⟩ := hpre'
  have hread := closeQuote?_append h tail
  rw [← htail', closeQuote?_append h' tail'] at hread
  exact (Prod.mk.inj (Option.some.inj hread)).1.symm

/-- What a text starts with does not depend on what stands behind it from a character on that only
strings can run over. -/
theorem Lexical.First.append_cons {text : List Char} {s : Segment} (h : First text s)
    (hclosed : ∀ unclosed, s ≠ .unclosed unclosed) {c : Char}
    (hquote : ∀ other, Proper other → ∀ tail, other.text = text ++ c :: tail →
      ∃ raw, other.text = '"' :: raw) (more : List Char) : First (text ++ c :: more) s := by
  have hne := h.text_ne_nil
  cases h with
  | longest hproper hpre hmax =>
    refine .longest hproper (hpre.trans (List.prefix_append _ _)) fun other hother hpre' => ?_
    obtain hinside | ⟨tail, htext⟩ := prefix_append_cons hpre'
    · exact hmax other hother hinside
    · obtain ⟨raw, hraw⟩ := hquote other hother tail htext
      obtain ⟨d, text, rfl⟩ := List.exists_cons_of_ne_nil hne
      obtain ⟨rfl, rfl⟩ := List.cons.inj (htext.symm.trans hraw)
      obtain hnil | ⟨raw, hs, hraw'⟩ := List.prefix_cons_iff.1 hpre
      · exact absurd hnil hproper.text_ne_nil
      obtain ⟨_, hbody⟩ := hproper.stringBody hs
      obtain ⟨_, hbody'⟩ := hother.stringBody hraw
      -- Both are strings that start at the same quote, and so they end at the same one.
      have hunique := stringBody_unique hbody hbody' (hraw'.trans (List.prefix_append _ _))
        (List.prefix_refl _)
      exact Nat.le_of_eq (by rw [hs, hraw, hunique])
  | @stray d rest hd hnone =>
    refine .stray hd fun other hother hpre' => ?_
    obtain hinside | ⟨tail, htext⟩ : other.text <+: d :: rest ∨ _ := prefix_append_cons hpre'
    · exact hnone other hother hinside
    · obtain ⟨raw, hraw⟩ := hquote other hother tail htext
      exact hd (List.cons.inj (htext.symm.trans hraw)).1
  | unclosed => exact absurd rfl (hclosed _)

/-- What a text starts with does not depend on the lines behind it. -/
theorem Lexical.First.append_newline {text : List Char} {s : Segment} (h : First text s)
    (hclosed : ∀ unclosed, s ≠ .unclosed unclosed) (more : List Char) :
    First (text ++ '\n' :: more) s := by
  refine h.append_cons hclosed (fun other hother tail htext => ?_) more
  -- What is longer than the text has its line feed in it, and is not only that.
  obtain rfl | hquote := hother.of_newline_mem (by simp [htext])
  · obtain ⟨c, text, rfl⟩ := List.exists_cons_of_ne_nil h.text_ne_nil
    simp [Segment.text] at htext
  · exact hquote

theorem first_blank {b : Char} (hb : isBlank b) (more : List Char) : First (b :: more) (.blank b) :=
  Cursor.segment?_first (Cursor.segment?_blank (p := .start) hb)

/-- Characters that are segments on their own, whatever stands behind them. -/
theorem Lexical.Segmentation.chars_append {f : Char → Segment} {front more : List Char}
    {segments : List Segment}
    (hfront : ∀ c ∈ front, (f c).text = [c] ∧ ∀ rest, First (c :: rest) (f c))
    (h : Segmentation more segments) : Segmentation (front ++ more) (front.map f ++ segments) := by
  induction front with
  | nil => exact h
  | cons c front ih =>
    obtain ⟨⟨htext, hfirst⟩, hfront⟩ := List.forall_mem_cons.1 hfront
    have hhead : First ((f c).text ++ (front ++ more)) (f c) := htext ▸ hfirst (front ++ more)
    have hcons := Segmentation.cons hhead (ih hfront)
    rwa [htext] at hcons

/-- A text in which every string is closed falls into its own segments, whatever the lines behind
it are. -/
theorem Lexical.Segmentation.join {a b : List Char} {as bs : List Segment}
    (ha : Segmentation a as) (hclosed : ∀ unclosed, .unclosed unclosed ∉ as)
    (hb : Segmentation b bs) : Segmentation (a ++ '\n' :: b) (as ++ .blank '\n' :: bs) := by
  induction ha with
  | nil => exact .cons (s := .blank '\n') (first_blank (by decide) b) hb
  | @cons s rest segments hfirst _ ih =>
    have hs : ∀ unclosed, s ≠ .unclosed unclosed := fun u h => hclosed u (by simp [h])
    rw [List.append_assoc]
    refine .cons ?_ (ih fun u hu => hclosed u (List.mem_cons_of_mem _ hu))
    rw [← List.append_assoc]
    exact hfirst.append_newline hs b

/-! ## Behind another text -/

/-- The position so many lines further down. -/
def Position.down (k : Nat) (p : Position) : Position := ⟨p.line + k, p.column⟩

/-- The token so many lines further down. -/
def Token.down (k : Nat) (t : Token) : Token := { t with line := t.line + k }

/-- The error so many lines further down. -/
def LexicalError.down (k : Nat) : LexicalError → LexicalError
  | unexpectedCharacter c p => unexpectedCharacter c (p.down k)
  | unterminatedString p => unterminatedString (p.down k)

/-- Where a position is if its text stands behind another one. Only on the first line there is
something to the left of it. -/
def Position.after (before : List Char) (p : Position) : Position :=
  ⟨p.line + before.count '\n',
    if p.line = 1 then p.column + ((behind before).column - 1) else p.column⟩

/-- The error if its text stands behind another one. -/
def LexicalError.after (before : List Char) : LexicalError → LexicalError
  | unexpectedCharacter c p => unexpectedCharacter c (p.after before)
  | unterminatedString p => unterminatedString (p.after before)

theorem Position.after_newline (a : List Char) (p : Position) :
    p.after (a ++ ['\n']) = p.down (a.count '\n' + 1) := by
  simp [after, down, behind]

theorem LexicalError.after_newline (a : List Char) (e : LexicalError) :
    e.after (a ++ ['\n']) = e.down (a.count '\n' + 1) := by
  cases e <;> simp [after, down, Position.after_newline]

theorem Segment.token?_after (before : List Char) (p : Position) (s : Segment) :
    s.token? (p.after before) = (s.token? p).map (Token.down (before.count '\n')) := by
  cases s <;> rfl

theorem Segment.error?_after (before : List Char) (p : Position) (s : Segment) :
    s.error? (p.after before) = (s.error? p).map (LexicalError.after before) := by
  cases s <;> rfl

/-- What is found in segments behind a text is what is found in them, behind the text. -/
theorem filterMap_after {β : Type} {g : Position → Segment → Option β} {d : β → β}
    {before : List Char} (h : ∀ p s, g (p.after before) s = (g p s).map d)
    (placed : List (Position × Segment)) :
    (placed.map fun (p, s) => (p.after before, s)).filterMap (fun (p, s) => g p s) =
      (placed.filterMap fun (p, s) => g p s).map d := by
  rw [List.filterMap_map, List.map_filterMap]
  exact congrArg (List.filterMap · placed) (funext fun x => h x.1 x.2)

theorem takeWhile_append_newline (text more : List Char) :
    (text ++ '\n' :: more).takeWhile (· != '\n') = text.takeWhile (· != '\n') := by
  induction text with
  | nil => rfl
  | cons c text ih => simp [List.takeWhile_cons, ih]

/-- A place in a text that stands behind another one. -/
theorem Position.behind_after (before text : List Char) :
    behind (before ++ text) = (behind text).after before := by
  have hline : (before ++ text).count '\n' + 1 = text.count '\n' + 1 + before.count '\n' := by
    rw [List.count_append]
    omega
  by_cases hmem : '\n' ∈ text
  · have hlater : ¬text.count '\n' + 1 = 1 := by
      have hpos := List.count_pos_iff.2 hmem
      omega
    -- What counts for the column stands behind the last line feed.
    have hcolumn : (before ++ text).reverse.takeWhile (· != '\n') =
        text.reverse.takeWhile (· != '\n') := by
      obtain ⟨as, bs, rfl⟩ := List.append_of_mem hmem
      simp [takeWhile_append_newline]
    simp only [behind, after, hline, hcolumn, hlater, if_false]
  · have hfirst : text.count '\n' + 1 = 1 := congrArg (· + 1) (List.count_eq_zero.2 hmem)
    -- On its first line there is still the last line of the other text to the left.
    have htext : ∀ c ∈ text.reverse, c != '\n' := by
      intro c hc
      refine bne_iff_ne.2 fun hnewline => hmem ?_
      simpa [hnewline] using hc
    have hcolumn : (before ++ text).reverse.takeWhile (· != '\n') =
        text.reverse ++ before.reverse.takeWhile (· != '\n') := by
      rw [List.reverse_append, List.takeWhile_append_of_pos htext]
    have hself : (text.reverse ++ []).takeWhile (· != '\n') =
        text.reverse ++ [].takeWhile (· != '\n') := List.takeWhile_append_of_pos htext
    rw [List.takeWhile_nil, List.append_nil] at hself
    simp only [behind, after, hline, if_pos hfirst, hcolumn, hself, List.length_append]
    exact congrArg (Position.mk _) (by omega)

theorem Segment.placed_append (before : List Char) (as bs : List Segment) :
    placed before (as ++ bs) =
      placed before as ++ placed (before ++ as.flatMap Segment.text) bs := by
  induction as generalizing before with
  | nil => simp [placed]
  | cons s as ih => simp [placed, ih]

/-- All segments move in the same way. -/
theorem Segment.placed_after (before text : List Char) (segments : List Segment) :
    placed (before ++ text) segments =
      (placed text segments).map fun (p, s) => (p.after before, s) := by
  induction segments generalizing text with
  | nil => rfl
  | cons s segments ih =>
    simp only [placed, List.map_cons, Position.behind_after, List.append_assoc, ih]

theorem Segment.map_snd_placed (before : List Char) (segments : List Segment) :
    (placed before segments).map Prod.snd = segments := by
  induction segments generalizing before with
  | nil => rfl
  | cons s segments ih => rw [placed, List.map_cons, ih]

/-- A text that falls into segments apart from the one behind it is scanned apart from it: first its
own tokens and errors, then those of the other text, further on. -/
theorem scan_append {a b : String} {as bs : List Segment} (ha : Segmentation a.toList as)
    (hb : Segmentation b.toList bs) (hab : Segmentation (a ++ b).toList (as ++ bs)) :
    (scan (a ++ b)).tokens = (scan a).tokens.dropLast ++
        (scan b).tokens.map (Token.down (a.toList.count '\n')) ∧
    (scan (a ++ b)).errors = (scan a).errors ++
        (scan b).errors.map (LexicalError.after a.toList) := by
  obtain ⟨hatokens, haerrors⟩ := scan_of_segmentation ha
  obtain ⟨hbtokens, hberrors⟩ := scan_of_segmentation hb
  obtain ⟨htokens, herrors⟩ := scan_of_segmentation hab
  have hplaced : Segment.placed [] (as ++ bs) = Segment.placed [] as ++
      (Segment.placed [] bs).map fun (p, s) => (p.after a.toList, s) := by
    rw [Segment.placed_append, ha.flatMap_text, List.nil_append, ← Segment.placed_after,
      List.append_nil]
  have hend : Token.endOfInput ((a ++ b).toList.count '\n' + 1) =
      (Token.endOfInput (b.toList.count '\n' + 1)).down (a.toList.count '\n') := by
    simp only [Token.endOfInput, Token.down, String.toList_append, List.count_append,
      Token.mk.injEq, true_and]
    omega
  rw [htokens, herrors, hplaced, hatokens, haerrors, hbtokens, hberrors, List.dropLast_concat,
    List.filterMap_append, List.filterMap_append, filterMap_after (Segment.token?_after a.toList),
    filterMap_after (Segment.error?_after a.toList), hend, List.map_append, List.append_assoc]
  exact ⟨rfl, rfl⟩

/-- The first segment of a text is the only one of its own text. -/
theorem Lexical.First.alone {s : Segment} {rest : List Char} (h : First (s.text ++ rest) s) :
    First s.text s := by
  generalize s.text ++ rest = text at h
  cases h with
  | longest hproper _ _ =>
    exact .longest hproper (List.prefix_refl _) fun other _ hpre => hpre.length_le
  | stray hc hnone =>
    exact .stray hc fun other hother hpre => hnone other hother (hpre.trans ⟨_, rfl⟩)
  | unclosed hnone => exact .unclosed hnone

theorem Lexical.First.segmentation {s : Segment} (h : First s.text s) :
    Segmentation s.text [s] := by
  have hcons : Segmentation (s.text ++ []) [s] := .cons (by rwa [List.append_nil]) .nil
  rwa [List.append_nil] at hcons

/-- A text is scanned to its first segment, and then as the rest of it is, further on. -/
theorem scan_of_first {s : Segment} {rest : String} (h : First (s.text ++ rest.toList) s) :
    (scan (String.ofList s.text ++ rest)).tokens = (s.token? .start).toList ++
        (scan rest).tokens.map (Token.down (s.text.count '\n')) ∧
    (scan (String.ofList s.text ++ rest)).errors = (s.error? .start).toList ++
        (scan rest).errors.map (LexicalError.after s.text) := by
  obtain ⟨segments, hrest⟩ := Cursor.exists_segmentation rest.toList
  have halone : Segmentation (String.ofList s.text).toList [s] := by
    rw [String.toList_ofList]
    exact h.alone.segmentation
  have hboth : Segmentation (String.ofList s.text ++ rest).toList ([s] ++ segments) := by
    rw [String.toList_append, String.toList_ofList]
    exact .cons h hrest
  obtain ⟨hfirst, hfirst'⟩ := scan_of_segmentation halone
  obtain ⟨htokens, herrors⟩ := scan_append halone hrest hboth
  rw [hfirst, List.dropLast_concat, String.toList_ofList] at htokens
  rw [hfirst', String.toList_ofList] at herrors
  refine ⟨htokens.trans (congrArg (· ++ _) ?_), herrors.trans (congrArg (· ++ _) ?_)⟩
  · cases s <;> rfl
  · cases s <;> rfl

/-! ## Lines -/

/-- A text in which every string is closed, then a line feed, then another text: the tokens and
errors of the first, then those of the second so many lines further down. -/
theorem scan_join {a b : String} (h : ∀ p, .unterminatedString p ∉ (scan a).errors) :
    (scan (a ++ "\n" ++ b)).tokens = (scan a).tokens.dropLast ++
        (scan b).tokens.map (Token.down (a.toList.count '\n' + 1)) ∧
    (scan (a ++ "\n" ++ b)).errors = (scan a).errors ++
        (scan b).errors.map (LexicalError.down (a.toList.count '\n' + 1)) := by
  obtain ⟨as, ha⟩ := Cursor.exists_segmentation a.toList
  obtain ⟨bs, hb⟩ := Cursor.exists_segmentation b.toList
  obtain ⟨hatokens, haerrors⟩ := scan_of_segmentation ha
  have hclosed : ∀ unclosed, .unclosed unclosed ∉ as := by
    intro unclosed hmem
    rw [← Segment.map_snd_placed [] as] at hmem
    obtain ⟨⟨p, _⟩, hp, rfl⟩ := List.mem_map.1 hmem
    exact h p (haerrors ▸ List.mem_filterMap.2 ⟨_, hp, rfl⟩)
  -- The line feed belongs to the first text, in which it is neither a token nor an error.
  have hline : Segmentation (a ++ "\n").toList (as ++ [.blank '\n']) := by
    simpa using ha.join hclosed .nil
  have hjoin : Segmentation (a ++ "\n" ++ b).toList (as ++ [.blank '\n'] ++ bs) := by
    simpa using ha.join hclosed hb
  obtain ⟨htokens, herrors⟩ := scan_append hline hb hjoin
  obtain ⟨hltokens, hlerrors⟩ := scan_of_segmentation hline
  rw [Segment.placed_append, List.filterMap_append] at hltokens hlerrors
  have hcount : (a ++ "\n").toList.count '\n' = a.toList.count '\n' + 1 := by simp
  have hafter : LexicalError.after (a ++ "\n").toList =
      LexicalError.down (a.toList.count '\n' + 1) := by
    funext e
    rw [String.toList_append]
    exact e.after_newline a.toList
  rw [htokens, herrors, hltokens, hlerrors, hatokens, haerrors, hcount, hafter,
    List.dropLast_concat, List.dropLast_concat]
  exact ⟨by simp [Segment.placed, Segment.token?], by simp [Segment.placed, Segment.error?]⟩

/-- The tokens of a text end with the mark of the end of the input. -/
theorem scan_tokens_eq (source : String) :
    (scan source).tokens =
      (scan source).tokens.dropLast ++ [.endOfInput (source.toList.count '\n' + 1)] := by
  obtain ⟨segments, hsegments⟩ := Cursor.exists_segmentation source.toList
  rw [(scan_of_segmentation hsegments).1, List.dropLast_concat]

/-- Before the mark of the end of the input there are tokens of the lexical grammar. -/
theorem lexeme_of_mem_scan {source : String} {t : Token} (ht : t ∈ (scan source).tokens.dropLast) :
    Lexeme t.kind t.lexeme.toList t.literal := by
  obtain ⟨segments, hsegments⟩ := Cursor.exists_segmentation source.toList
  rw [(scan_of_segmentation hsegments).1, List.dropLast_concat] at ht
  obtain ⟨⟨p, s⟩, hmem, htoken⟩ := List.mem_filterMap.1 ht
  cases s with
  | token kind text literal =>
    obtain rfl := Option.some.inj htoken
    have hmem' := List.mem_map_of_mem (f := Prod.snd) hmem
    rw [Segment.map_snd_placed] at hmem'
    rw [String.toList_ofList]
    exact hsegments.lexeme_of_mem hmem'
  | _ => cases htoken

/-- Before the mark of the end of the input there is no other one. -/
theorem scan_dropLast_kind_ne_eof (source : String) :
    ∀ t ∈ (scan source).tokens.dropLast, t.kind ≠ .eof :=
  fun _ ht => (lexeme_of_mem_scan ht).literal_isSome_iff.1

/-- The end of input is the last token and stands nowhere else. -/
theorem scan_tokens_filter (source : String) :
    (scan source).tokens.filter (·.kind ≠ .eof) = (scan source).tokens.dropLast := by
  rw [scan_tokens_eq, List.dropLast_concat, List.filter_append,
    List.filter_eq_self.2 fun t ht => by simpa using scan_dropLast_kind_ne_eof source t ht]
  exact List.append_nil _

/-- Empty lines are not seen in the tokens behind them, but for the numbers of their lines. -/
theorem scan_pad (n : Nat) (b : String) :
    (scan (String.ofList (List.replicate n '\n') ++ b)).tokens =
      (scan b).tokens.map (Token.down n) ∧
    (scan (String.ofList (List.replicate n '\n') ++ b)).errors =
      (scan b).errors.map (LexicalError.down n) := by
  induction n with
  | zero =>
    have htoken : Token.down 0 = id := rfl
    have herror : LexicalError.down 0 = id := by funext e; cases e <;> rfl
    simp [htoken, herror]
  | succ n ih =>
    -- One more empty line is the empty text with a line feed behind it.
    have hempty : Segmentation "".toList [] := .nil
    obtain ⟨htokens, herrors⟩ := scan_of_segmentation hempty
    have hnil : ∀ p, LexicalError.unterminatedString p ∉ (scan "").errors := by
      simp [herrors, Segment.placed]
    obtain ⟨hjoin, hjoin'⟩ := scan_join (b := String.ofList (List.replicate n '\n') ++ b) hnil
    have hsource : "" ++ "\n" ++ (String.ofList (List.replicate n '\n') ++ b) =
        String.ofList (List.replicate (n + 1) '\n') ++ b := by
      apply String.ext
      simp [List.replicate_succ]
    rw [hsource, htokens, ih.1] at hjoin
    rw [hsource, herrors, ih.2] at hjoin'
    have htoken : Token.down 1 ∘ Token.down n = Token.down (n + 1) := rfl
    have herror : LexicalError.down 1 ∘ LexicalError.down n = LexicalError.down (n + 1) := by
      funext e
      cases e <;> rfl
    exact ⟨by simpa [Segment.placed, htoken] using hjoin,
      by simpa [Segment.placed, herror] using hjoin'⟩

/-- Scanning goes apart at the end of a line. Let the first of two texts have no string that is not
closed. Then the two texts with a line feed between them have the tokens of the first text, which
ends on its line `k`, and then those of the second, `k` lines further down; and the errors of the
first text, and then those of the second, `k` lines further down in the same columns. -/
theorem scan_splits_at_line_end {a : String} (h : ∀ p, .unterminatedString p ∉ (scan a).errors)
    (b : String) :
    let k := 1 + a.toList.count '\n'
    (scan a).tokens = (scan a).tokens.filter (·.kind ≠ .eof) ++ [⟨.eof, "", none, k⟩] ∧
    (scan (a ++ "\n" ++ b)).tokens = (scan a).tokens.filter (·.kind ≠ .eof) ++
      (scan b).tokens.map (fun t => { t with line := t.line + k }) ∧
    (scan (a ++ "\n" ++ b)).errors = (scan a).errors ++
      (scan b).errors.map (LexicalError.down k) := by
  intro k
  obtain ⟨htokens, herrors⟩ := scan_join (b := b) h
  have hk : a.toList.count '\n' + 1 = k := Nat.add_comm _ 1
  rw [hk] at htokens herrors
  have hend := scan_tokens_eq a
  rw [hk] at hend
  rw [scan_tokens_filter]
  exact ⟨hend, htokens, herrors⟩

/-- The first text is a string over two lines and a stray character behind it. In the second one
there is a stray character, and on the line behind it a string is not closed. -/
theorem scan_splits_at_line_end_with_errors :
    (∀ p, .unterminatedString p ∉ (scan "\"x\ny\" @").errors) ∧
    (scan ("\"x\ny\" @" ++ "\n" ++ "#\n\"z")).tokens =
      [⟨.string, "\"x\ny\"", some (.string "x\ny"), 1⟩, ⟨.eof, "", none, 4⟩] ∧
    (scan ("\"x\ny\" @" ++ "\n" ++ "#\n\"z")).errors =
      [.unexpectedCharacter '@' ⟨2, 4⟩, .unexpectedCharacter '#' ⟨3, 1⟩,
        .unterminatedString ⟨4, 1⟩] := by
  have hclosed : ∀ p, .unterminatedString p ∉ (scan "\"x\ny\" @").errors := by
    have herrors : (scan "\"x\ny\" @").errors = [.unexpectedCharacter '@' ⟨2, 4⟩] := by
      decide +kernel
    simp [herrors]
  obtain ⟨-, htokens, herrors⟩ := scan_splits_at_line_end hclosed "#\n\"z"
  exact ⟨hclosed, htokens.trans (by decide +kernel), herrors.trans (by decide +kernel)⟩

end Treewalk
