import Treewalk.Proofs.Lexing.Grammar

/-!
# The scanner and the lexical grammar

The cursor reads the segment that the lexical grammar puts first. Read in one direction, what is
read is a segment of the grammar; in the other one, no segment of the grammar that the text starts
with is longer, and none other is as long.
-/

namespace Treewalk

open Lexical

/-! ## Strings -/

/-- The body of a string ends at its closing quote, whatever stands behind it. -/
theorem closeQuote?_append {raw value : List Char} (h : StringBody raw value) (tail : List Char) :
    closeQuote? (raw ++ tail) = some (raw, value) := by
  induction h with
  | close => rfl
  | escape c _ ih => simp [closeQuote?, ih]
  | @plain raw value c hquote hslash _ ih =>
    rw [List.cons_append, closeQuote?.eq_5 _ _ hquote (fun h => absurd h hslash)
      (fun _ _ h => absurd h hslash), ih]
    rfl

/-- What is read as the body of a string is one. -/
theorem stringBody_of_closeQuote? {text raw value : List Char}
    (h : closeQuote? text = some (raw, value)) : StringBody raw value := by
  fun_induction closeQuote? text generalizing raw value with
  | case1 => simp at h
  | case2 rest =>
    obtain ⟨rfl, rfl⟩ := by simpa using h
    exact .close
  | case3 => simp at h
  | case4 c rest ih =>
    obtain ⟨⟨r, v⟩, hr, heq⟩ := Option.map_eq_some_iff.1 h
    obtain ⟨rfl, rfl⟩ := Prod.mk.inj heq
    exact .escape c (ih hr)
  | case5 c rest hquote hlast hslash ih =>
    obtain ⟨⟨r, v⟩, hr, heq⟩ := Option.map_eq_some_iff.1 h
    obtain ⟨rfl, rfl⟩ := Prod.mk.inj heq
    refine .plain hquote ?_ (ih hr)
    rintro rfl
    cases rest with
    | nil => exact hlast rfl rfl
    | cons d rest => exact hslash d rest rfl rfl

/-! ## Classes of characters -/

theorem isBlank_iff {c : Char} : isBlank c = true ↔ c ∈ [' ', '\t', '\r', '\n'] := by
  simp [isBlank, or_assoc]

/-- The characters that are symbols on their own. -/
def symbolChars : List Char :=
  ['(', ')', '\x7b', '\x7d', ',', '.', '-', '+', ';', '/', '*', '!', '=', '<', '>']

theorem mem_symbolChars {c : Char} {kind : TokenKind} (h : TokenKind.ofSymbol? c = some kind) :
    c ∈ symbolChars := by
  unfold TokenKind.ofSymbol? at h
  split at h
  case h_16 => cases h
  all_goals decide

/-- Characters of a class without blanks are none. -/
theorem isBlank_eq_false {p : Char → Bool} (hp : [' ', '\t', '\r', '\n'].all fun d => !p d)
    {c : Char} (h : p c) : isBlank c = false := by
  cases hb : isBlank c with
  | false => rfl
  | true =>
    have hnot := List.all_eq_true.1 hp c (isBlank_iff.1 hb)
    simp [h] at hnot

theorem isDigit_eq_false_of_isWordStart {c : Char} (h : isWordStart c) : c.isDigit = false := by
  obtain rfl | halpha : c = '_' ∨ c.isAlpha := by simpa [isWordStart] using h
  · decide
  · change (decide (c.val ≥ 65 ∧ c.val ≤ 90) || c.val ≥ 97 && c.val ≤ 122) = true at halpha
    simp only [Char.isDigit]
    grind

theorem not_special_of_mem_symbolChars : ∀ c ∈ symbolChars,
    isBlank c = false ∧ c ≠ '"' ∧ c.isDigit = false ∧ isWordStart c = false := by
  have hall : symbolChars.all fun c => isBlank c = false ∧ c ≠ '"' ∧ c.isDigit = false ∧
      isWordStart c = false := by decide
  intro c hc
  exact of_decide_eq_true (List.all_eq_true.1 hall c hc)

namespace Cursor

variable {c : Char} {rest : List Char} {p : Position}

theorem segment?_digit (h : c.isDigit) :
    segment? ⟨c :: rest, p⟩ = some (numberSegment ⟨c :: rest, p⟩) := by
  have hblank := isBlank_eq_false (p := Char.isDigit) (by decide) h
  have hquote : c ≠ '"' := by rintro rfl; exact absurd h (by decide)
  have hslash : c ≠ '/' := by rintro rfl; exact absurd h (by decide)
  simp [segment?, next?, hblank, hquote, hslash, h]

theorem segment?_word (h : isWordStart c) :
    segment? ⟨c :: rest, p⟩ = some (wordSegment ⟨c :: rest, p⟩) := by
  have hblank := isBlank_eq_false (p := isWordStart) (by decide) h
  have hquote : c ≠ '"' := by rintro rfl; exact absurd h (by decide)
  have hslash : c ≠ '/' := by rintro rfl; exact absurd h (by decide)
  have hdigit := isDigit_eq_false_of_isWordStart h
  simp [segment?, next?, hblank, hquote, hslash, hdigit, h]

theorem segment?_symbol (h : c ∈ symbolChars) (hcomment : c = '/' → rest.head? ≠ some '/') :
    segment? ⟨c :: rest, p⟩ = some (symbolSegment c ⟨rest, p.step c⟩) := by
  obtain ⟨hblank, hquote, hdigit, hword⟩ := not_special_of_mem_symbolChars c h
  have hslash : (c == '/' && rest.head? == some '/') = false := by simpa using hcomment
  simp [segment?, next?, peek?, hblank, hquote, hslash, hdigit, hword]

theorem segment?_comment :
    segment? ⟨'/' :: '/' :: rest, p⟩ = some (commentSegment ⟨'/' :: '/' :: rest, p⟩) := rfl

theorem segment?_quote :
    segment? ⟨'"' :: rest, p⟩ = some (stringSegment ⟨rest, p.step '"'⟩) := rfl

theorem segment?_blank (h : isBlank c) :
    segment? ⟨c :: rest, p⟩ = some (.blank c, ⟨rest, p.step c⟩) := by
  simp [segment?, next?, h]

/-! ## What is read is a segment of the grammar -/

theorem forall_mem_takeWhile (q : Char → Bool) (text : List Char) : ∀ d ∈ text.takeWhile q, q d :=
  fun _ hd => List.all_eq_true.1 List.all_takeWhile _ hd

/-- A word is reserved or an identifier. -/
theorem lexeme_ofWord {cs : List Char} (hc : isWordStart c) (hcs : ∀ d ∈ cs, isWordChar d) :
    Lexeme (.ofWord (c :: cs)) (c :: cs) none := by
  unfold TokenKind.ofWord
  cases hfind : TokenKind.reserved.find? fun kind => kind.text.toList == c :: cs with
  | none =>
    refine .identifier hc hcs fun kind hkind => ?_
    simpa using List.find?_eq_none.1 hfind kind hkind
  | some kind =>
    have htext : kind.text.toList = c :: cs := by simpa using List.find?_some hfind
    exact htext ▸ .reserved (List.mem_of_find?_eq_some hfind)

/-- What is read as a word, in terms of the text. -/
theorem wordSegment_fst (cur : Cursor) : cur.wordSegment.1 =
    .token (.ofWord (cur.rest.takeWhile isWordChar)) (cur.rest.takeWhile isWordChar) none := by
  simp only [wordSegment, readWhile_fst]

/-- What is read as a comment, in terms of the text. -/
theorem commentSegment_fst (cur : Cursor) :
    cur.commentSegment.1 = .comment (cur.rest.takeWhile (· != '\n')) := by
  simp only [commentSegment, readWhile_fst]

theorem wordSegment_proper (h : isWordStart c) : Proper (wordSegment ⟨c :: rest, p⟩).1 := by
  have hword : (c :: rest).takeWhile isWordChar = c :: rest.takeWhile isWordChar :=
    List.takeWhile_cons_of_pos (isWordChar_of_isWordStart h)
  rw [wordSegment_fst, hword]
  exact .token (lexeme_ofWord h (forall_mem_takeWhile _ _))

theorem commentSegment_proper : Proper (commentSegment ⟨'/' :: '/' :: rest, p⟩).1 := by
  rw [commentSegment_fst]
  exact .comment fun hmem => by simpa using forall_mem_takeWhile _ _ _ hmem

/-- What is read as a number, in terms of the text. -/
theorem numberSegment_fst (cur : Cursor) : cur.numberSegment.1 =
    if startsFraction (cur.rest.dropWhile Char.isDigit) then
      .token .number
        (cur.rest.takeWhile Char.isDigit ++
          '.' :: ((cur.rest.dropWhile Char.isDigit).drop 1).takeWhile Char.isDigit)
        (some (.number (Number.Decimal.ofDigits (cur.rest.takeWhile Char.isDigit)
          (((cur.rest.dropWhile Char.isDigit).drop 1).takeWhile Char.isDigit)).toFloat))
    else
      .token .number (cur.rest.takeWhile Char.isDigit)
        (some (.number
          (Number.Decimal.ofDigits (cur.rest.takeWhile Char.isDigit) []).toFloat)) := by
  have hrest := readWhile_rest Char.isDigit cur
  have hpoint : ((cur.readWhile Char.isDigit).2.skip ['.']).rest =
      (cur.rest.dropWhile Char.isDigit).drop 1 := by
    rw [← hrest]
    rfl
  rw [← hpoint, ← hrest]
  simp only [numberSegment, readWhile_fst]
  split <;> rfl

/-- What is read as a number is one, with a fraction or without. -/
theorem numberSegment_proper (h : c.isDigit) : Proper (numberSegment ⟨c :: rest, p⟩).1 := by
  have hwhole : (c :: rest).takeWhile Char.isDigit ≠ [] := by simp [h]
  rw [numberSegment_fst]
  split
  · rename_i hfraction
    refine .token (.fraction hwhole (forall_mem_takeWhile _ _) ?_ (forall_mem_takeWhile _ _))
    unfold startsFraction at hfraction
    split at hfraction <;> simp_all
  · exact .token (.whole hwhole (forall_mem_takeWhile _ _))

/-- What is read as a symbol is one, if it is not stray. -/
theorem symbolSegment_proper (cur : Cursor) :
    Proper (cur.symbolSegment c).1 ∨ (cur.symbolSegment c).1 = .stray c := by
  have hone : ∀ {kind}, TokenKind.ofSymbol? c = some kind → Lexeme kind [c] none := by
    intro kind hkind
    unfold TokenKind.ofSymbol? at hkind
    split at hkind
    case h_16 => cases hkind
    all_goals
      obtain rfl := Option.some.inj hkind
      exact .symbol (by decide)
  have htwo : ∀ {kind}, TokenKind.ofSymbolEqual? c = some kind → Lexeme kind [c, '='] none := by
    intro kind hkind
    unfold TokenKind.ofSymbolEqual? at hkind
    split at hkind
    case h_5 => cases hkind
    all_goals
      obtain rfl := Option.some.inj hkind
      exact .symbol (by decide)
  -- The pair is tried before the single character.
  unfold symbolSegment
  split
  · rename_i hkind
    exact .inl (.token (htwo hkind))
  · rename_i hkind _
    exact .inl (.token (hone hkind))
  · exact .inr rfl

/-- What is read is a segment of the grammar, unless it is a stray character or an unclosed
string. -/
theorem segment?_proper {cur after : Cursor} {s : Segment} (h : cur.segment? = some (s, after)) :
    Proper s ∨ (∃ c rest, s = .stray c ∧ c ≠ '"' ∧ cur.rest = c :: rest) ∨
      ∃ rest, s = .unclosed ('"' :: rest) ∧ cur.rest = '"' :: rest := by
  obtain ⟨_ | ⟨c, rest⟩, p⟩ := cur
  · simp [segment?, next?] at h
  -- The cases are those of `segment?`, in its order.
  simp only [segment?, next?] at h
  split at h
  · rename_i hblank
    obtain ⟨rfl, -⟩ := Prod.mk.inj (Option.some.inj h)
    exact .inl (.blank (isBlank_iff.1 hblank))
  split at h
  · rename_i hquote
    obtain rfl : c = '"' := by simpa using hquote
    replace h := congrArg Prod.fst (Option.some.inj h)
    unfold stringSegment at h
    split at h
    · rename_i raw value hclose
      obtain rfl : Segment.token .string ('"' :: raw) _ = s := h
      exact .inl (.token (.string (stringBody_of_closeQuote? hclose)))
    · exact .inr (.inr ⟨rest, h.symm, rfl⟩)
  rename_i hquote
  split at h
  · rename_i hcomment
    obtain ⟨rfl, rest, rfl⟩ : c = '/' ∧ ∃ tail, rest = '/' :: tail := by
      cases rest <;> simp_all [peek?]
    obtain rfl := congrArg Prod.fst (Option.some.inj h)
    exact .inl commentSegment_proper
  split at h
  · rename_i hdigit
    obtain rfl := congrArg Prod.fst (Option.some.inj h)
    exact .inl (numberSegment_proper hdigit)
  split at h
  · rename_i hword
    obtain rfl := congrArg Prod.fst (Option.some.inj h)
    exact .inl (wordSegment_proper hword)
  · obtain rfl := congrArg Prod.fst (Option.some.inj h)
    obtain hproper | hstray := symbolSegment_proper (c := c) ⟨rest, p.step c⟩
    · exact .inl hproper
    · exact .inr (.inl ⟨c, rest, hstray, by simpa using hquote, rfl⟩)

/-! ## No segment of the grammar is longer -/

/-- A run of characters is at least as long as any start of the text that is made of them. -/
theorem takeWhile_outdoes {q : Char → Bool} {text pre : List Char} (hpre : pre <+: text)
    (hall : ∀ d ∈ pre, q d) :
    pre.length < (text.takeWhile q).length ∨ text.takeWhile q = pre := by
  obtain ⟨tail, rfl⟩ := hpre
  rw [List.takeWhile_append_of_pos hall]
  cases htail : tail.takeWhile q with
  | nil => exact .inr (by simp)
  | cons d ds => exact .inl (by simp)

theorem ofWord_reserved : ∀ kind ∈ TokenKind.reserved,
    TokenKind.ofWord kind.text.toList = kind := by
  decide

theorem word_reserved : ∀ kind ∈ TokenKind.reserved,
    isWordStart (kind.text.toList.headD ' ') ∧ kind.text.toList.all isWordChar := by
  decide

theorem symbol_cases : ∀ kind ∈ symbols,
    (kind.text.toList = [kind.text.toList.headD ' '] ∧
      TokenKind.ofSymbol? (kind.text.toList.headD ' ') = some kind) ∨
    (kind.text.toList = [kind.text.toList.headD ' ', '='] ∧
      TokenKind.ofSymbolEqual? (kind.text.toList.headD ' ') = some kind ∧
      kind.text.toList.headD ' ' ∈ symbolChars ∧ kind.text.toList.headD ' ' ≠ '/') := by
  decide

/-- A word is read as far as it goes. -/
theorem wordSegment_outdoes {cur after : Cursor} {s : Segment} {cs : List Char}
    (h : cur.segment? = some (s, after)) (hc : isWordStart c) (hcs : ∀ d ∈ cs, isWordChar d)
    (hpre : c :: cs <+: cur.rest) :
    (c :: cs).length < s.text.length ∨ s = .token (.ofWord (c :: cs)) (c :: cs) none := by
  obtain ⟨text, p⟩ := cur
  obtain ⟨tail, rfl⟩ := hpre
  rw [List.cons_append, segment?_word hc] at h
  obtain rfl := congrArg Prod.fst (Option.some.inj h)
  -- The first character may continue a word as well.
  have hall : ∀ d ∈ c :: cs, isWordChar d :=
    List.forall_mem_cons.2 ⟨isWordChar_of_isWordStart hc, hcs⟩
  rw [wordSegment_fst]
  obtain hlt | heq := takeWhile_outdoes (List.prefix_append (c :: cs) tail) hall
  · exact .inl hlt
  · exact .inr (by simp only [← List.cons_append, heq])

theorem segment?_of_digits {cur after : Cursor} {s : Segment} {ds : List Char}
    (h : cur.segment? = some (s, after)) (hne : ds ≠ []) (hds : ∀ d ∈ ds, d.isDigit)
    (hpre : ds <+: cur.rest) : s = cur.numberSegment.1 := by
  obtain ⟨text, p⟩ := cur
  obtain ⟨d, ds, rfl⟩ := List.exists_cons_of_ne_nil hne
  obtain ⟨tail, rfl⟩ := hpre
  rw [List.cons_append, segment?_digit (hds d List.mem_cons_self)] at h
  exact (congrArg Prod.fst (Option.some.inj h)).symm

/-- The digits are read as far as they go, and a fraction makes the number longer still. -/
theorem wholeNumber_outdoes {cur : Cursor} {ds : List Char} (hds : ∀ d ∈ ds, d.isDigit)
    (hpre : ds <+: cur.rest) :
    ds.length < cur.numberSegment.1.text.length ∨ cur.numberSegment.1 =
      .token .number ds (some (.number (Number.Decimal.ofDigits ds []).toFloat)) := by
  rw [numberSegment_fst]
  have hwhole := takeWhile_outdoes hpre hds
  split
  · have hle : ds.length ≤ (cur.rest.takeWhile Char.isDigit).length := by
      obtain hlt | heq := hwhole
      · exact Nat.le_of_lt hlt
      · exact Nat.le_of_eq (congrArg List.length heq.symm)
    refine .inl ?_
    simp only [Segment.text, List.length_append, List.length_cons]
    omega
  · exact hwhole.imp_right fun heq => by rw [heq]

/-- A point with digits behind it is read as a fraction, as far as the digits go. -/
theorem fraction_outdoes {cur : Cursor} {ds fs : List Char} (hds : ∀ d ∈ ds, d.isDigit)
    (hne : fs ≠ []) (hfs : ∀ d ∈ fs, d.isDigit) (hpre : ds ++ '.' :: fs <+: cur.rest) :
    (ds ++ '.' :: fs).length < cur.numberSegment.1.text.length ∨ cur.numberSegment.1 =
      .token .number (ds ++ '.' :: fs)
        (some (.number (Number.Decimal.ofDigits ds fs).toFloat)) := by
  obtain ⟨text, p⟩ := cur
  obtain ⟨tail, rfl⟩ := hpre
  obtain ⟨f, fs, rfl⟩ := List.exists_cons_of_ne_nil hne
  -- The digits before the point are all that there are, because the point is none.
  have hwhole : (ds ++ '.' :: f :: fs ++ tail).takeWhile Char.isDigit = ds := by
    rw [List.append_assoc, List.takeWhile_append_of_pos hds]
    simp
  have hrest : (ds ++ '.' :: f :: fs ++ tail).dropWhile Char.isDigit =
      '.' :: (f :: fs ++ tail) := by
    rw [List.append_assoc, List.dropWhile_append_of_pos hds]
    simp
  have hfraction : startsFraction ('.' :: (f :: fs ++ tail)) := hfs f List.mem_cons_self
  rw [numberSegment_fst, hwhole, hrest, if_pos hfraction, List.drop_one, List.tail_cons]
  obtain hlt | heq := takeWhile_outdoes (List.prefix_append (f :: fs) tail) hfs
  · refine .inl ?_
    simp only [Segment.text, List.length_append, List.length_cons] at hlt ⊢
    omega
  · exact .inr (by rw [heq])

/-- A symbol is read as a pair where it can be. -/
theorem symbolSegment_outdoes {cur after : Cursor} {s : Segment} {kind : TokenKind}
    (h : cur.segment? = some (s, after)) (hkind : kind ∈ symbols)
    (hpre : kind.text.toList <+: cur.rest) :
    kind.text.toList.length < s.text.length ∨ s = .token kind kind.text.toList none := by
  obtain ⟨text, p⟩ := cur
  have hcases := symbol_cases kind hkind
  generalize kind.text.toList.headD ' ' = c at hcases
  obtain ⟨htext, hone⟩ | ⟨htext, htwo, hmem, hslash⟩ := hcases
  · rw [htext] at hpre ⊢
    obtain ⟨tail, rfl⟩ := hpre
    -- A slash is the one symbol that may turn out to start something else.
    by_cases hcomment : c = '/' ∧ tail.head? = some '/'
    · obtain ⟨rfl, htail⟩ := hcomment
      obtain ⟨tail, rfl⟩ : ∃ rest, tail = '/' :: rest := by cases tail <;> simp_all
      obtain rfl := congrArg Prod.fst (Option.some.inj (segment?_comment.symm.trans h))
      exact .inl (by simp [commentSegment_fst, Segment.text])
    · have hread := segment?_symbol (p := p) (mem_symbolChars hone) fun hc htail =>
        hcomment ⟨hc, htail⟩
      obtain rfl := congrArg Prod.fst (Option.some.inj (hread.symm.trans h))
      unfold symbolSegment
      split
      · exact .inl (by simp [Segment.text])
      · rename_i hkind' _
        exact .inr (by rw [Option.some.inj (hkind'.symm.trans hone)])
      · simp_all
  · rw [htext] at hpre ⊢
    obtain ⟨tail, rfl⟩ := hpre
    have hread : segment? ⟨c :: '=' :: tail, p⟩ = _ :=
      segment?_symbol hmem fun hc => absurd hc hslash
    obtain rfl := congrArg Prod.fst (Option.some.inj (hread.symm.trans h))
    exact .inr (by simp [symbolSegment, peek?, htwo])

/-- What is read is longer than every other segment of the grammar that the text starts with. -/
theorem segment?_outdoes {cur after : Cursor} {s other : Segment}
    (h : cur.segment? = some (s, after)) (hother : Proper other) (hpre : other.text <+: cur.rest) :
    other.text.length < s.text.length ∨ s = other := by
  cases hother with
  | @blank c hc =>
    obtain ⟨text, p⟩ := cur
    obtain ⟨tail, rfl⟩ := hpre
    have hread : segment? ⟨c :: tail, p⟩ = _ := segment?_blank (isBlank_iff.2 hc)
    exact .inr (congrArg Prod.fst (Option.some.inj (h.symm.trans hread)))
  | @comment cs hcs =>
    obtain ⟨text, p⟩ := cur
    have hall : ∀ d ∈ '/' :: '/' :: cs, d != '\n' := by
      rintro d hd
      refine bne_iff_ne.2 fun hnewline => hcs ?_
      simpa [hnewline] using hd
    have houtdoes := takeWhile_outdoes hpre hall
    obtain ⟨tail, rfl⟩ := hpre
    obtain rfl := congrArg Prod.fst (Option.some.inj (segment?_comment.symm.trans h))
    rw [commentSegment_fst]
    exact houtdoes.imp_right fun heq => congrArg Segment.comment heq
  | @token kind _ _ hlexeme =>
    cases hlexeme with
    | symbol hkind => exact symbolSegment_outdoes h hkind hpre
    | reserved hkind =>
      obtain ⟨hhead, hall⟩ := word_reserved kind hkind
      have hword := ofWord_reserved kind hkind
      simp only [Segment.text] at hpre ⊢
      -- A reserved word is read like every other word, and only then looked up.
      generalize kind.text.toList = text at *
      obtain _ | ⟨c, cs⟩ := text
      · exact absurd hhead (by decide)
      · have hcs := (List.forall_mem_cons.1 (List.all_eq_true.1 hall)).2
        exact hword ▸ wordSegment_outdoes h hhead hcs hpre
    | @identifier c cs hc hcs hreserved =>
      have hword : TokenKind.ofWord (c :: cs) = .identifier := by
        have hnone : TokenKind.reserved.find? (fun kind => kind.text.toList == c :: cs) = none := by
          simpa using hreserved
        rw [TokenKind.ofWord, hnone, Option.getD_none]
      exact hword ▸ wordSegment_outdoes h hc hcs hpre
    | whole hne hds =>
      rw [segment?_of_digits h hne hds hpre]
      exact wholeNumber_outdoes hds hpre
    | fraction hne hds hne' hfs =>
      rw [segment?_of_digits h hne hds ((List.prefix_append _ _).trans hpre)]
      exact fraction_outdoes hds hne' hfs hpre
    | @string raw value hbody =>
      obtain ⟨text, p⟩ := cur
      obtain ⟨tail, rfl⟩ := hpre
      obtain rfl := congrArg Prod.fst (Option.some.inj (segment?_quote.symm.trans h))
      exact .inr (by simp [stringSegment, closeQuote?_append hbody])

end Cursor

end Treewalk
