import Treewalk.Proofs.Lexing.Lines
import Treewalk.Proofs.Likeness.Tree
import Treewalk.Proofs.Parsing.Results
import Treewalk.Proofs.Texts.Number
import Treewalk.Proofs.Texts.Quoted

/-!
# The text of an expression tells the expression

An expression is written as a word, as a quoted text, or as a head in front of its operands, all in
parentheses. Where one of these ends is seen from the text alone, and a head together with the
number of operands behind it tells which node of the tree it was. So expressions that were read from
source can be read back from their texts, up to the lines on which their tokens stood.
-/

namespace Treewalk

open Lexical Text

/-! ## Parts of trees -/

mutual

/-- The expression and all expressions inside it. -/
def Expr.parts : Expr → List Expr
  | .literal value => [.literal value]
  | .var name => [.var name]
  | .assign name value => .assign name value :: value.parts
  | .unary op operand => .unary op operand :: operand.parts
  | .binary lhs op rhs => .binary lhs op rhs :: (lhs.parts ++ rhs.parts)
  | .logical lhs op rhs => .logical lhs op rhs :: (lhs.parts ++ rhs.parts)
  | .group inner => .group inner :: inner.parts
  | .call callee paren args => .call callee paren args :: (callee.parts ++ Expr.partsAll args)

def Expr.partsAll : List Expr → List Expr
  | [] => []
  | e :: es => e.parts ++ Expr.partsAll es

end

mutual

/-- All expressions inside the statement, also in the bodies of functions. -/
def Stmt.parts : Stmt → List Expr
  | .expr e => e.parts
  | .print e => e.parts
  | .var _ none => []
  | .var _ (some initializer) => initializer.parts
  | .block body => Stmt.partsAll body
  | .branch cond thenBranch none => cond.parts ++ thenBranch.parts
  | .branch cond thenBranch (some elseBranch) =>
    cond.parts ++ thenBranch.parts ++ elseBranch.parts
  | .loop cond body => cond.parts ++ body.parts
  | .function _ _ body => Stmt.partsAll body
  | .ret _ none => []
  | .ret _ (some value) => value.parts

def Stmt.partsAll : List Stmt → List Expr
  | [] => []
  | s :: ss => s.parts ++ Stmt.partsAll ss

end

section Obeys

variable {P : Policy} {part : Expr}

mutual

/-- What an expression obeys, so do the expressions inside it. -/
theorem Expr.Obeys.part : {e : Expr} → e.Obeys P → part ∈ e.parts → part.Obeys P
  | .literal _, h, hpart | .var _, h, hpart => by
    rwa [List.mem_singleton.1 hpart]
  | .assign _ _, h, hpart | .unary _ _, h, hpart => by
    rcases List.mem_cons.1 hpart with rfl | hpart
    · exact h
    · exact h.2.part hpart
  | .binary _ _ _, h, hpart | .logical _ _ _, h, hpart => by
    rcases List.mem_cons.1 hpart with rfl | hpart
    · exact h
    · rcases List.mem_append.1 hpart with hpart | hpart
      · exact h.1.part hpart
      · exact h.2.2.part hpart
  | .group inner, h, hpart => by
    rcases List.mem_cons.1 hpart with rfl | hpart
    · exact h
    · exact Expr.Obeys.part (e := inner) h hpart
  | .call _ _ _, h, hpart => by
    rcases List.mem_cons.1 hpart with rfl | hpart
    · exact h
    · rcases List.mem_append.1 hpart with hpart | hpart
      · exact h.1.part hpart
      · exact Expr.ObeysAll.part h.2.2 hpart

theorem Expr.ObeysAll.part : {es : List Expr} → Expr.ObeysAll P es → part ∈ Expr.partsAll es →
    part.Obeys P
  | [], _, hpart => nomatch hpart
  | _ :: _, h, hpart => by
    rcases List.mem_append.1 hpart with hpart | hpart
    · exact h.1.part hpart
    · exact Expr.ObeysAll.part h.2 hpart

end

mutual

/-- The same holds of the expressions in a statement. -/
theorem Stmt.Obeys.part : {s : Stmt} → s.Obeys P → part ∈ s.parts → part.Obeys P
  | .expr _, h, hpart | .print _, h, hpart => Expr.Obeys.part h hpart
  | .var _ none, _, hpart | .ret _ none, _, hpart => nomatch hpart
  | .var _ (some _), h, hpart => (h.2 _ rfl).part hpart
  | .ret _ (some _), h, hpart => (h _ rfl).part hpart
  | .block _, h, hpart => Stmt.ObeysAll.part h hpart
  | .branch _ _ none, h, hpart | .loop _ _, h, hpart => by
    rcases List.mem_append.1 hpart with hpart | hpart
    · exact h.1.part hpart
    · exact h.2.part hpart
  | .branch _ _ (some _), h, hpart => by
    rcases List.mem_append.1 hpart with hpart | hpart
    · rcases List.mem_append.1 hpart with hpart | hpart
      · exact h.1.part hpart
      · exact h.2.1.part hpart
    · exact h.2.2.part hpart
  | .function _ _ _, h, hpart => Stmt.ObeysAll.part h.2.2 hpart

theorem Stmt.ObeysAll.part : {ss : List Stmt} → Stmt.ObeysAll P ss → part ∈ Stmt.partsAll ss →
    part.Obeys P
  | [], _, hpart => nomatch hpart
  | _ :: _, h, hpart => by
    rcases List.mem_append.1 hpart with hpart | hpart
    · exact h.1.part hpart
    · exact Stmt.ObeysAll.part h.2 hpart

end

end Obeys

/-! ## Heads and operands -/

namespace Expr

/-- The word in front of the operands. -/
def head? : Expr → Option String
  | literal _ | var _ => none
  | assign _ _ => some "="
  | unary op _ | binary _ op _ | logical _ op _ => some op.lexeme
  | group _ => some "group"
  | call _ _ _ => some "call"

/-- What stands behind the head. A name that is assigned to stands there as it does alone. -/
def operands : Expr → List Expr
  | literal _ | var _ => []
  | assign name value => [var name, value]
  | unary _ operand => [operand]
  | binary lhs _ rhs | logical lhs _ rhs => [lhs, rhs]
  | group inner => [inner]
  | call callee _ args => callee :: args

variable {e e' o : Expr} {head : String}

theorem text_of_head? (h : e.head? = some head) :
    e.text.toList = '(' :: (head.toList ++ ((textAll e.operands).toList ++ [')'])) := by
  cases e <;> cases h <;> simp [text, textAll, operands]

/-- Operands are smaller, so that one can go by induction on them. -/
theorem sizeOf_operand_lt (h : o ∈ e.operands) : sizeOf o < sizeOf e := by
  have hpos (e : Expr) : 0 < sizeOf e := by cases e <;> grind
  cases e with
  | literal | var => cases h
  | assign | unary | binary | logical | group =>
    simp only [operands, List.mem_cons, List.not_mem_nil, or_false] at h
    grind
  | call callee paren args =>
    rcases List.mem_cons.1 h with rfl | h
    · simp
      omega
    · have := List.sizeOf_lt_of_mem h
      simp
      omega

/-- What holds of an expression if it holds of its operands holds of every expression. -/
theorem operands_induction {P : Expr → Prop} (h : ∀ e, (∀ o ∈ e.operands, P o) → P e)
    (e : Expr) : P e :=
  h e fun o _ => operands_induction h o
termination_by sizeOf e
decreasing_by exact sizeOf_operand_lt ‹_›

theorem mem_partsAll {part : Expr} {es : List Expr} :
    part ∈ partsAll es ↔ ∃ e ∈ es, part ∈ e.parts := by
  induction es with
  | nil => simp [partsAll]
  | cons e es ih => simp [partsAll, ih]

theorem Obeys.operand {P : Policy} (h : e.Obeys P) (ho : o ∈ e.operands) : o.Obeys P := by
  cases e with
  | literal | var => cases ho
  | assign name value =>
    rcases List.mem_pair.1 ho with rfl | rfl
    · exact h.1
    · exact h.2
  | unary op operand =>
    rw [List.mem_singleton.1 ho]
    exact h.2
  | binary lhs op rhs | logical lhs op rhs =>
    rcases List.mem_pair.1 ho with rfl | rfl
    · exact h.1
    · exact h.2.2
  | group inner =>
    rw [List.mem_singleton.1 ho]
    exact h
  | call callee paren args =>
    rcases List.mem_cons.1 ho with rfl | ho
    · exact h.1
    · exact obeysAll_iff.1 h.2.2 o ho

/-- The numbers that are written in the expression. -/
def numbers (e : Expr) : List Float :=
  e.parts.filterMap fun
    | .literal (.number x) => some x
    | _ => none

theorem mem_numbers {x : Float} : x ∈ e.numbers ↔ .literal (.number x) ∈ e.parts := by
  simp only [numbers, List.mem_filterMap]
  constructor
  · rintro ⟨part, hpart, hx⟩
    split at hx
    · cases hx
      exact hpart
    · cases hx
  · exact fun h => ⟨_, h, rfl⟩

/-- The numbers of an operand are among those of the expression. -/
theorem numbers_operand (ho : o ∈ e.operands) : o.numbers ⊆ e.numbers := by
  intro x hx
  rw [mem_numbers] at hx ⊢
  cases e with
  | literal | var => cases ho
  | assign name value =>
    rcases List.mem_pair.1 ho with rfl | rfl
    -- The name that is assigned to stands among the operands, but is no part of the tree.
    · exact absurd (List.mem_singleton.1 hx) (by simp)
    · exact .tail _ hx
  | unary _ operand | group operand =>
    rw [List.mem_singleton.1 ho] at hx
    exact .tail _ hx
  | binary lhs op rhs | logical lhs op rhs =>
    rcases List.mem_pair.1 ho with rfl | rfl
    · exact .tail _ (List.mem_append_left _ hx)
    · exact .tail _ (List.mem_append_right _ hx)
  | call callee paren args =>
    rcases List.mem_cons.1 ho with rfl | ho
    · exact .tail _ (List.mem_append_left _ hx)
    · exact .tail _ (List.mem_append_right _ (mem_partsAll.2 ⟨o, ho, hx⟩))

end Expr

/-! ## Spelling -/

/-- The token is spelt as the lexical grammar wants it. -/
def Token.Spelt (t : Token) : Prop :=
  t.kind ≠ .eof → Lexeme t.kind t.lexeme.toList t.literal

/-- What the scanner makes is spelt as the lexical grammar wants it. -/
theorem spelt_of_mem_scan {source : String} {t : Token} (h : t ∈ (scan source).tokens) :
    t.Spelt := by
  intro hkind
  rw [scan_tokens_eq] at h
  rcases List.mem_append.1 h with h | h
  · exact lexeme_of_mem_scan h
  · rw [List.mem_singleton.1 h] at hkind
    exact absurd rfl hkind

/-- Tokens that are spelt alike are alike. -/
theorem Token.Spelt.like {t u : Token} (ht : t.Spelt) (hu : u.Spelt) (htk : t.kind ≠ .eof)
    (huk : u.kind ≠ .eof) (h : t.lexeme = u.lexeme) : Likeness.upToLine.Like t u := by
  have hlexeme := ht htk
  rw [h] at hlexeme
  obtain ⟨hkind, hliteral⟩ := hlexeme.unique (hu huk)
  exact ⟨hkind, h, hliteral⟩

/-- Symbols and reserved words are told by their kind. -/
theorem Lexical.Lexeme.eq_text {kind : TokenKind} {text : List Char} {literal : Option Literal}
    (h : Lexeme kind text literal) (hkind : kind ∉ [.identifier, .number, .string]) :
    text = kind.text.toList := by
  cases h with
  | symbol | reserved => rfl
  | _ => simp at hkind

namespace Operator

/-- The kinds of all operators. -/
def kinds : List TokenKind := unaryKinds ++ binaryKinds ++ logicalKinds

end Operator

/-- An expression that was read from a source text and whose numbers are finite. -/
structure Expr.Readable (e : Expr) : Prop where
  obeys : e.Obeys (.read Token.Spelt)
  finite : ∀ x ∈ e.numbers, x.isFinite

theorem Expr.Readable.operand {e o : Expr} (h : e.Readable) (ho : o ∈ e.operands) : o.Readable :=
  ⟨h.obeys.operand ho, fun x hx => h.finite x (numbers_operand ho hx)⟩

/-! ## Words -/

namespace Text

/-- The characters that divide the text of an expression. -/
def isMark (c : Char) : Bool :=
  c == ' ' || c == '(' || c == ')' || c == '"'

/-- Whether a text can stand in the text of an expression without being divided. -/
def isWord (text : List Char) : Bool :=
  !text.isEmpty && text.all fun c => !isMark c

/-- What may stand behind the text of an expression. -/
def Stops (rest : List Char) : Prop :=
  ∀ c ∈ rest.head?, c = ' ' ∨ c = ')'

variable {word word' rest rest' : List Char}

theorem isWord_iff : isWord word ↔ word ≠ [] ∧ ∀ c ∈ word, isMark c = false := by
  simp [isWord]

theorem isWord_of_all {p : Char → Bool} (hp : [' ', '(', ')', '"'].all fun c => !p c)
    (hne : word ≠ []) (h : ∀ c ∈ word, p c) : isWord word := by
  refine isWord_iff.2 ⟨hne, fun c hc => ?_⟩
  have hpc := h c hc
  simp only [List.all_cons, List.all_nil, Bool.and_true, Bool.and_eq_true] at hp
  simp only [isMark, Bool.or_eq_false_iff, beq_eq_false_iff_ne]
  refine ⟨⟨⟨?_, ?_⟩, ?_⟩, ?_⟩ <;> (rintro rfl; simp_all)

/-- Where a word ends is seen from what stops it. -/
theorem isWord_append_inj (h : isWord word) (h' : isWord word') (hrest : Stops rest)
    (hrest' : Stops rest') (heq : word ++ rest = word' ++ rest') : word = word' ∧ rest = rest' := by
  have hword {word : List Char} (h : isWord word) : ∀ c ∈ word, ¬(c == ' ' || c == ')') := by
    intro c hc
    have := (isWord_iff.1 h).2 c hc
    simp_all [isMark]
  exact split_at_mark (hword h) (hword h') (by simpa [Stops] using hrest)
    (by simpa [Stops] using hrest') heq

/-- A word starts with none of the marks. -/
theorem isWord_append_ne_cons (h : isWord word) {c : Char} (hc : isMark c) :
    word ++ rest ≠ c :: rest' := by
  intro heq
  obtain ⟨hne, hmarks⟩ := isWord_iff.1 h
  cases word with
  | nil => exact hne rfl
  | cons d ds =>
    obtain ⟨rfl, -⟩ := List.cons.inj heq
    rw [hmarks d (.head _)] at hc
    cases hc

end Text

theorem Number.isWord_text {x : Float} (h : x.isFinite) : isWord (Number.text x).toList := by
  refine isWord_of_all (p := isTextChar) rfl ?_ (isTextChar_of_isFinite h)
  obtain ⟨c, rest, htext, -⟩ :=
    Decimal.head_of_ofText? (isSome_ofText?_magnitudeText (x.toBits.toNat % Nat.pow 2 63))
  rw [text_of_isFinite h, htext]
  simp

/-- A text with other characters is not the text of a finite number. -/
theorem Number.text_ne {x : Float} (h : x.isFinite) {word : String}
    (hword : word.toList.all isTextChar = false) : Number.text x ≠ word := by
  rintro rfl
  rw [List.all_eq_true.2 (isTextChar_of_isFinite h)] at hword
  cases hword

/-! ## Literals and names -/

namespace Literal

/-- A literal that is not a number without a finite value. -/
def IsFinite : Literal → Prop
  | number x => x.isFinite
  | _ => True

/-- The literals that are written as reserved words. -/
def words : List Literal := [null, bool true, bool false]

variable {v v' : Literal} {rest rest' : List Char}

theorem mem_words_or_number (hv : ∀ s, v ≠ string s) : v ∈ words ∨ ∃ x, v = number x := by
  cases v with
  | null => exact .inl (by decide)
  | bool b => cases b <;> exact .inl (by decide)
  | number x => exact .inr ⟨x, rfl⟩
  | string s => exact absurd rfl (hv s)

theorem text_inj_of_mem_words : ∀ v ∈ words, ∀ v' ∈ words, v.text = v'.text → v = v' := by
  decide

theorem reserved_of_mem_words :
    ∀ v ∈ words, ∃ kind ∈ TokenKind.reserved, kind.text.toList = v.text.toList := by
  decide

theorem isWord_of_mem_words :
    ∀ v ∈ words, isWord v.text.toList ∧ v.text.toList.all Number.isTextChar = false := by
  decide

theorem isWord_text (h : v.IsFinite) (hv : ∀ s, v ≠ string s) : isWord v.text.toList := by
  rcases mem_words_or_number hv with hv | ⟨x, rfl⟩
  · exact (isWord_of_mem_words v hv).1
  · exact Number.isWord_text h

theorem eq_of_text_eq (h : v.IsFinite) (h' : v'.IsFinite) (hv : ∀ s, v ≠ string s)
    (hv' : ∀ s, v' ≠ string s) (heq : v.text = v'.text) : v = v' := by
  rcases mem_words_or_number hv with hw | ⟨x, rfl⟩ <;>
    rcases mem_words_or_number hv' with hw' | ⟨y, rfl⟩
  · exact text_inj_of_mem_words v hw v' hw' heq
  · exact absurd heq.symm (Number.text_ne h' (isWord_of_mem_words v hw).2)
  · exact absurd heq (Number.text_ne h (isWord_of_mem_words v' hw').2)
  · rw [Number.text_injective h h' heq]

theorem text_string (s : String) : (string s).text.toList = Quoted.encode s.toList :=
  String.toList_ofList

/-- Where the text of a literal ends can be seen, and it tells the literal. -/
theorem text_append_inj (h : v.IsFinite) (h' : v'.IsFinite) (hrest : Stops rest)
    (hrest' : Stops rest') (heq : v.text.toList ++ rest = v'.text.toList ++ rest') :
    v = v' ∧ rest = rest' := by
  by_cases hv : ∃ s, v = string s <;> by_cases hv' : ∃ s, v' = string s
  · obtain ⟨s, rfl⟩ := hv
    obtain ⟨s', rfl⟩ := hv'
    rw [text_string, text_string] at heq
    -- A quoted text ends at its closing quote, whatever stands behind it.
    obtain ⟨hs, hrest⟩ := Quoted.encode_append_inj heq
    exact ⟨by rw [String.toList_injective hs], hrest⟩
  · obtain ⟨s, rfl⟩ := hv
    rw [text_string] at heq
    exact absurd heq.symm (isWord_append_ne_cons (isWord_text h' (not_exists.1 hv')) rfl)
  · obtain ⟨s, rfl⟩ := hv'
    rw [text_string] at heq
    exact absurd heq (isWord_append_ne_cons (isWord_text h (not_exists.1 hv)) rfl)
  -- Any other literal is a word, and ends where that is stopped.
  · obtain ⟨htext, hrest⟩ := isWord_append_inj (isWord_text h (not_exists.1 hv))
      (isWord_text h' (not_exists.1 hv')) hrest hrest' heq
    exact ⟨eq_of_text_eq h h' (not_exists.1 hv) (not_exists.1 hv')
      (String.toList_injective htext), hrest⟩

end Literal

theorem Lexical.Lexeme.identifier_chars {text : List Char} {literal : Option Literal}
    (h : Lexeme .identifier text literal) :
    (∃ c ∈ text, isWordStart c) ∧ ∀ c ∈ text, isWordChar c := by
  cases h with
  | symbol h | reserved h => exact absurd h (by decide)
  | identifier hstart hchars =>
    exact ⟨⟨_, .head _, hstart⟩,
      List.forall_mem_cons.2 ⟨Cursor.isWordChar_of_isWordStart hstart, hchars⟩⟩

/-- Identifiers hold no character that would divide a text. -/
theorem isWord_of_identifier {text : List Char} {literal : Option Literal}
    (h : Lexeme .identifier text literal) : isWord text := by
  obtain ⟨⟨c, hc, -⟩, hchars⟩ := h.identifier_chars
  exact isWord_of_all (p := isWordChar) rfl (List.ne_nil_of_mem hc) hchars

theorem isTextChar_eq_false_of_isWordStart {c : Char} (h : isWordStart c) :
    Number.isTextChar c = false := by
  rw [Number.isTextChar, isDigit_eq_false_of_isWordStart h, Bool.false_or, Bool.or_eq_false_iff,
    beq_eq_false_iff_ne, beq_eq_false_iff_ne]
  constructor <;> (rintro rfl; cases h)

/-- No name looks like a literal. -/
theorem identifier_ne_literal {name : List Char} {literal : Option Literal}
    (hname : Lexeme .identifier name literal) {v : Literal} (hv : v.IsFinite)
    {rest rest' : List Char} (hrest : Stops rest) (hrest' : Stops rest') :
    name ++ rest ≠ v.text.toList ++ rest' := by
  intro heq
  by_cases hstring : ∃ s, v = .string s
  · obtain ⟨s, rfl⟩ := hstring
    rw [Literal.text_string] at heq
    exact absurd heq (isWord_append_ne_cons (isWord_of_identifier hname) rfl)
  obtain ⟨rfl, -⟩ := isWord_append_inj (isWord_of_identifier hname)
    (Literal.isWord_text hv (not_exists.1 hstring)) hrest hrest' heq
  rcases Literal.mem_words_or_number (not_exists.1 hstring) with hv | ⟨x, rfl⟩
  · obtain ⟨kind, hkind, htext⟩ := Literal.reserved_of_mem_words v hv
    rw [← htext] at hname
    rw [← (hname.unique (.reserved hkind)).1] at hkind
    exact absurd hkind (by decide)
  · obtain ⟨⟨c, hc, hstart⟩, -⟩ := hname.identifier_chars
    have hchar := Number.isTextChar_of_isFinite hv c hc
    rw [isTextChar_eq_false_of_isWordStart hstart] at hchar
    cases hchar

/-! ## Expressions -/

namespace Expr

variable {e e' : Expr} {head : String} {rest rest' : List Char}

theorem Readable.name {name : Token} (h : (var name).Readable) :
    name.kind ≠ .eof ∧ Lexeme .identifier name.lexeme.toList name.literal := by
  obtain ⟨hkind, hspelt⟩ := h.obeys
  have hne : name.kind ≠ .eof := by simp [hkind]
  exact ⟨hne, hkind ▸ hspelt hne⟩

theorem Readable.literal {v : Literal} (h : (literal v).Readable) : v.IsFinite := by
  cases v with
  | number x => exact h.finite x (mem_numbers.2 (.head _))
  | _ => trivial

/-- Names and literals can be told from what stands behind them. -/
theorem leaf_append_inj (h : e.Readable) (h' : e'.Readable) (hleaf : e.head? = none)
    (hleaf' : e'.head? = none) (hrest : Stops rest) (hrest' : Stops rest')
    (heq : e.text.toList ++ rest = e'.text.toList ++ rest') :
    e.Like .upToLine e' ∧ rest = rest' := by
  cases e with
  | literal v =>
    cases e' with
    | literal v' =>
      obtain ⟨rfl, hrest⟩ := Literal.text_append_inj h.literal h'.literal hrest hrest' heq
      exact ⟨.literal v, hrest⟩
    | var name => exact absurd heq.symm (identifier_ne_literal h'.name.2 h.literal hrest' hrest)
    | _ => cases hleaf'
  | var name =>
    cases e' with
    | literal v => exact absurd heq (identifier_ne_literal h.name.2 h'.literal hrest hrest')
    | var name' =>
      obtain ⟨htext, hrest⟩ := isWord_append_inj (isWord_of_identifier h.name.2)
        (isWord_of_identifier h'.name.2) hrest hrest' heq
      exact ⟨.var (h.obeys.2.like h'.obeys.2 h.name.1 h'.name.1 (String.toList_injective htext)),
        hrest⟩
    | _ => cases hleaf'
  | _ => cases hleaf

/-- A literal or a name does not start with a parenthesis. -/
theorem leaf_append_ne (h : e.Readable) (hleaf : e.head? = none) :
    e.text.toList ++ rest ≠ '(' :: rest' := by
  intro heq
  cases e with
  | literal v =>
    by_cases hstring : ∃ s, v = .string s
    · obtain ⟨s, rfl⟩ := hstring
      rw [text, Literal.text_string] at heq
      exact absurd (List.cons.inj heq).1 (by decide)
    · exact isWord_append_ne_cons (Literal.isWord_text h.literal (not_exists.1 hstring)) rfl heq
  | var name => exact isWord_append_ne_cons (isWord_of_identifier h.name.2) rfl heq
  | _ => cases hleaf

/-- The operator of an expression that has one. -/
def operator? : Expr → Option Token
  | unary op _ | binary _ op _ | logical _ op _ => some op
  | _ => none

/-- The operator is of one of the kinds that the parser takes for operators. -/
theorem Readable.operator {op : Token} (h : e.Readable) (hop : e.operator? = some op) :
    op.kind ∈ Operator.kinds ∧ op.Spelt := by
  have hkinds : (∀ kind ∈ Operator.unaryKinds, kind ∈ Operator.kinds) ∧
      (∀ kind ∈ Operator.binaryKinds, kind ∈ Operator.kinds) ∧
      ∀ kind ∈ Operator.logicalKinds, kind ∈ Operator.kinds := by decide
  cases e with
  | unary => cases hop; exact h.obeys.1.imp_left (hkinds.1 _)
  | binary => cases hop; exact h.obeys.2.1.imp_left (hkinds.2.1 _)
  | logical => cases hop; exact h.obeys.2.1.imp_left (hkinds.2.2 _)
  | _ => cases hop

theorem lexeme_of_operator {op : Token} (h : op.kind ∈ Operator.kinds ∧ op.Spelt) :
    op.kind ≠ .eof ∧ op.lexeme = op.kind.text := by
  have hkinds : ∀ kind ∈ Operator.kinds,
      kind ≠ .eof ∧ kind ∉ [.identifier, .number, .string] := by decide
  obtain ⟨hne, hkind⟩ := hkinds _ h.1
  exact ⟨hne, String.toList_injective ((h.2 hne).eq_text hkind)⟩

/-- The heads of expressions without an operator. -/
def plainHeads : List String := ["=", "group", "call"]

/-- The head is the operator, or a word that is none. -/
theorem head?_eq (h : e.head? = some head) :
    (∃ op, e.operator? = some op ∧ head = op.lexeme) ∨ e.operator? = none ∧ head ∈ plainHeads := by
  cases e <;> cases h
  case unary | binary | logical => exact .inl ⟨_, rfl, rfl⟩
  all_goals exact .inr ⟨rfl, by decide⟩

theorem operator_text :
    ∀ kind ∈ Operator.kinds, kind.text ∉ plainHeads ∧ isWord kind.text.toList := by
  decide

theorem Readable.isWord_head (h : e.Readable) (hhead : e.head? = some head) :
    isWord head.toList := by
  rcases head?_eq hhead with ⟨op, hop, rfl⟩ | ⟨-, hplain⟩
  · rw [(lexeme_of_operator (h.operator hop)).2]
    exact (operator_text _ (h.operator hop).1).2
  · have hwords : ∀ head ∈ plainHeads, isWord head.toList := by decide
    exact hwords head hplain

/-- One head is not that of an operator and of something else. -/
theorem Readable.operator_like {op : Token} (h : e.Readable) (h' : e'.Readable)
    (hop : e.operator? = some op) (hhead : e.head? = some head) (hhead' : e'.head? = some head) :
    ∃ op', e'.operator? = some op' ∧ Likeness.upToLine.Like op op' := by
  obtain rfl : head = op.lexeme := by
    cases e <;> cases hop <;> cases hhead <;> rfl
  rcases head?_eq hhead' with ⟨op', hop', hlexeme⟩ | ⟨-, hplain⟩
  · refine ⟨op', hop', (h.operator hop).2.like (h'.operator hop').2 ?_ ?_ hlexeme⟩
    · exact (lexeme_of_operator (h.operator hop)).1
    · exact (lexeme_of_operator (h'.operator hop')).1
  · rw [(lexeme_of_operator (h.operator hop)).2] at hplain
    exact absurd hplain (operator_text _ (h.operator hop).1).1

/-- Operators that are alike, with operands that are alike. How many operands there are tells a
unary minus from a binary one. -/
theorem like_of_operator {op op' : Token} (h : e.Readable) (h' : e'.Readable)
    (hop : e.operator? = some op) (hop' : e'.operator? = some op')
    (hlike : Likeness.upToLine.Like op op')
    (hoperands : List.Forall₂ (Like .upToLine) e.operands e'.operands) :
    e.Like .upToLine e' := by
  have hdisjoint : ∀ kind ∈ Operator.binaryKinds, kind ∉ Operator.logicalKinds := by decide
  cases e with
  | unary =>
    cases hop
    cases e' with
    | unary =>
      cases hop'
      cases hoperands with
      | cons ho => exact .unary hlike ho
    | binary | logical => nomatch hoperands
    | _ => cases hop'
  | binary =>
    cases hop
    cases e' with
    | binary =>
      cases hop'
      cases hoperands with
      | cons hl hr => cases hr with | cons hr => exact .binary hl hlike hr
    | logical =>
      cases hop'
      -- Both have two operands, but no operator is of both kinds.
      exact absurd h'.obeys.2.1.1 (hdisjoint _ (hlike.1 ▸ h.obeys.2.1.1))
    | unary => nomatch hoperands
    | _ => cases hop'
  | logical =>
    cases hop
    cases e' with
    | logical =>
      cases hop'
      cases hoperands with
      | cons hl hr => cases hr with | cons hr => exact .logical hl hlike hr
    | binary =>
      cases hop'
      exact absurd h.obeys.2.1.1 (hdisjoint _ (hlike.1 ▸ h'.obeys.2.1.1))
    | unary => nomatch hoperands
    | _ => cases hop'
  | _ => cases hop

theorem paren_like {t u : Token} (ht : t.kind = .rightParen ∧ t.Spelt)
    (hu : u.kind = .rightParen ∧ u.Spelt) : Likeness.upToLine.Like t u := by
  have hlexeme {t : Token} (ht : t.kind = .rightParen ∧ t.Spelt) :
      t.kind ≠ .eof ∧ t.lexeme = TokenKind.rightParen.text := by
    have hne : t.kind ≠ .eof := by simp [ht.1]
    refine ⟨hne, String.toList_injective ?_⟩
    rw [(ht.2 hne).eq_text (by simp [ht.1]), ht.1]
  exact ht.2.like hu.2 (hlexeme ht).1 (hlexeme hu).1 ((hlexeme ht).2.trans (hlexeme hu).2.symm)

/-- The other heads tell the form of the expression alone. -/
theorem like_of_plain_head (h : e.Readable) (h' : e'.Readable) (hop : e.operator? = none)
    (hop' : e'.operator? = none) (hhead : e.head? = some head) (hhead' : e'.head? = some head)
    (hoperands : List.Forall₂ (Like .upToLine) e.operands e'.operands) :
    e.Like .upToLine e' := by
  cases e with
  | assign =>
    cases hhead
    cases e' with
    | assign =>
      cases hoperands with
      | cons hname hvalue =>
        cases hname with
        | var hname => cases hvalue with | cons hvalue => exact .assign hname hvalue
    | group | call => simp [head?] at hhead'
    | literal | var => cases hhead'
    | _ => cases hop'
  | group =>
    cases hhead
    cases e' with
    | group => cases hoperands with | cons hinner => exact .group hinner
    | assign | call => simp [head?] at hhead'
    | literal | var => cases hhead'
    | _ => cases hop'
  | call =>
    cases hhead
    cases e' with
    | call =>
      cases hoperands with
      | cons hcallee hargs => exact .call hcallee (paren_like h.obeys.2.1 h'.obeys.2.1) hargs
    | assign | group => simp [head?] at hhead'
    | literal | var => cases hhead'
    | _ => cases hop'
  | literal | var => cases hhead
  | _ => cases hop

/-- A head and what stands behind it tell which expression it is. -/
theorem like_of_operands (h : e.Readable) (h' : e'.Readable) (hhead : e.head? = some head)
    (hhead' : e'.head? = some head)
    (hoperands : List.Forall₂ (Like .upToLine) e.operands e'.operands) :
    e.Like .upToLine e' := by
  cases hop : e.operator? with
  | some op =>
    obtain ⟨op', hop', hlike⟩ := h.operator_like h' hop hhead hhead'
    exact like_of_operator h h' hop hop' hlike hoperands
  | none =>
    cases hop' : e'.operator? with
    | none => exact like_of_plain_head h h' hop hop' hhead hhead' hoperands
    | some op' =>
      obtain ⟨op, hop₂, -⟩ := h'.operator_like h hop' hhead' hhead
      rw [hop] at hop₂
      cases hop₂

/-- Whatever stands behind it, the expression can be read back from the front of a text. -/
def ReadsBack (e : Expr) : Prop :=
  ∀ {e' : Expr} {rest rest' : List Char}, e.Readable → e'.Readable → Stops rest → Stops rest' →
    e.text.toList ++ rest = e'.text.toList ++ rest' → e.Like .upToLine e' ∧ rest = rest'

theorem stops_operands (es : List Expr) (rest : List Char) :
    Stops ((textAll es).toList ++ ')' :: rest) := by
  cases es <;> simp [textAll, Stops]

/-- Operands can be read back one by one, up to the closing parenthesis. -/
theorem textAll_append_inj {es es' : List Expr} (hback : ∀ e ∈ es, e.ReadsBack)
    (h : ∀ e ∈ es, e.Readable) (h' : ∀ e ∈ es', e.Readable)
    (heq : (textAll es).toList ++ ')' :: rest = (textAll es').toList ++ ')' :: rest') :
    List.Forall₂ (Like .upToLine) es es' ∧ rest = rest' := by
  induction es generalizing es' with
  | nil =>
    cases es' with
    | nil => exact ⟨.nil, by simpa [textAll] using heq⟩
    | cons e' es' => simp [textAll] at heq
  | cons e es ih =>
    cases es' with
    | nil => simp [textAll] at heq
    | cons e' es' =>
      simp only [textAll, String.toList_append, List.append_assoc] at heq
      obtain ⟨hlike, hmore⟩ := hback e (.head _) (h e (.head _)) (h' e' (.head _))
        (stops_operands es rest) (stops_operands es' rest') (List.append_cancel_left heq)
      obtain ⟨hlikes, hrest⟩ := ih (fun e he => hback e (.tail _ he)) (fun e he => h e (.tail _ he))
        (fun e he => h' e (.tail _ he)) hmore
      exact ⟨.cons hlike hlikes, hrest⟩

/-- Expressions are read back from their texts, by induction on the operands. -/
theorem readsBack (e : Expr) : e.ReadsBack := by
  induction e using operands_induction with
  | h e ih =>
    intro e' rest rest' h h' hrest hrest' heq
    cases hhead : e.head? with
    | none =>
      cases hhead' : e'.head? with
      | none => exact leaf_append_inj h h' hhead hhead' hrest hrest' heq
      | some head' =>
        rw [text_of_head? hhead', List.cons_append] at heq
        -- Only an expression with a head starts with a parenthesis.
        exact absurd heq (leaf_append_ne h hhead)
    | some head =>
      rw [text_of_head? hhead, List.cons_append] at heq
      cases hhead' : e'.head? with
      | none => exact absurd heq.symm (leaf_append_ne h' hhead')
      | some head' =>
        rw [text_of_head? hhead', List.cons_append, List.cons.injEq] at heq
        simp only [List.append_assoc, List.singleton_append, true_and] at heq
        -- Behind the head there is a space or the closing parenthesis, and so the heads are the
        -- same.
        obtain ⟨hheads, hmore⟩ := isWord_append_inj (h.isWord_head hhead) (h'.isWord_head hhead')
          (stops_operands _ _) (stops_operands _ _) heq
        obtain rfl := String.toList_injective hheads
        obtain ⟨hoperands, hrest⟩ := textAll_append_inj ih (fun o ho => h.operand ho)
          (fun o ho => h'.operand ho) hmore
        exact ⟨like_of_operands h h' hhead hhead' hoperands, hrest⟩

end Expr

/-- What the parser reads from source text is readable, if its numbers are finite. -/
theorem readable_of_mem_parts {source : String} {e : Expr}
    (he : e ∈ Stmt.partsAll (parse (scan source).tokens).statements)
    (hfinite : ∀ x ∈ e.numbers, x.isFinite) : e.Readable :=
  ⟨(parse_obeys fun _ => spelt_of_mem_scan).part he, hfinite⟩

/-- Expressions that occur in what is read from two source texts, be there errors or not, and whose
numbers are finite have the same text only if they are the same but for the lines of their
tokens. -/
theorem expression_text_is_uniquely_readable {source source' : String} {e e' : Expr}
    (he : e ∈ Stmt.partsAll (parse (scan source).tokens).statements)
    (he' : e' ∈ Stmt.partsAll (parse (scan source').tokens).statements)
    (hfinite : ∀ x ∈ e.numbers, x.isFinite) (hfinite' : ∀ x ∈ e'.numbers, x.isFinite)
    (htext : e.text = e'.text) : e.Like .upToLine e' := by
  have hstops : Stops [] := by simp [Stops]
  exact (e.readsBack (readable_of_mem_parts he hfinite) (readable_of_mem_parts he' hfinite')
    hstops hstops (by rw [htext])).1

/-- The parser gives up on the second statement of the second text, but the first is the one of the
first text. -/
theorem expression_text_is_uniquely_readable_with_errors :
    ∃ e ∈ Stmt.partsAll
        (parse (scan "print -group(call - 1.50, \"a) \\\" (\", (x = !y));").tokens).statements,
      ∃ e' ∈ Stmt.partsAll (parse (scan
        "\nprint -group(call -\n1.5, \"a) \\\" (\", (x\n=\n!y));\n print ;").tokens).statements,
      (∀ x ∈ e.numbers, x.isFinite) ∧ (∀ x ∈ e'.numbers, x.isFinite) ∧
        e.text = "(- (call group (- call 1.5) \"a) \\\" (\" (group (= x (! y)))))" ∧
        e.text = e'.text ∧ e.Like .upToLine e' := by
  refine ⟨_, List.get_mem _ ⟨0, by decide +kernel⟩, _, List.get_mem _ ⟨0, by decide +kernel⟩,
    ?_, ?_, ?_, ?_, expression_text_is_uniquely_readable (List.get_mem _ _) (List.get_mem _ _) ?_ ?_
      ?_⟩
  all_goals decide +kernel

end Treewalk
