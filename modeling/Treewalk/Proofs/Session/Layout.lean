import Treewalk.Proofs.Likeness.Session

/-!
# Layout

Blanks and comments separate tokens, and beyond that they only move tokens to other lines. A line is
looked at by nothing but the diagnostics. The kind and the text of a token determine what it
denotes, and so texts whose tokens have the same kinds and the same texts run alike.
-/

namespace Treewalk

/-! ## Texts with the same tokens -/

/-- The texts have no errors in their spelling, and the same tokens but for the lines. -/
structure SameLexemes (a b : String) : Prop where
  left : (scan a).errors = []
  right : (scan b).errors = []
  tokens : (scan a).tokens.map (fun t => (t.kind, t.lexeme)) =
    (scan b).tokens.map fun t => (t.kind, t.lexeme)

/-- Tokens of texts with the same kind and the same lexeme denote the same. -/
theorem scan_literal_eq {a b : String} {t u : Token} (ht : t ∈ (scan a).tokens)
    (hu : u ∈ (scan b).tokens) (hkind : t.kind = u.kind) (hlexeme : t.lexeme = u.lexeme) :
    t.literal = u.literal := by
  rw [scan_tokens_eq, List.mem_append, List.mem_singleton] at ht hu
  obtain ht | rfl := ht <;> obtain hu | rfl := hu
  · have hlexeme' := lexeme_of_mem_scan hu
    rw [← hlexeme] at hlexeme'
    exact ((lexeme_of_mem_scan ht).unique hlexeme').2
  · exact absurd hkind (scan_dropLast_kind_ne_eof a t ht)
  · exact absurd hkind.symm (scan_dropLast_kind_ne_eof b u hu)
  · rfl

/-- The kind and the text of a token determine its literal, so that the tokens are alike up to their
lines. -/
theorem SameLexemes.like {a b : String} (h : SameLexemes a b) : SourceLike .upToLine a b where
  errors := h.left.trans h.right.symm
  tokens := by
    have htokens := h.tokens
    rw [← List.forall₂_eq_eq_eq, List.forall₂_map_left_iff, List.forall₂_map_right_iff] at htokens
    refine List.forall₂_iff_get.2 ⟨htokens.length_eq, fun i hi hi' => ?_⟩
    obtain ⟨hkind, hlexeme⟩ := Prod.mk.inj (htokens.get hi hi')
    exact ⟨hkind, hlexeme, scan_literal_eq (List.get_mem _ _) (List.get_mem _ _) hkind hlexeme⟩

/-! ## What does not depend on lines -/

/-- The names bound in the global scope, each with its value as it is written out. -/
def Machine.globalTexts (m : Machine) : List (String × String) :=
  (m.store.scope? globals).elim [] fun s => s.bindings.map fun b => (b.1, b.2.text)

theorem Machine.Like.globalTexts_eq {L : Likeness} {ρ : Pairing} {m m' : Machine}
    (h : m.Like L ρ m') (hglobals : ρ.Pairs globals globals) : m.globalTexts = m'.globalTexts := by
  obtain ⟨s, s', hs, hs', hlike⟩ := h.store _ _ hglobals
  simp only [globalTexts, hs, hs', Option.elim_some]
  exact map_eq_of_forall₂ hlike.bindings fun _ _ hb => Prod.ext hb.1 hb.2.text_eq

namespace Session

/-- The kinds and the messages of the diagnostics, if the answer is a report. -/
def Answer.complaints : Answer → Option (List (DiagnosticKind × String))
  | report r => some (r.diagnostics.map fun d => (d.kind, d.message))
  | _ => none

theorem Answer.Like.complaints_eq {L : Likeness} {ρ : Pairing} {a a' : Answer}
    (h : a.Like L ρ a') : a.complaints = a'.complaints := by
  cases h with
  | report hdiagnostics =>
    refine congrArg some (map_eq_of_forall₂ hdiagnostics fun _ _ hd => ?_)
    exact Prod.ext hd.kind_eq hd.message_eq
  | _ => rfl

/-- What is left of a step without the numbers of lines: what it complained about, what it wrote,
and what is bound in the global scope behind it. -/
structure Gist where
  complaints : Option (List (DiagnosticKind × String))
  written : Array Write
  globals : List (String × String)

/-- What is left of a step without the numbers of lines. -/
def gist (moment : Answer × Machine) : Gist :=
  ⟨moment.1.complaints, moment.2.written, moment.2.globalTexts⟩

/-- What is left of running units one after the other, unless the fuel does not suffice. -/
def gists (fuel : Nat) (m : Machine) (sources : List String) : Option (List Gist) :=
  (perform fuel m (sources.map .run)).map (List.map gist)

/-- Moments that are alike have the same gist. -/
theorem MomentLike.gist_eq {L : Likeness} {ρ : Pairing} {x y : Answer × Machine}
    (hglobals : ρ.Pairs Machine.globals Machine.globals) (h : MomentLike L ρ x y) :
    gist x = gist y := by
  obtain ⟨σ, hle, hanswer, hmachine⟩ := h
  have htexts := hmachine.globalTexts_eq (hle _ _ hglobals)
  simp only [gist, hanswer.complaints_eq, hmachine.written, htexts]

end Session

open Session in
/-- Layout has no meaning. Two sessions run units one after the other, each unit of the one with the
same tokens as its counterpart in the other but for the lines. From unit to unit they write the
same, complain about the same in the same order and have the same names bound globally, to values
that look the same. -/
theorem layout_is_unseen {sources sources' : List String} {clock clock' : Clock}
    (h : List.Forall₂ SameLexemes sources sources') (hclock : clock.Alike clock') (fuel : Nat) :
    gists fuel (.initial clock) sources = gists fuel (.initial clock') sources' := by
  have hsteps : List.Forall₂ (Step.Like .upToLine) (sources.map .run) (sources'.map .run) :=
    List.rel_map (fun _ _ hab => Step.Like.run hab.like) h
  have hglobals : Pairing.roots.Pairs Machine.globals Machine.globals := ⟨rfl, rfl⟩
  exact perform_map_eq (fun _ _ => MomentLike.gist_eq hglobals) hsteps (initial_like hclock)
    hglobals

open Session in
/-- An undefined variable on the third line is complained about as on the first. -/
theorem undefined_variable_moved :
    SameLexemes "x;" "//x\n\nx ;" ∧
    gists 0 (.initial (.startingAt 0)) ["x;"] =
      gists 0 (.initial (.startingAt 0)) ["//x\n\nx ;"] := by
  have hplain : scan "x;" =
      ⟨[⟨.identifier, "x", none, 1⟩, ⟨.semicolon, ";", none, 1⟩, .endOfInput 1], []⟩ := by
    have htext : "x;".toList = ['x', ';'] := by decide
    simp only [scan, htext, Cursor.start]
    rw [Cursor.readSegments_some rfl, Cursor.readSegments_some rfl, Cursor.readSegments_none rfl]
    rfl
  have hmoved : scan "//x\n\nx ;" =
      ⟨[⟨.identifier, "x", none, 3⟩, ⟨.semicolon, ";", none, 3⟩, .endOfInput 3], []⟩ := by
    have htext : "//x\n\nx ;".toList = ['/', '/', 'x', '\n', '\n', 'x', ' ', ';'] := by decide
    simp only [scan, htext, Cursor.start]
    rw [Cursor.readSegments_some rfl, Cursor.readSegments_some rfl, Cursor.readSegments_some rfl,
      Cursor.readSegments_some rfl, Cursor.readSegments_some rfl, Cursor.readSegments_some rfl,
      Cursor.readSegments_none rfl]
    rfl
  have hsame : SameLexemes "x;" "//x\n\nx ;" :=
    ⟨by rw [hplain], by rw [hmoved], by rw [hplain, hmoved]; rfl⟩
  exact ⟨hsame, layout_is_unseen (.cons hsame .nil) (fun _ => rfl) 0⟩

end Treewalk
