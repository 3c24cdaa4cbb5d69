import Treewalk.Proofs.Lexing.Segmentation

/-!
# Where a cursor stands

A cursor is moved by calls for the next character and by calls for a run of characters. Whichever
calls are made, what they return is the start of the text, and the cursor stands right behind it. A
call for a run is worth as many calls for the next character as the run is long.
-/

namespace Treewalk

namespace Cursor

/-- A call on a cursor: for the next character, or for the characters up to the first one that does
not satisfy `p`. -/
inductive Call where
  | next
  | readWhile (p : Char → Bool)

/-- What a call returns, and the cursor behind it. At the end of the text there is no next
character, and the cursor stays where it is. -/
def Call.perform (cur : Cursor) : Call → List Char × Cursor
  | next =>
    match cur.next? with
    | some (c, after) => ([c], after)
    | none => ([], cur)
  | readWhile p => cur.readWhile p

/-- What the calls return one after the other, and the cursor behind the last of them. -/
def performAll (cur : Cursor) : List Call → List (List Char) × Cursor
  | [] => ([], cur)
  | call :: calls =>
    let (read, after) := call.perform cur
    let (returned, last) := after.performAll calls
    (read :: returned, last)

/-! ## Calls move the cursor past what they return -/

theorem Moved.refl (cur : Cursor) : Moved cur [] cur :=
  ⟨rfl, rfl⟩

theorem Call.moved_perform (cur : Cursor) (call : Call) :
    Moved cur (call.perform cur).1 (call.perform cur).2 := by
  cases call with
  | next =>
    cases h : cur.next? with
    | none => simpa only [perform, h] using .refl cur
    | some read => simpa only [perform, h] using moved_next h
  | readWhile p => exact moved_readWhile p cur

/-- Any number of calls moves the cursor past what they return. -/
theorem moved_performAll (cur : Cursor) (calls : List Call) :
    Moved cur (cur.performAll calls).1.flatten (cur.performAll calls).2 := by
  induction calls generalizing cur with
  | nil => exact .refl cur
  | cons call calls ih => exact (call.moved_perform cur).trans (ih _)

/-- A cursor that has been moved from the start of a text past a part of it stands behind that
part. -/
theorem Moved.position_eq_behind {text consumed : List Char} {cur : Cursor}
    (h : Moved (start text) consumed cur) : cur.position = .behind consumed := by
  rw [h.position]
  exact (Position.behind_append [] consumed).symm

/-! ## Runs of characters -/

/-- The longest start of a text all of whose characters satisfy `p`. -/
structure LongestRun (p : Char → Bool) (text run : List Char) : Prop where
  starts : run <+: text
  satisfied : ∀ c ∈ run, p c
  longest : ∀ other, other <+: text → (∀ c ∈ other, p c) → other <+: run

/-- A run is read as far as it goes. -/
theorem longestRun_readWhile (p : Char → Bool) (cur : Cursor) :
    LongestRun p cur.rest (cur.readWhile p).1 := by
  rw [readWhile_fst]
  have hstarts : cur.rest.takeWhile p <+: cur.rest := List.takeWhile_prefix p
  refine ⟨hstarts, forall_mem_takeWhile p cur.rest, ?_⟩
  rintro other ⟨tail, htail⟩ hall
  rw [← htail, List.takeWhile_append_of_pos hall]
  exact List.prefix_append _ _

theorem perform_next {cur : Cursor} {c : Char} {rest : List Char} (h : cur.rest = c :: rest) :
    Call.next.perform cur = ([c], ⟨rest, cur.position.step c⟩) := by
  simp only [Call.perform, next?, h]

/-- Calls for the next character return the characters of a text one by one. -/
theorem performAll_next {cur after : Cursor} {text : List Char} (h : Moved cur text after) :
    cur.performAll (List.replicate text.length .next) = (text.map ([·]), after) := by
  induction text generalizing cur with
  | nil =>
    obtain ⟨hrest, hposition⟩ := h
    obtain ⟨rest, position⟩ := cur
    cases hrest
    cases hposition
    rfl
  | cons c text ih =>
    have hrest : cur.rest = c :: (text ++ after.rest) := h.rest
    have hbehind : Moved ⟨text ++ after.rest, cur.position.step c⟩ text after := ⟨rfl, h.position⟩
    rw [List.length_cons, List.replicate_succ, performAll, perform_next hrest]
    simp only [ih hbehind, List.map_cons]

/-- Make any calls on the cursor in front of a text. Together they return the part of the text that
has been consumed, and the cursor is on the line that follows from the line feeds in it, in the
column that follows from the characters behind the last of them, both counted from one. A further
call for a run of characters returns the longest run that there is, and leaves the cursor where a
call for the next character for each character of the run would leave it. -/
theorem cursor_position_is_exact {text : List Char} {calls : List Call}
    {returned : List (List Char)} {cur : Cursor}
    (h : (start text).performAll calls = (returned, cur)) :
    text = returned.flatten ++ cur.rest ∧
    cur.position.line = 1 + returned.flatten.count '\n' ∧
    cur.position.column = 1 + (returned.flatten.reverse.takeWhile (· != '\n')).length ∧
    ∀ p : Char → Bool, LongestRun p cur.rest (cur.readWhile p).1 ∧
      cur.performAll (List.replicate (cur.readWhile p).1.length .next) =
        ((cur.readWhile p).1.map ([·]), (cur.readWhile p).2) := by
  have hmoved : Moved (start text) returned.flatten cur := by
    simpa only [h] using moved_performAll (start text) calls
  have hposition := hmoved.position_eq_behind
  refine ⟨hmoved.rest, ?_, ?_, fun p => ⟨longestRun_readWhile p cur, ?_⟩⟩
  · rw [hposition]
    exact Nat.add_comm _ 1
  · rw [hposition]
    exact Nat.add_comm _ 1
  · exact performAll_next (moved_readWhile p cur)

/-- One run goes over two line feeds, and at the end of the text there is no next character. -/
theorem cursor_position_is_exact_behind_line_feeds :
    (start ['a', 'b', '\n', '\n', 'c', 'd']).performAll
        [.next, .readWhile (· != 'd'), .next, .next] =
      ([['a'], ['b', '\n', '\n', 'c'], ['d'], []], ⟨[], ⟨3, 3⟩⟩) ∧
    3 = 1 + ['a', 'b', '\n', '\n', 'c', 'd'].count '\n' ∧
    3 = 1 + (['a', 'b', '\n', '\n', 'c', 'd'].reverse.takeWhile (· != '\n')).length := by
  have hcalls : (start ['a', 'b', '\n', '\n', 'c', 'd']).performAll
      [.next, .readWhile (· != 'd'), .next, .next] =
        ([['a'], ['b', '\n', '\n', 'c'], ['d'], []], ⟨[], ⟨3, 3⟩⟩) := rfl
  obtain ⟨-, hline, hcolumn, -⟩ := cursor_position_is_exact hcalls
  exact ⟨hcalls, hline, hcolumn⟩

end Cursor

end Treewalk
