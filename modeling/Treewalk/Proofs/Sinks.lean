import Treewalk.Console
import Treewalk.Proofs.Tasks

/-!
# Full sinks

A machine does not see the sink that its writes go into. A sink that is full therefore cannot change
what a program does, and it cuts off what the program writes at the very byte at which its room was
used up, be that within a character or before the end of a line.

The proof follows two sinks through the same writes, one with unlimited room and one with room for
`n` bytes: the second always holds the first `n` bytes of the first (`Sink.Shortens`).
-/

namespace Treewalk

/-! ## Writers -/

/-- The bytes are listed by a loop, which has the first `i` of them, reversed, at index `i`. -/
theorem toList_loop_eq (bs : ByteArray) (i : Nat) (read : List UInt8) :
    ByteArray.toList.loop bs i read = read.reverse ++ bs.data.toList.drop i := by
  fun_induction ByteArray.toList.loop bs i read with
  | case1 i read h ih =>
    have hlt : i < bs.data.toList.length := h
    have hget : bs.get! i = bs.data.toList.get ⟨i, hlt⟩ := getElem!_pos bs.data i h
    rw [ih, List.reverse_cons, List.append_assoc, List.singleton_append, hget]
    exact congrArg _ (List.drop_eq_getElem_cons hlt).symm
  | case2 i read h =>
    have hle : bs.data.toList.length ≤ i := Nat.le_of_not_lt h
    rw [List.drop_eq_nil_of_le hle, List.append_nil]

/-- Texts are encoded one behind the other. -/
theorem toUTF8_toList_append (s t : String) :
    (s ++ t).toUTF8.toList = s.toUTF8.toList ++ t.toUTF8.toList := by
  have hdata (bs : ByteArray) : bs.toList = bs.data.toList := toList_loop_eq bs 0 []
  simp [hdata]

/-- The bytes of a write are those of its pieces. -/
theorem Write.bytes_eq (w : Write) : w.bytes = w.pieces.flatMap fun s => s.toUTF8.toList := by
  cases w with
  | plain s => exact (List.append_nil _).symm
  | line s =>
    rw [bytes, text, toUTF8_toList_append, pieces, List.flatMap_cons, List.flatMap_singleton]

namespace Writer

theorem put_nil (w : Writer) : w.put [] = (true, w) := by
  obtain ⟨room, taken, flushes⟩ := w
  cases room <;> simp [put, fits]

/-- It makes no difference whether bytes come in one piece or in two. -/
theorem put_append (a b : List UInt8) (w : Writer) : w.put (a ++ b) =
    if (w.put a).1 then (w.put a).2.put b else w.put a := by
  obtain ⟨room, taken, flushes⟩ := w
  cases room with
  | none => simp [put, fits]
  | some room =>
    by_cases ha : a.length ≤ room
    · by_cases hb : b.length ≤ room - a.length
      · have hab : a.length + b.length ≤ room := by omega
        simp [put, fits, ha, hb, hab, Nat.sub_sub]
      · have hab : ¬ a.length + b.length ≤ room := by omega
        simp [put, fits, ha, hb, hab, List.take_append, List.take_of_length_le ha]
    · have hab : ¬ a.length + b.length ≤ room := by omega
      have hroom : room - a.length = 0 := by omega
      simp [put, fits, ha, hab, List.take_append, hroom]

/-- Texts that are passed on one after the other are taken as if they were one. -/
theorem putAll_eq (texts : List String) (w : Writer) :
    w.putAll texts = w.put (texts.flatMap fun s => s.toUTF8.toList) := by
  induction texts generalizing w with
  | nil => exact w.put_nil.symm
  | cons text texts ih =>
    rw [List.flatMap_cons, put_append, putAll]
    cases hput : w.put text.toUTF8.toList with
    | mk done after => cases done <;> simp [ih]

end Writer

namespace Sink

/-! ## What becomes of a write -/

/-- The sink takes all of the write, and is flushed. -/
structure Takes (s : Sink) (w : Write) : Prop where
  taken : (s.write w).taken = s.taken ++ w.bytes
  flushes : (s.write w).flushes = s.flushes + 1
  log : (s.write w).log = s.log

/-- The sink takes a part of the write, and the loss of the rest is logged. -/
structure Loses (s : Sink) (w : Write) : Prop where
  taken : ∃ k < w.bytes.length, (s.write w).taken = s.taken ++ w.bytes.take k
  flushes : (s.write w).flushes = s.flushes
  log : (s.write w).log = s.log ++ [.writeFailed]

/-- What there is room for is taken as a whole. -/
theorem write_of_fits {s : Sink} {w : Write} (h : s.fits w.bytes.length = true) :
    s.write w =
      { room := s.room.map (· - w.bytes.length)
        taken := s.taken ++ w.bytes
        flushes := s.flushes + 1
        log := s.log } := by
  rw [write, Writer.putAll_eq, ← Write.bytes_eq, Writer.put, if_pos h]
  rfl

/-- Otherwise the room is filled with as much of it as goes in. -/
theorem write_of_not_fits {s : Sink} {w : Write} (h : ¬ s.fits w.bytes.length = true) :
    s.write w =
      { room := some 0
        taken := s.taken ++ w.bytes.take (s.room.getD 0)
        flushes := s.flushes
        log := s.log ++ [.writeFailed] } := by
  rw [write, Writer.putAll_eq, ← Write.bytes_eq, Writer.put, if_neg h]
  rfl

theorem fits_of_unlimited {s : Sink} (h : s.room = none) (n : Nat) : s.fits n = true := by
  rw [Writer.fits, h]
  rfl

theorem fits_iff {s : Sink} {room : Nat} (h : s.room = some room) (n : Nat) :
    s.fits n = true ↔ n ≤ room := by
  rw [Writer.fits, h, Option.all_some, decide_eq_true_iff]

theorem takes_of_fits {s : Sink} {w : Write} (h : s.fits w.bytes.length = true) : s.Takes w := by
  constructor <;> rw [write_of_fits h]

/-- What does not fit is lost in part. -/
theorem loses_of_not_fits {s : Sink} {w : Write} (h : ¬ s.fits w.bytes.length = true) :
    s.Loses w := by
  refine ⟨⟨s.room.getD 0, ?_, ?_⟩, ?_, ?_⟩
  · cases hroom : s.room with
    | none => exact absurd (fits_of_unlimited hroom _) h
    | some room => exact Nat.lt_of_not_le (mt (fits_iff hroom _).2 h)
  all_goals rw [write_of_not_fits h]

/-- A write cannot be both, because it is flushed or not. -/
theorem Takes.not_loses {s : Sink} {w : Write} (h : s.Takes w) : ¬ s.Loses w := by
  intro hloses
  have hflushes := h.flushes.symm.trans hloses.flushes
  omega

/-- A write is either taken and flushed, or a part of it is lost and that is logged. -/
theorem takes_or_loses (s : Sink) (w : Write) :
    s.Takes w ∧ ¬ s.Loses w ∨ s.Loses w ∧ ¬ s.Takes w := by
  by_cases h : s.fits w.bytes.length = true
  · exact .inl ⟨takes_of_fits h, (takes_of_fits h).not_loses⟩
  · exact .inr ⟨loses_of_not_fits h, fun htakes => htakes.not_loses (loses_of_not_fits h)⟩

/-! ## Unlimited sinks -/

/-- A sink with unlimited room takes all writes, one behind the other. -/
theorem writeAll_of_unlimited {s : Sink} (h : s.room = none) (ws : List Write) :
    (s.writeAll ws).room = none ∧ (s.writeAll ws).taken = s.taken ++ ws.flatMap Write.bytes := by
  induction ws generalizing s with
  | nil => exact ⟨h, (List.append_nil _).symm⟩
  | cons w ws ih =>
    have hfits := fits_of_unlimited h w.bytes.length
    have hroom : (s.write w).room = none := by rw [write_of_fits hfits, h]; rfl
    obtain ⟨hroom', htaken⟩ := ih hroom
    refine ⟨hroom', htaken.trans ?_⟩
    rw [(takes_of_fits hfits).taken, List.flatMap_cons, List.append_assoc]

/-! ## Two sinks -/

/-- The sink has the first `n` bytes of those that an unlimited sink has taken, and it has room for
more if it has all of them. -/
structure Shortens (n : Nat) (s u : Sink) : Prop where
  unlimited : u.room = none
  room : s.room = some (n - u.taken.length)
  taken : s.taken = u.taken.take n

variable {n : Nat} {s u : Sink}

theorem empty_shortens (n : Nat) : Shortens n (empty (some n)) (empty none) :=
  ⟨rfl, rfl, List.take_nil.symm⟩

/-- Of the bytes of a write, both sinks take those up to the `n`th of all. -/
theorem Shortens.write (h : Shortens n s u) (w : Write) : Shortens n (s.write w) (u.write w) := by
  have hu := write_of_fits (fits_of_unlimited h.unlimited w.bytes.length)
  have hcut : (u.taken ++ w.bytes).take n =
      s.taken ++ w.bytes.take (n - u.taken.length) := by
    rw [List.take_append, h.taken]
  by_cases hfits : s.fits w.bytes.length = true
  · have hle := (fits_iff h.room _).1 hfits
    rw [List.take_of_length_le hle] at hcut
    rw [write_of_fits hfits, hu, h.unlimited, h.room]
    refine ⟨rfl, ?_, hcut.symm⟩
    rw [Option.map_some, List.length_append, Nat.sub_sub]
  · have hlt := Nat.lt_of_not_le (mt (fits_iff h.room _).2 hfits)
    rw [write_of_not_fits hfits, hu, h.unlimited, h.room]
    refine ⟨rfl, ?_, hcut.symm⟩
    -- What does not fit uses up all of the room.
    rw [List.length_append]
    exact congrArg some (by omega)

theorem Shortens.writeAll (h : Shortens n s u) (ws : List Write) :
    Shortens n (s.writeAll ws) (u.writeAll ws) := by
  induction ws generalizing s u with
  | nil => exact h
  | cons w ws ih => exact ih (h.write w)

/-! ## Sinks of machines -/

/-- The sink takes what is written later behind what was written before. -/
theorem behind_append (s : Sink) {m last : Machine} {ws : Array Write}
    (h : last.written = m.written ++ ws) : s.behind last = (s.behind m).writeAll ws.toList := by
  rw [behind, h, Array.toList_append]
  exact List.foldl_append

/-- A write of the machine goes into the sink behind all that came before. -/
theorem behind_write (s : Sink) (m : Machine) (w : Write) :
    s.behind (m.write w) = (s.behind m).write w := by
  have hwritten : (m.write w).written = m.written ++ #[w] := Array.push_eq_append
  exact s.behind_append hwritten

/-- Whatever a task does, and however it ends, it passes some more writes to the sink. Which ones
does not depend on the sink. -/
theorem behind_run (fuel : Nat) (task : Task) {m last : Machine}
    (h : last ∈ (task.run fuel m).machine?) :
    ∃ ws, ∀ s : Sink, s.behind last = (s.behind m).writeAll ws := by
  rw [(task.run_built fuel).apply_eq] at h
  cases ho : task.run fuel m.silenced with
  | outOfFuel => rw [ho] at h; cases h
  | ok vs after => rw [ho] at h; cases h; exact ⟨_, fun s => s.behind_append rfl⟩
  | failed e after => rw [ho] at h; cases h; exact ⟨_, fun s => s.behind_append rfl⟩

/-- A print statement makes one write. -/
theorem behind_print (s : Sink) {apply : Callable → List Value → Run Value} (fuel : Nat) {e : Expr}
    {m after : Machine} {v : Value} (h : evaluate apply e m = .ok v after) :
    ∃ last, execute apply fuel (.print e) m = .ok .next last ∧
      s.behind last = (s.behind after).write (.line v.text) := by
  refine ⟨after.write (.line v.text), ?_, s.behind_write _ _⟩
  rw [execute, Run.bind_apply, h]
  rfl

/-- The native `write` makes a write for each argument. -/
theorem behind_callWrite (s : Sink) (fuel : Nat) (args : List Value) (m : Machine) :
    ∃ last, call fuel (.native .write) args m = .ok .null last ∧
      s.behind last = (s.behind m).writeAll (args.map fun v => .plain v.text) := by
  refine ⟨{ m with written := m.written ++ (args.map fun v => Write.plain v.text).toArray }, ?_,
    s.behind_append rfl⟩
  rw [call, Native.call, Run.bind_apply, forM_write_eq]
  rfl

/-- The native `writeLine` makes one write. -/
theorem behind_callWriteLine (s : Sink) (fuel : Nat) (args : List Value) (m : Machine) :
    ∃ last, call fuel (.native .writeLine) args m = .ok .null last ∧
      s.behind last = (s.behind m).write (.line (String.join (args.map Value.text))) := by
  refine ⟨m.write (.line (String.join (args.map Value.text))), ?_, s.behind_write _ _⟩
  rw [call]
  rfl

end Sink

/-! ## Consoles -/

namespace Console

/-- The writes of a step that ended at a console. -/
def Step.writes (last : Console) : Step → List Write
  | write w => [w]
  | run _ => last.machine.written.toList

/-- Takes steps one after the other. There is no answer if the fuel does not suffice for one. -/
def perform (fuel : Nat) (c : Console) : List Step → Option (List (Option Report × Console))
  | [] => some []
  | step :: steps => do
    let (report, c) ← step.perform fuel c
    let rest ← perform fuel c steps
    pure ((report, c) :: rest)

/-- Two consoles differ in nothing but what there is room for. -/
structure Shortens (n : Nat) (c u : Console) : Prop where
  machine : c.machine = u.machine
  sink : c.sink.Shortens n u.sink

/-- A step gave the same report on two consoles and left the same machine in them, and the sink of
the one has the first `n` bytes of those that the sink of the other has. -/
structure MomentShortens (n : Nat) (x y : Option Report × Console) : Prop where
  report : x.1 = y.1
  machine : x.2.machine = y.2.machine
  taken : x.2.sink.taken = y.2.sink.taken.take n

/-- A step passes its writes to the sink one by one. -/
theorem Step.sink_eq {fuel : Nat} {c last : Console} {step : Step} {report : Option Report}
    (h : step.perform fuel c = some (report, last)) :
    last.sink = c.sink.writeAll (step.writes last) := by
  cases step with
  | write w => cases h; rfl
  | run source =>
    rw [Step.perform, Option.bind_eq_bind, Option.bind_eq_some_iff] at h
    obtain ⟨⟨report', machine⟩, -, hlast⟩ := h
    cases hlast
    rfl

variable {n : Nat} {c u : Console}

/-- A step on two consoles that differ in their room. -/
theorem Step.perform_shortens (fuel : Nat) (step : Step) (h : c.Shortens n u) :
    Option.Rel (fun x y => x.1 = y.1 ∧ x.2.Shortens n y.2) (step.perform fuel c)
      (step.perform fuel u) := by
  cases step with
  | write w => exact .some ⟨rfl, h.machine, h.sink.write w⟩
  | run source =>
    -- The machines are the same and do not see the sinks, and so there is only one run.
    simp only [Step.perform, h.machine]
    cases Machine.run fuel source { u.machine with written := #[] } with
    | none => exact .none
    | some unit => exact .some ⟨rfl, rfl, h.sink.writeAll _⟩

theorem perform_shortens (fuel : Nat) (steps : List Step) (h : c.Shortens n u) :
    Option.Rel (List.Forall₂ (MomentShortens n)) (perform fuel c steps) (perform fuel u steps) := by
  induction steps generalizing c u with
  | nil => exact .some .nil
  | cons step steps ih =>
    simp only [perform]
    obtain ⟨hc, hu⟩ | ⟨⟨report, c₁⟩, ⟨report', u₁⟩, hc, hu, hreport, hshort⟩ :=
      optionRel_cases (step.perform_shortens fuel h)
    · rw [hc, hu]
      exact .none
    · rw [hc, hu]
      obtain ⟨hrest, hrest'⟩ | ⟨rest, rest', hrest, hrest', hrel⟩ := optionRel_cases (ih hshort)
      · simp only [Option.bind_eq_bind, Option.bind_some, hrest, hrest']
        exact .none
      · simp only [Option.bind_eq_bind, Option.bind_some, hrest, hrest']
        exact .some (.cons ⟨hreport, hshort.machine, hshort.sink.taken⟩ hrel)

end Console

/-- A sink that is full does not matter to programs, and it cuts off what they write at a byte. Take
any steps, once with a sink that has room for `n` bytes and once with unlimited room. All reports
and all machines are the same, and behind each step the one sink has the first `n` bytes of those
that the other has. A step passes its writes to the sink one by one, and an unlimited sink takes all
their bytes. Each write is either taken and flushed, or a part of it is lost and that is logged.

What a program passes to the sink while it runs does not depend on the sink either: a print
statement and the native `writeLine` make one write each, the native `write` makes one for each
argument, and nothing takes a write back. -/
theorem full_sinks_only_truncate :
    (∀ (m : Machine) (n fuel : Nat) (steps : List Console.Step),
      Option.Rel (List.Forall₂ (Console.MomentShortens n))
        (Console.perform fuel ⟨m, .empty (some n)⟩ steps)
        (Console.perform fuel ⟨m, .empty none⟩ steps)) ∧
    (∀ (fuel : Nat) (c last : Console) (step : Console.Step) (report : Option Report),
      step.perform fuel c = some (report, last) →
        last.sink = c.sink.writeAll (step.writes last) ∧
        (c.sink.room = none → last.sink.room = none ∧
          last.sink.taken = c.sink.taken ++ (step.writes last).flatMap Write.bytes)) ∧
    (∀ (fuel : Nat) (task : Task) (m last : Machine), last ∈ (task.run fuel m).machine? →
      ∃ ws, ∀ s : Sink, s.behind last = (s.behind m).writeAll ws) ∧
    ∀ s : Sink,
      (∀ w, s.Takes w ∧ ¬ s.Loses w ∨ s.Loses w ∧ ¬ s.Takes w) ∧
      (∀ (fuel : Nat) (e : Expr) (m after : Machine) (v : Value),
        evaluate (call fuel) e m = .ok v after →
          ∃ last, execute (call fuel) fuel (.print e) m = .ok .next last ∧
            s.behind last = (s.behind after).write (.line v.text)) ∧
      (∀ (fuel : Nat) (args : List Value) (m : Machine),
        ∃ last, call fuel (.native .write) args m = .ok .null last ∧
          s.behind last = (s.behind m).writeAll (args.map fun v => .plain v.text)) ∧
      ∀ (fuel : Nat) (args : List Value) (m : Machine),
        ∃ last, call fuel (.native .writeLine) args m = .ok .null last ∧
          s.behind last = (s.behind m).write (.line (String.join (args.map Value.text))) := by
  refine ⟨fun m n fuel steps => ?_, fun fuel c last step report h => ?_,
    fun fuel task m last h => Sink.behind_run fuel task h, fun s => ?_⟩
  · exact Console.perform_shortens fuel steps ⟨rfl, Sink.empty_shortens n⟩
  · have hsink := Console.Step.sink_eq h
    refine ⟨hsink, fun hroom => ?_⟩
    rw [hsink]
    exact Sink.writeAll_of_unlimited hroom _
  · exact ⟨s.takes_or_loses, fun fuel _ _ _ _ h => s.behind_print fuel h, s.behind_callWrite,
      s.behind_callWriteLine⟩

/-- A sink with room for three bytes takes a letter of two bytes, the first byte of a line, and then
only what has no bytes. -/
theorem full_sinks_only_truncate_within_line :
    let m := Machine.initial (.startingAt 0)
    let steps : List Console.Step := [.write (.plain "é"), .run "print null;", .write (.plain "")]
    (Console.perform 0 ⟨m, .empty (some 3)⟩ steps).map
        (List.map fun x => (x.2.sink.taken, x.2.sink.flushes, x.2.sink.log.length)) =
      some [([195, 169], 1, 0), ([195, 169, 110], 1, 1), ([195, 169, 110], 2, 1)] ∧
    Option.Rel (List.Forall₂ (Console.MomentShortens 3))
      (Console.perform 0 ⟨m, .empty (some 3)⟩ steps) (Console.perform 0 ⟨m, .empty none⟩ steps) ∧
    ((Sink.empty none).write (.plain "é")).taken = [] ++ [195, 169] ∧
    (∃ last, execute (call 0) 0 (.print (.literal .null)) m = .ok .next last ∧
      (Sink.empty (some 3)).behind last =
        ((Sink.empty (some 3)).behind m).write (.line "null")) ∧
    ∃ ws, ∀ s : Sink, s.behind (m.write (.line "null")) = (s.behind m).writeAll ws := by
  intro m steps
  obtain ⟨htruncates, hsteps, hruns, hsinks⟩ := full_sinks_only_truncate
  refine ⟨by decide +kernel, htruncates m 3 0 steps, ?_, ?_, ?_⟩
  · have htakes := ((hsteps 0 ⟨m, .empty none⟩ _ (.write (.plain "é")) none rfl).2 rfl).2
    exact htakes.trans (by decide +kernel)
  · exact (hsinks _).2.1 0 (.literal .null) m m .null rfl
  · exact hruns 0 (.execute (.print (.literal .null))) m _ rfl

end Treewalk
