import Amd64.Rendering

/-!
What a sink with limited room receives. A rendering `Propagates` failures if it
treats every sink alike: where its whole text has room, the sink grows by that
text, and where it has none, the rendering has failed at the first character
without room and written nothing behind it. The combinators keep this property;
a rendering that goes on after a failed write does not have it.
-/

namespace Amd64

/-- The text is cut at a character that has no room. -/
def CutsAt (room : Nat) (text taken : String) : Prop :=
  ∃ next rest, text = taken ++ (String.singleton next ++ rest) ∧ taken.utf8ByteSize ≤ room ∧
    room < taken.utf8ByteSize + next.utf8Size

namespace CutsAt

variable {room : Nat} {text taken : String}

/-- Nothing is cut inside a text that has room. What follows it is cut where
the rest of the room ends. -/
theorem append_left {written : String} (hFits : written.utf8ByteSize ≤ room)
    (h : CutsAt (room - written.utf8ByteSize) text taken) :
    CutsAt room (written ++ text) (written ++ taken) := by
  obtain ⟨next, rest, rfl, hTaken, hNext⟩ := h
  refine ⟨next, rest, String.append_assoc.symm, ?_, ?_⟩
  · rw [String.utf8ByteSize_append]
    omega
  · rw [String.utf8ByteSize_append]
    omega

/-- What follows a text that is cut has no part in it. The place of the cut is
decided by what stands before it. -/
theorem append_right (h : CutsAt room text taken) (more : String) :
    CutsAt room (text ++ more) taken := by
  obtain ⟨next, rest, rfl, hTaken, hNext⟩ := h
  exact ⟨next, rest ++ more, by simp only [String.append_assoc], hTaken, hNext⟩

end CutsAt

theorem ofList_cons (c : Char) (rest : List Char) :
    String.ofList (c :: rest) = String.singleton c ++ String.ofList rest := by
  rw [String.singleton_eq_ofList, ← String.ofList_append, List.singleton_append]

/-- A text with room is taken as a whole, and nothing is left. -/
theorem fitInto_of_le {room : Nat} {chars : List Char}
    (h : (String.ofList chars).utf8ByteSize ≤ room) : fitInto room chars = (chars, []) := by
  induction chars generalizing room with
  | nil => rfl
  | cons c rest ih =>
      rw [ofList_cons, String.utf8ByteSize_append, String.utf8ByteSize_singleton] at h
      have hChar : c.utf8Size ≤ room := by omega
      have hRest : (String.ofList rest).utf8ByteSize ≤ room - c.utf8Size := by omega
      simp only [fitInto, if_pos hChar, ih hRest]

/-- Any other text is cut, and something of it is left over. The induction is
on the characters, and the room is what the characters before have left. -/
theorem fitInto_of_lt {room : Nat} {chars : List Char}
    (h : room < (String.ofList chars).utf8ByteSize) :
    ∃ taken next rest, fitInto room chars = (taken, next :: rest) ∧
      CutsAt room (String.ofList chars) (String.ofList taken) := by
  induction chars generalizing room with
  | nil => simp at h
  | cons c rest ih =>
      rw [ofList_cons, String.utf8ByteSize_append, String.utf8ByteSize_singleton] at h
      by_cases hChar : c.utf8Size ≤ room
      · have hRest : room - c.utf8Size < (String.ofList rest).utf8ByteSize := by omega
        obtain ⟨taken, next, left, hTaken, hCut⟩ := ih hRest
        refine ⟨c :: taken, next, left, by simp only [fitInto, if_pos hChar, hTaken], ?_⟩
        rw [ofList_cons, ofList_cons]
        apply CutsAt.append_left
        · rwa [String.utf8ByteSize_singleton]
        · rwa [String.utf8ByteSize_singleton]
      · have hNone : fitInto room (c :: rest) = ([], c :: rest) := by
          simp only [fitInto, if_neg hChar]
        refine ⟨[], c, rest, hNone, c, String.ofList rest, ?_, ?_, ?_⟩
        · rw [ofList_cons]
          simp
        · simp
        · simp
          omega

namespace Sink

def HasRoom (sink : Sink) (text : String) : Prop :=
  ∀ room ∈ sink.room, text.utf8ByteSize ≤ room

/-- The sink after a text and events for which it had room. -/
def extend (sink : Sink) (shown : Rendered) : Sink :=
  ⟨sink.text ++ shown.text, sink.events ++ shown.events,
    sink.room.map fun room => room - shown.text.utf8ByteSize⟩

/-- Without a limit there is room for everything. -/
theorem hasRoom_of_unlimited {sink : Sink} (h : sink.room = none) (text : String) :
    sink.HasRoom text := by
  intro room hRoom
  rw [h] at hRoom
  cases hRoom

/-- A write for which there is room adds the whole text and succeeds, whether
there is a limit or not. -/
theorem write_of_hasRoom {sink : Sink} {text : String} (h : sink.HasRoom text) :
    sink.write text = (sink.extend ⟨text, [], .complete⟩, .complete) := by
  obtain ⟨before, events, room⟩ := sink
  cases room with
  | none => simp [write, extend]
  | some room =>
      have hRoom : (String.ofList text.toList).utf8ByteSize ≤ room := by
        rw [String.ofList_toList]
        exact h room rfl
      simp [write, extend, fitInto_of_le hRoom]

/-- Any other write fails behind the last character that has room. What had
room stays in the sink. -/
theorem write_of_lt {sink : Sink} {text : String} {room : Nat} (hRoom : sink.room = some room)
    (h : room < text.utf8ByteSize) :
    ∃ taken, CutsAt room text taken ∧ (sink.write text).1.text = sink.text ++ taken ∧
      (sink.write text).2 = .full := by
  rw [← String.ofList_toList (s := text)] at h
  obtain ⟨taken, next, rest, hTaken, hCut⟩ := fitInto_of_lt h
  rw [String.ofList_toList] at hCut
  refine ⟨String.ofList taken, hCut, ?_, ?_⟩
  · simp [write, hRoom, hTaken]
  · simp [write, hRoom, hTaken]

end Sink

namespace Rendered

/-- One rendering after another, whether the first comes to its end or not. -/
def append (first second : Rendered) : Rendered :=
  match first.ending with
  | .complete => ⟨first.text ++ second.text, first.events ++ second.events, second.ending⟩
  | .full | .fault _ => first

instance : Append Rendered := ⟨append⟩

variable {first : Rendered}

theorem append_of_complete (h : first.ending = .complete) (second : Rendered) :
    first ++ second =
      ⟨first.text ++ second.text, first.events ++ second.events, second.ending⟩ := by
  show append first second = _
  rw [append, h]

/-- What was stopped is not gone on with, whatever would have followed. -/
theorem append_of_ne (h : first.ending ≠ .complete) (second : Rendered) :
    first ++ second = first := by
  show append first second = _
  unfold append
  split
  · contradiction
  · rfl
  · rfl

end Rendered

namespace Rendering

/-- Into every sink the rendering writes this, as far as there is room. -/
structure Writes (rendering : Rendering) (shown : Rendered) : Prop where
  /-- Only a limit makes a sink full. -/
  notFull : shown.ending ≠ .full
  whole : ∀ sink : Sink, sink.HasRoom shown.text →
    rendering sink = (sink.extend shown, shown.ending)
  cut : ∀ (sink : Sink) (room : Nat), sink.room = some room → room < shown.text.utf8ByteSize →
    ∃ taken, CutsAt room shown.text taken ∧ (rendering sink).1.text = sink.text ++ taken ∧
      (rendering sink).2 = .full

/-- The rendering passes every failure of the sink on: what it writes without a
limit it writes into every sink, as far as there is room. -/
class Propagates (rendering : Rendering) : Prop where
  writes : rendering.Writes rendering.run

variable {first second : Rendering} {shown : Rendered}

/-- Without a limit all is received, so that there is only one thing a
rendering can be said to write. -/
theorem Writes.run_eq (h : first.Writes shown) : first.run = shown := by
  rw [run, runFrom, h.whole _ (Sink.hasRoom_of_unlimited rfl _), Sink.extend]
  simp

/-- It is enough to say what a rendering writes into every sink, in whatever
way. -/
theorem Writes.propagates (h : first.Writes shown) : first.Propagates :=
  ⟨by rwa [h.run_eq]⟩

theorem writes_done : done.Writes ⟨"", [], .complete⟩ where
  notFull := by simp
  whole sink _ := by simp [done, Sink.extend]
  cut sink room _ h := by simp at h

/-- A fault is no text. It is met in a full sink as in any other. -/
theorem writes_stop (cause : Fault) : (stop cause).Writes ⟨"", [], .fault cause⟩ where
  notFull := by simp
  whole sink _ := by simp [stop, Sink.extend]
  cut sink room _ h := by simp at h

/-- Events are no text either, and there is always room for them. -/
theorem writes_note (events : List Event) : (note events).Writes ⟨"", events, .complete⟩ where
  notFull := by simp
  whole sink _ := by simp [note, Sink.extend]
  cut sink room _ h := by simp at h

/-- One write succeeds as a whole or is cut. The sink itself sees to that. -/
theorem writes_ofText (text : String) : (ofText text).Writes ⟨text, [], .complete⟩ where
  notFull := by simp
  whole _ h := Sink.write_of_hasRoom h
  cut _ _ hRoom h := Sink.write_of_lt hRoom h

/-- A part that came to its end hands the sink to the next one. -/
theorem append_apply_of_complete {sink : Sink} (h : (first sink).2 = .complete)
    (second : Rendering) : (first ++ second) sink = second (first sink).1 := by
  rw [append_apply, ← Prod.eta (first sink), h]

/-- After a failure the second part is not tried, and the sink stays as it was
left. -/
theorem append_apply_of_ne {sink : Sink} (h : (first sink).2 ≠ .complete) (second : Rendering) :
    (first ++ second) sink = first sink := by
  rw [append_apply]
  rcases hFirst : first sink with ⟨after, _ | _ | cause⟩
  · rw [hFirst] at h
    contradiction
  · rfl
  · rfl

namespace Writes

variable {left right : Rendered}

theorem append_of_complete (hFirst : first.Writes left) (hSecond : second.Writes right)
    (hEnding : left.ending = .complete) : (first ++ second).Writes (left ++ right) := by
  rw [Rendered.append_of_complete hEnding]
  refine ⟨hSecond.notFull, ?whole, ?cut⟩
  case whole =>
    intro sink hRoom
    simp only [Sink.HasRoom, String.utf8ByteSize_append] at hRoom
    have hLeft : sink.HasRoom left.text := fun room hSome => by
      have hBoth := hRoom room hSome
      omega
    have hRight : (sink.extend left).HasRoom right.text := by
      intro room hSome
      obtain ⟨before, hBefore, rfl⟩ := Option.map_eq_some_iff.mp hSome
      have hBoth := hRoom before hBefore
      omega
    have hBegin := hFirst.whole sink hLeft
    rw [append_apply_of_complete (by rw [hBegin, hEnding]), hBegin, hSecond.whole _ hRight]
    simp [Sink.extend, String.append_assoc, Nat.sub_sub, Function.comp_def]
  case cut =>
    intro sink room hSome hShort
    rw [String.utf8ByteSize_append] at hShort
    -- The cut is in the first text, or the first text has room and the cut is in the second.
    by_cases hLeft : room < left.text.utf8ByteSize
    · obtain ⟨taken, hCut, hText, hFull⟩ := hFirst.cut sink room hSome hLeft
      rw [append_apply_of_ne (by rw [hFull]; simp)]
      exact ⟨taken, hCut.append_right _, hText, hFull⟩
    · have hFits : left.text.utf8ByteSize ≤ room := Nat.le_of_not_lt hLeft
      have hBegin := hFirst.whole sink fun other hOther => by
        cases hSome.symm.trans hOther
        exact hFits
      have hRest : (sink.extend left).room = some (room - left.text.utf8ByteSize) := by
        simp [Sink.extend, hSome]
      obtain ⟨taken, hCut, hText, hFull⟩ := hSecond.cut (sink.extend left) _ hRest (by omega)
      rw [append_apply_of_complete (by rw [hBegin, hEnding]), hBegin]
      refine ⟨left.text ++ taken, hCut.append_left hFits, ?_, hFull⟩
      rw [hText, Sink.extend, String.append_assoc]

/-- A fault of the first part keeps the second from being written, with a limit
and without. -/
theorem append_of_ne (hFirst : first.Writes left) (hEnding : left.ending ≠ .complete) :
    (first ++ second).Writes (left ++ right) := by
  rw [Rendered.append_of_ne hEnding]
  refine ⟨hFirst.notFull, ?whole, ?cut⟩
  case whole =>
    intro sink hRoom
    have hBegin := hFirst.whole sink hRoom
    rw [append_apply_of_ne (by rwa [hBegin]), hBegin]
  case cut =>
    intro sink room hSome hShort
    obtain ⟨taken, hCut, hText, hFull⟩ := hFirst.cut sink room hSome hShort
    rw [append_apply_of_ne (by rw [hFull]; simp)]
    exact ⟨taken, hCut, hText, hFull⟩

theorem append (hFirst : first.Writes left) (hSecond : second.Writes right) :
    (first ++ second).Writes (left ++ right) := by
  by_cases hEnding : left.ending = .complete
  · exact hFirst.append_of_complete hSecond hEnding
  · exact hFirst.append_of_ne hEnding

end Writes

@[simp] theorem run_done : done.run = ⟨"", [], .complete⟩ :=
  writes_done.run_eq

@[simp] theorem run_stop (cause : Fault) : (stop cause).run = ⟨"", [], .fault cause⟩ :=
  (writes_stop cause).run_eq

@[simp] theorem run_note (events : List Event) : (note events).run = ⟨"", events, .complete⟩ :=
  (writes_note events).run_eq

@[simp] theorem run_ofText (text : String) : (ofText text).run = ⟨text, [], .complete⟩ :=
  (writes_ofText text).run_eq

namespace Propagates

instance done : Rendering.done.Propagates :=
  writes_done.propagates

instance stop (cause : Fault) : (Rendering.stop cause).Propagates :=
  (writes_stop cause).propagates

instance note (events : List Event) : (Rendering.note events).Propagates :=
  (writes_note events).propagates

instance ofText (text : String) : (Rendering.ofText text).Propagates :=
  (writes_ofText text).propagates

theorem append (hFirst : first.Propagates) (hSecond : second.Propagates) :
    (first ++ second).Propagates :=
  (hFirst.writes.append hSecond.writes).propagates

theorem ite {condition : Prop} [Decidable condition] (hThen : first.Propagates)
    (hElse : second.Propagates) : (if condition then first else second).Propagates := by
  split
  · exact hThen
  · exact hElse

theorem withValue {α : Type} {value : Except Fault α} {next : α → Rendering}
    (h : ∀ found, (next found).Propagates) : (Rendering.withValue value next).Propagates := by
  cases value with
  | ok found => exact h found
  | error fault => exact stop fault

theorem withOption {α : Type} {value : Option α} {next : α → Rendering}
    (h : ∀ found, (next found).Propagates) : (Rendering.withOption value next).Propagates := by
  cases value with
  | some found => exact h found
  | none => exact done

end Propagates

section Instances

variable {α : Type} {next : α → Rendering}

instance [hFirst : first.Propagates] [hSecond : second.Propagates] :
    (first ++ second).Propagates := hFirst.append hSecond

instance {condition : Prop} [Decidable condition] [hThen : first.Propagates]
    [hElse : second.Propagates] : (if condition then first else second).Propagates :=
  hThen.ite hElse

instance (value : Except Fault α) [h : ∀ found, (next found).Propagates] :
    (withValue value next).Propagates := .withValue h

instance (value : Option α) [h : ∀ found, (next found).Propagates] :
    (withOption value next).Propagates := .withOption h

end Instances

/-- Two renderings that pass failures on leave behind what each of them does.
Without that this is not true: the second may look at what the first has
written. -/
theorem run_append (first second : Rendering) [hFirst : first.Propagates]
    [hSecond : second.Propagates] : (first ++ second).run = first.run ++ second.run :=
  (hFirst.writes.append hSecond.writes).run_eq

/-- Without a limit one write is as good as two, so that it does not matter how
a text is divided. -/
theorem run_ofText_append (first second : String) :
    (ofText (first ++ second)).run = (ofText first ++ ofText second).run := by
  rw [run_append, run_ofText, run_ofText, run_ofText, Rendered.append_of_complete rfl,
    List.append_nil]

end Rendering

end Amd64
