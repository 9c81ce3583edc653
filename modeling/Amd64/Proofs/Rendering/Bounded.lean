import Amd64.Proofs.Rendering.Propagation
import Amd64.Proofs.Rendering.Shown

/-!
Texts under a limit. Where the whole text has room the limit changes nothing,
and where it has none as many whole characters are kept as there can be, and no
fault that would come after them is reached. This holds of every text because
every renderer passes failures on: `texts_boundedBy`.
-/

namespace Amd64

/-- The longest beginning of a text, in whole characters, that takes no more
bytes than there is room for. -/
structure LongestFitting (room : Nat) (text taken : String) : Prop where
  beginning : ∃ rest, text = taken ++ rest
  fits : taken.utf8ByteSize ≤ room
  longest : ∀ other rest, text = other ++ rest → other.utf8ByteSize ≤ room →
    other.length ≤ taken.length

namespace CutsAt

variable {room : Nat} {text taken : String}

/-- A longer beginning would contain the character that has no room. Without
this character nothing can be longer. -/
theorem longestFitting (h : CutsAt room text taken) : LongestFitting room text taken := by
  obtain ⟨next, rest, rfl, hTaken, hNext⟩ := h
  refine ⟨⟨_, rfl⟩, hTaken, ?_⟩
  intro other tail hOther hFits
  have hChars := congrArg String.toList hOther
  simp only [String.toList_append, String.toList_singleton, List.singleton_append] at hChars
  rw [← String.length_toList, ← String.length_toList]
  -- Either the other beginning reaches beyond the cut, or it ends before it.
  rcases List.append_eq_append_iff.mp hChars with ⟨extra, hExtra, hRest⟩ | ⟨missing, hMissing, -⟩
  · cases extra with
    | nil => simp [hExtra]
    | cons c more =>
        obtain ⟨rfl, -⟩ := List.cons.inj hRest
        have hWhole : other = taken ++ (String.singleton next ++ String.ofList more) := by
          apply String.toList_inj.mp
          simpa using hExtra
        rw [hWhole] at hFits
        simp only [String.utf8ByteSize_append, String.utf8ByteSize_singleton] at hFits
        omega
  · simp [hMissing]

end CutsAt

namespace Rendering

/-- What a sink with this much room receives of a rendering, beside what is
written where nothing limits it. -/
structure BoundedBy (rendering : Rendering) (room : Nat) : Prop where
  /-- Without a limit the rendering shows a text or is stopped by a fault. -/
  unlimited : (∃ text, rendering.Shows text) ∨ ∃ cause, rendering.Stops cause
  /-- Where the whole text has room, the text is the same, and so are the
  events and the end or the fault. -/
  whole : rendering.run.text.utf8ByteSize ≤ room → rendering.runWithin room = rendering.run
  /-- Where it has none, the sink is full, whatever would have followed. -/
  cut : room < rendering.run.text.utf8ByteSize →
    (rendering.runWithin room).ending = .full ∧
      LongestFitting room rendering.run.text (rendering.runWithin room).text

/-- A rendering that passes failures on is cut where the room ends. The sink is
empty at first, so that the room is for the text alone. -/
theorem Propagates.boundedBy {rendering : Rendering} (h : rendering.Propagates) (room : Nat) :
    rendering.BoundedBy room where
  unlimited := shows_or_stops rendering
  whole hRoom := by
    have hSink : Sink.HasRoom ⟨"", [], some room⟩ rendering.run.text := fun _ hSome => by
      cases hSome
      exact hRoom
    rw [runWithin, runFrom, h.writes.whole _ hSink, Sink.extend]
    simp
  cut hShort := by
    obtain ⟨taken, hCut, hText, hFull⟩ := h.writes.cut ⟨"", [], some room⟩ room rfl hShort
    refine ⟨hFull, ?_⟩
    rw [runWithin, runFrom, hText, String.empty_append]
    exact hCut.longestFitting

/-- Not every rendering passes failures on. Here the last letter is written
although the one before it had no room, and nobody learns of the hole between
them. -/
example : ¬ BoundedBy (fun sink => ofText "b" (ofText "aé" sink).1) 2 := by
  intro h
  have hFull := (h.cut (by decide)).1
  exact absurd hFull (by decide)

end Rendering

/-- Every text of an operand, an instruction or a variable is cut by a limit at
the last character that has room, and a limit that leaves room for all of it is
not noticed. -/
theorem texts_boundedBy (f : Function) (room : Nat) :
    (∀ instruction : Instruction,
      (instruction.dump f).BoundedBy room ∧ (instruction.listing f).BoundedBy room) ∧
    (∀ operand : Operand,
      (operand.dump f).BoundedBy room ∧ (operand.listing f).BoundedBy room) ∧
    (∀ operand : MemoryOperand,
      (operand.dump f).BoundedBy room ∧ (operand.listing f).BoundedBy room) ∧
    (∀ part : SlotHalf, (part.dump f).BoundedBy room ∧ (part.listing f).BoundedBy room) ∧
    (∀ constant : Constant, constant.dump.BoundedBy room ∧ constant.listing.BoundedBy room ∧
      constant.bare.BoundedBy room) ∧
    (∀ target : Relocatable, target.dump.BoundedBy room ∧ target.text.BoundedBy room) ∧
    (∀ var : Variable, var.dump.BoundedBy room) ∧
    ∀ id, (f.dumpVariable id).BoundedBy room ∧ (f.listVariable id).BoundedBy room :=
  ⟨
    fun instruction => ⟨(instruction.propagates_dump f).boundedBy room,
      (instruction.propagates_listing f).boundedBy room⟩,
    fun operand => ⟨(operand.propagates_dump f).boundedBy room,
      (operand.propagates_listing f).boundedBy room⟩,
    fun operand => ⟨(operand.propagates_dump f).boundedBy room,
      (operand.propagates_listing f).boundedBy room⟩,
    fun part => ⟨(part.propagates_dump f).boundedBy room,
      (part.propagates_listing f).boundedBy room⟩,
    fun constant => ⟨constant.propagates_dump.boundedBy room,
      constant.propagates_listing.boundedBy room, constant.propagates_bare.boundedBy room⟩,
    fun target => ⟨target.propagates_dump.boundedBy room, target.propagates_text.boundedBy room⟩,
    fun var => var.propagates_dump.boundedBy room,
    fun id => ⟨(f.propagates_dumpVariable id).boundedBy room,
      (f.propagates_listVariable id).boundedBy room⟩⟩

example : ((Constant.relocatable ⟨"né", 4⟩).dump.runWithin 3).text = "@n" := by decide

end Amd64
