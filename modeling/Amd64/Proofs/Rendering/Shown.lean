import Amd64.Proofs.Rendering.Sink
import Mathlib.Data.List.Forall2

/-!
What a rendering that nothing limits leaves behind. Either it shows a text to
its end, or a fault stops it; for a sequence both are read off its parts, in
the order in which they are written.
-/

namespace Amd64.Rendering

/-- The rendering writes this text and comes to its end. -/
def Shows (rendering : Rendering) (text : String) : Prop :=
  rendering.run.text = text ∧ rendering.run.ending = .complete

/-- A fault cuts the rendering short. -/
def Stops (rendering : Rendering) (cause : Fault) : Prop :=
  rendering.run.ending = .fault cause

instance (rendering : Rendering) (text : String) : Decidable (rendering.Shows text) :=
  inferInstanceAs (Decidable (_ ∧ _))

instance (rendering : Rendering) (cause : Fault) : Decidable (rendering.Stops cause) :=
  inferInstanceAs (Decidable (_ = _))

theorem Shows.unique {rendering : Rendering} {first second : String}
    (hFirst : rendering.Shows first) (hSecond : rendering.Shows second) : first = second :=
  hFirst.1.symm.trans hSecond.1

@[simp] theorem shows_done_iff (text : String) : done.Shows text ↔ text = "" := by
  simp [Shows, eq_comm]

@[simp] theorem not_shows_stop (cause : Fault) (text : String) : ¬ (stop cause).Shows text := by
  simp [Shows]

@[simp] theorem shows_ofText_iff (written text : String) :
    (ofText written).Shows text ↔ text = written := by
  simp [Shows, eq_comm]

/-- A sequence shows the two texts of its parts, one after the other. Both have
to come to their ends. -/
theorem shows_append_iff (first second : Rendering) [first.Propagates] [second.Propagates]
    (text : String) :
    (first ++ second).Shows text ↔
      ∃ left right, first.Shows left ∧ second.Shows right ∧ text = left ++ right := by
  unfold Shows
  rw [run_append]
  by_cases hEnding : first.run.ending = .complete
  · rw [Rendered.append_of_complete hEnding]
    constructor
    · rintro ⟨rfl, hSecond⟩
      exact ⟨_, _, ⟨rfl, hEnding⟩, ⟨rfl, hSecond⟩, rfl⟩
    · rintro ⟨_, _, ⟨rfl, -⟩, ⟨rfl, hSecond⟩, rfl⟩
      exact ⟨rfl, hSecond⟩
  · rw [Rendered.append_of_ne hEnding]
    constructor
    · rintro ⟨-, hFirst⟩
      contradiction
    · rintro ⟨_, _, ⟨-, hFirst⟩, -, -⟩
      contradiction

/-- A fault in place of a value leaves nothing to show. With a value the
rendering is what goes on with it. -/
theorem shows_withValue_iff {α : Type} (value : Except Fault α) (next : α → Rendering)
    (text : String) :
    (withValue value next).Shows text ↔ ∃ found, value = .ok found ∧ (next found).Shows text := by
  cases value <;> simp [withValue]

/-- The second part of a sequence is reached only if the first one comes to its
end. A fault of the first is the fault of both. -/
theorem stops_append_iff (first second : Rendering) [first.Propagates] [second.Propagates]
    (cause : Fault) :
    (first ++ second).Stops cause ↔
      first.Stops cause ∨ (∃ text, first.Shows text) ∧ second.Stops cause := by
  unfold Stops Shows
  rw [run_append]
  by_cases hEnding : first.run.ending = .complete
  · rw [Rendered.append_of_complete hEnding]
    simp [hEnding]
  · rw [Rendered.append_of_ne hEnding]
    simp [hEnding]

/-- A rendering that nothing limits comes to its end or to a fault. There is no
other end, as a sink without a limit is never full. -/
theorem shows_or_stops (rendering : Rendering) [h : rendering.Propagates] :
    (∃ text, rendering.Shows text) ∨ ∃ cause, rendering.Stops cause := by
  cases hEnding : rendering.run.ending with
  | complete => exact Or.inl ⟨_, rfl, hEnding⟩
  | full => exact absurd hEnding h.writes.notFull
  | fault cause => exact Or.inr ⟨cause, hEnding⟩

/-- What is stopped by a fault shows no text, although something may have been
written before. -/
theorem Stops.not_shows {rendering : Rendering} {cause : Fault} (h : rendering.Stops cause)
    (text : String) : ¬ rendering.Shows text := by
  intro hText
  cases hText.2.symm.trans h

theorem Shows.not_stops {rendering : Rendering} {text : String} (h : rendering.Shows text)
    (cause : Fault) : ¬ rendering.Stops cause :=
  fun hCause => hCause.not_shows text h

theorem Stops.unique {rendering : Rendering} {first second : Fault}
    (hFirst : rendering.Stops first) (hSecond : rendering.Stops second) : first = second :=
  Ending.fault.inj (hFirst.symm.trans hSecond)

theorem not_stops_ofText (text : String) (cause : Fault) : ¬ (ofText text).Stops cause :=
  Shows.not_stops ((shows_ofText_iff text text).mpr rfl) cause

/-- Renderings with a comma between any two of them. -/
def separated : List Rendering → Rendering
  | [] => done
  | [last] => last
  | first :: rest => first ++ ofText ", " ++ separated rest

/-- Between two members there is a comma, and none before the first or after
the last. -/
theorem separated_cons_cons (first second : Rendering) (rest : List Rendering) :
    separated (first :: second :: rest) =
      first ++ ofText ", " ++ separated (second :: rest) := rfl

/-- Commas are texts like others, so that members which pass failures on do so
in a sequence. -/
theorem Propagates.separated {members : List Rendering}
    (h : ∀ member ∈ members, member.Propagates) : (separated members).Propagates := by
  induction members with
  | nil => exact .done
  | cons first rest ih =>
      obtain ⟨hFirst, hRest⟩ := List.forall_mem_cons.mp h
      cases rest with
      | nil => exact hFirst
      | cons second rest => exact (hFirst.append (.ofText ", ")).append (ih hRest)

/-- A sequence with commas shows the texts of all its members. If one of them
shows none, the sequence shows none. -/
theorem shows_separated_iff {members : List Rendering}
    (h : ∀ member ∈ members, member.Propagates) (text : String) :
    (separated members).Shows text ↔
      ∃ shown, List.Forall₂ Shows members shown ∧ text = ", ".intercalate shown := by
  induction members generalizing text with
  | nil => simp [separated]
  | cons first rest ih =>
      cases rest with
      | nil => simp [separated, List.forall₂_cons_left_iff]
      | cons second rest =>
          obtain ⟨hFirst, hRest⟩ := List.forall_mem_cons.mp h
          have hTail := Propagates.separated hRest
          simp only [separated_cons_cons, shows_append_iff, shows_ofText_iff, ih hRest]
          constructor
          · rintro ⟨_, _, ⟨left, _, hLeft, rfl, rfl⟩, ⟨_, hShown, rfl⟩, rfl⟩
            cases hShown with
            | cons hSecond hRest =>
                exact ⟨_, .cons hLeft (.cons hSecond hRest), String.intercalate_cons_cons.symm⟩
          · rintro ⟨_, hAll, rfl⟩
            cases hAll with
            | cons hLeft hShown =>
                cases hShown with
                | cons hSecond hRest =>
                    exact ⟨_, _, ⟨_, ", ", hLeft, rfl, rfl⟩, ⟨_, .cons hSecond hRest, rfl⟩,
                      String.intercalate_cons_cons⟩

theorem exists_shows_of_mem {members : List Rendering} {shown : List String} {member : Rendering}
    (hShown : List.Forall₂ Shows members shown) (hMember : member ∈ members) :
    ∃ text, member.Shows text := by
  induction hShown with
  | nil => cases hMember
  | cons hText _ ih =>
      rcases List.mem_cons.mp hMember with rfl | hMember
      · exact ⟨_, hText⟩
      · exact ih hMember

/-- What is known of every text that a member can show is known of the texts
that are shown. -/
theorem forall₂_of_shows {α : Type} {relation : String → α → Prop} {members : List Rendering}
    {shown : List String} {others : List α} (hShown : List.Forall₂ Shows members shown)
    (h : List.Forall₂ (fun (member : Rendering) other => ∀ text, member.Shows text →
      relation text other) members others) : List.Forall₂ relation shown others := by
  induction hShown generalizing others with
  | nil =>
      cases h
      exact .nil
  | cons hText _ ih =>
      cases h with
      | cons hRelated hRest => exact .cons (hRelated _ hText) (ih hRest)

/-- A fault that cuts a sequence short is that of one of its members, since
commas have no faults. -/
theorem exists_stops_of_separated {members : List Rendering}
    (hMembers : ∀ member ∈ members, member.Propagates) {cause : Fault}
    (h : (separated members).Stops cause) : ∃ member ∈ members, member.Stops cause := by
  induction members with
  | nil => cases h
  | cons first rest ih =>
      cases rest with
      | nil => exact ⟨first, .head _, h⟩
      | cons second rest =>
          obtain ⟨hFirst, hRest⟩ := List.forall_mem_cons.mp hMembers
          have hTail := Propagates.separated hRest
          rw [separated_cons_cons, stops_append_iff, stops_append_iff] at h
          rcases h with (hHere | ⟨-, hComma⟩) | ⟨-, hLater⟩
          · exact ⟨first, .head _, hHere⟩
          · exact absurd hComma (not_stops_ofText _ _)
          · obtain ⟨member, hMember, hStops⟩ := ih hRest hLater
            exact ⟨member, .tail _ hMember, hStops⟩

end Amd64.Rendering
