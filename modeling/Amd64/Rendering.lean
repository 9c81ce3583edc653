import Amd64.Event
import Amd64.Function

/-!
Text under construction. A rendering writes into a sink that may have a limit,
so that every write can fail. A failed write leaves the sink as it is after the
last character that had room, and a shorter character can still have room
behind it: it is up to the rendering not to go on. `Rendering.run` writes into
a sink without a limit, `Rendering.runWithin` into one with a limit.
-/

namespace Amd64

/-- Where text goes, with the events that happen on the way. -/
structure Sink where
  text : String
  events : List Event
  /-- The number of bytes that still have room. Without a limit all have. -/
  room : Option Nat

inductive Ending where
  | complete
  /-- The sink had no room for the next character. -/
  | full
  | fault (cause : Fault)
  deriving DecidableEq

/-- The characters before the first one whose bytes do not fit into the given
room, and the characters from that one on. -/
def fitInto (room : Nat) : List Char → List Char × List Char
  | [] => ([], [])
  | c :: rest =>
      if c.utf8Size ≤ room then
        let (taken, left) := fitInto (room - c.utf8Size) rest
        (c :: taken, left)
      else ([], c :: rest)

/-- Adds a text, or the characters at its beginning that have room. -/
def Sink.write (sink : Sink) (text : String) : Sink × Ending :=
  match sink.room with
  | none => ({ sink with text := sink.text ++ text }, .complete)
  | some room =>
      let (taken, left) := fitInto room text.toList
      let shown := String.ofList taken
      ({ sink with text := sink.text ++ shown, room := some (room - shown.utf8ByteSize) },
        if left.isEmpty then .complete else .full)

/-- Any way to write into a sink, also one that does not care whether its
writes fail. -/
def Rendering : Type :=
  Sink → Sink × Ending

namespace Rendering

def done : Rendering :=
  fun sink => (sink, .complete)

def ofText (text : String) : Rendering :=
  fun sink => sink.write text

/-- Events take no room. -/
def note (events : List Event) : Rendering :=
  fun sink => ({ sink with events := sink.events ++ events }, .complete)

def stop (fault : Fault) : Rendering :=
  fun sink => (sink, .fault fault)

/-- One rendering after another, if the first one comes to its end. -/
def append (first second : Rendering) : Rendering := fun sink =>
  match first sink with
  | (after, .complete) => second after
  | (after, .full) => (after, .full)
  | (after, .fault cause) => (after, .fault cause)

instance : Append Rendering := ⟨append⟩

/-- Goes on with a value, or stops where looking for it failed. -/
def withValue {α : Type} (value : Except Fault α) (next : α → Rendering) : Rendering :=
  match value with
  | .ok found => next found
  | .error fault => stop fault

/-- Goes on with a value, or leaves out what is not there. -/
def withOption {α : Type} (value : Option α) (next : α → Rendering) : Rendering :=
  match value with
  | some found => next found
  | none => done

@[simp] theorem withOption_some {α : Type} (found : α) (next : α → Rendering) :
    withOption (some found) next = next found := rfl

@[simp] theorem withOption_none {α : Type} (next : α → Rendering) :
    withOption none next = done := rfl

/-- Only what is there is gone on with, so that two continuations need to agree
on nothing else. -/
theorem withOption_congr {α : Type} {value : Option α} {first second : α → Rendering}
    (h : ∀ found ∈ value, first found = second found) :
    withOption value first = withOption value second := by
  cases value with
  | some found => exact h found rfl
  | none => rfl

end Rendering

/-- What a sink that was empty has received. -/
structure Rendered where
  text : String
  events : List Event
  ending : Ending

namespace Rendering

def runFrom (room : Option Nat) (rendering : Rendering) : Rendered :=
  let received := rendering ⟨"", [], room⟩
  ⟨received.1.text, received.1.events, received.2⟩

/-- Writes everything up to the end or the first fault. -/
def run (rendering : Rendering) : Rendered :=
  rendering.runFrom none

/-- Writes into a sink that has room for a number of bytes. -/
def runWithin (room : Nat) (rendering : Rendering) : Rendered :=
  rendering.runFrom (some room)

@[simp] theorem done_append (next : Rendering) : done ++ next = next := rfl

@[simp] theorem stop_append (fault : Fault) (next : Rendering) :
    stop fault ++ next = stop fault := rfl

/-- What one rendering after another does to a sink, written out. Both the full
sink and the fault keep the second one from being tried. -/
theorem append_apply (first second : Rendering) (sink : Sink) :
    (first ++ second) sink =
      match first sink with
      | (after, .complete) => second after
      | (after, .full) => (after, .full)
      | (after, .fault cause) => (after, .fault cause) := rfl

@[simp] theorem append_done (rendering : Rendering) : rendering ++ done = rendering := by
  funext sink
  rw [append_apply]
  rcases rendering sink with ⟨after, _ | _ | cause⟩ <;> rfl

/-- Where the parentheses stand does not matter, for any renderings at all: the
first failure among three ends the sequence either way. -/
theorem append_assoc (first second third : Rendering) :
    first ++ second ++ third = first ++ (second ++ third) := by
  funext sink
  rw [append_apply, append_apply, append_apply]
  rcases first sink with ⟨after, _ | _ | cause⟩ <;> rfl

end Rendering

end Amd64
