import Amd64.Proofs.Assembler.Emission
import Amd64.Proofs.Operand.Translation

/-!
Fragments of code. `Assembler.append` puts a fragment behind other code, where
the positions of its fixups are shifted and their numbers count from the fixups
that are there. A computation that follows another one does behind some code
what the other does to a fragment on its own: `Assembly.Follows`.
-/

namespace Amd64

/-- The fixup after its code was moved. -/
def Fixup.shift (distance : Nat) (fixup : Fixup) : Fixup :=
  { fixup with position := fixup.position.map (distance + ·) }

/-- A fragment of code behind other code. The fragment has no labels of its
own. -/
def Assembler.append (a fragment : Assembler) : Assembler :=
  ⟨a.bytes ++ fragment.bytes, a.fixups ++ fragment.fixups.map (.shift a.position), a.labels⟩

/-- The number of a fixup of a fragment, once the fragment is behind some
code. -/
def FixupRef.behind (a : Assembler) (ref : FixupRef) : FixupRef :=
  ⟨UInt32.ofNat a.fixups.length + ref.number⟩

def Address.behind (a : Assembler) (address : Address) : Address :=
  { address with fixup := address.fixup.map (.behind a) }

/-- How a computation ends behind some code, if it ends like this on its own.
Its value is moved with the fragment. -/
def Outcome.behind {α : Type} (a : Assembler) (move : α → α) : Outcome α → Outcome α
  | done value fragment => .done (move value) (a.append fragment)
  | refused reason fragment => .refused reason (a.append fragment)
  | fault cause => .fault cause

namespace Assembler

variable (a fragment : Assembler)

/-- An empty fragment behind some code is that code. This is what lets a
statement about fragments speak of whole runs. -/
@[simp] theorem append_empty : a.append .empty = a := by
  simp [append, empty]

@[simp] theorem position_append :
    (a.append fragment).position = a.position + fragment.position := by
  simp [append, position]

/-- Bytes that are written behind both stand at the end of the fragment. -/
theorem append_emit (bytes : List UInt8) :
    (a.append fragment).emit bytes = a.append (fragment.emit bytes) := by
  simp [append, emit]

/-- The next fixup of a fragment is numbered behind the fixups of the code,
modulo the range of numbers. -/
theorem nextFixup_append : (a.append fragment).nextFixup = fragment.nextFixup.behind a := by
  simp [append, nextFixup, FixupRef.behind, UInt32.ofNat_add]

/-- Fixups without a position are the same everywhere, so requesting them
commutes with moving the fragment. -/
theorem append_withFixups {fixups : List Fixup} (h : ∀ fixup ∈ fixups, fixup.position = none) :
    (a.append fragment).withFixups fixups = a.append (fragment.withFixups fixups) := by
  have hShift : fixups.map (.shift a.position) = fixups.map id := by
    refine List.map_congr_left fun fixup hFixup => ?_
    obtain ⟨kind, symbol, position⟩ := fixup
    obtain rfl := h _ hFixup
    rfl
  simp [append, withFixups, hShift]

end Assembler

namespace Assembly

variable {α β : Type} {a : Assembler}

/-- The second computation does behind the code what the first one does to a
fragment on its own, with a value that was moved. -/
def Follows (a : Assembler) (move : α → α) (first second : Assembly α) : Prop :=
  ∀ fragment, second (a.append fragment) = (first fragment).behind a move

namespace Follows

/-- Behind some code a result is its moved counterpart. The lemmas that follow
say the same of each way to build a computation. -/
theorem pure {move : α → α} (value : α) :
    Follows a move (Pure.pure value) (Pure.pure (move value)) :=
  fun _ => rfl

theorem refuse {move : α → α} (reason : Refusal) :
    Follows a move (Assembly.refuse reason) (Assembly.refuse reason) :=
  fun _ => rfl

theorem ofFaulty (move : α → α) (result : Except Fault α) :
    Follows a move (Assembly.ofFaulty result) (Assembly.ofFaulty (result.map move)) := by
  intro fragment
  cases result <;> rfl

/-- A value that moving leaves alone is its own counterpart. Registers, places
without a fixup and plain numbers are of this kind. -/
theorem ofFaulty_of_map_eq {move : α → α} {result : Except Fault α}
    (hSame : result.map move = result) :
    Follows a move (Assembly.ofFaulty result) (Assembly.ofFaulty result) := by
  have hFollows := ofFaulty (a := a) move result
  rwa [hSame] at hFollows

theorem ofRefusable (move : α → α) (result : Except Refusal α) :
    Follows a move (Assembly.ofRefusable result) (Assembly.ofRefusable (result.map move)) := by
  intro fragment
  cases result <;> rfl

/-- Sequences follow each other part by part. The second parts are compared
only at values that correspond to each other. -/
theorem bind {move : α → α} {moveNext : β → β} {first second : Assembly α}
    {next nextSecond : α → Assembly β} (hFirst : Follows a move first second)
    (hNext : ∀ value, Follows a moveNext (next value) (nextSecond (move value))) :
    Follows a moveNext (first >>= next) (second >>= nextSecond) := by
  intro fragment
  rw [bind_apply, bind_apply, hFirst fragment]
  cases first fragment with
  | done value between => exact hNext value between
  | refused reason between => rfl
  | fault cause => rfl

/-- What is looked up without the code is the same behind any code, so both
sequences go on with the very same value. -/
theorem bind_ofFaulty {moveNext : β → β} (result : Except Fault α)
    {next nextSecond : α → Assembly β}
    (hNext : ∀ value, Follows a moveNext (next value) (nextSecond value)) :
    Follows a moveNext (Assembly.ofFaulty result >>= next)
      (Assembly.ofFaulty result >>= nextSecond) := by
  intro fragment
  cases result with
  | ok value => exact hNext value fragment
  | error cause => rfl

theorem bind_ofRefusable {moveNext : β → β} (result : Except Refusal α)
    {next nextSecond : α → Assembly β}
    (hNext : ∀ value, Follows a moveNext (next value) (nextSecond value)) :
    Follows a moveNext (Assembly.ofRefusable result >>= next)
      (Assembly.ofRefusable result >>= nextSecond) := by
  intro fragment
  cases result with
  | ok value => exact hNext value fragment
  | error reason => rfl

end Follows

end Assembly

variable {a : Assembler}

/-- Whether an address is possible does not depend on how its fixup is
numbered, and neither does anything else in it. -/
theorem Address.make_behind (base : Option RegisterNumber) (index : Option ScaledIndex)
    (displacement : Int32) (fixup : Option FixupRef) :
    make base index displacement (fixup.map (.behind a)) =
      (make base index displacement fixup).map (.behind a) := by
  cases index with
  | none => rfl
  | some scaled =>
      by_cases hRsp : scaled.register = .rsp
      · simp only [make, hRsp, if_true]
        rfl
      · simp only [make, hRsp, if_false]
        rfl

/-- What a fixup is called makes no difference to the bytes of its address.
Only that there is one matters, to the width of the displacement. -/
theorem Address.encode_behind (address : Address) (reg : Nat) :
    (address.behind a).encode reg =
      { address.encode reg with fixup := address.fixup.map (.behind a) } := by
  obtain ⟨base, index, displacement, fixup⟩ := address
  cases base with
  | none => cases index <;> rfl
  | some base =>
      cases index with
      | none =>
          simp only [behind, encode, Option.isSome_map]
          split <;> rfl
      | some scaled => simp only [behind, encode, Option.isSome_map]

namespace Assembler

variable {fragment after : Assembler}

/-- A fixup of a fragment is found behind the code under its moved number. The
bound keeps numbers from coming round again. -/
theorem getElem?_fixups_append {ref : FixupRef} {found : Fixup}
    (hFound : fragment.fixups[ref.number.toNat]? = some found)
    (hRoom : a.fixups.length + fragment.fixups.length ≤ 4294967296) :
    (ref.behind a).number.toNat = a.fixups.length + ref.number.toNat ∧
      (a.append fragment).fixups[(ref.behind a).number.toNat]? =
        some (found.shift a.position) := by
  have hBound := (List.getElem?_eq_some_iff.mp hFound).1
  have hNumber : (ref.behind a).number.toNat = a.fixups.length + ref.number.toNat := by
    simp only [FixupRef.behind, UInt32.toNat_add, UInt32.toNat_ofNat']
    omega
  refine ⟨hNumber, ?_⟩
  rw [hNumber, append, List.getElem?_append_right (Nat.le_add_right _ _), Nat.add_sub_cancel_left,
    List.getElem?_map, hFound]
  rfl

/-- Placing a fixup of a fragment places it behind the code, at the distance by
which the fragment is moved. -/
theorem withPlace_append {ref : FixupRef} (found : Fixup) (position : Nat)
    (hNumber : (ref.behind a).number.toNat = a.fixups.length + ref.number.toNat) :
    (a.append fragment).withPlace (ref.behind a) (found.shift a.position) (a.position + position) =
      a.append (fragment.withPlace ref found position) := by
  simp only [withPlace, append, hNumber, List.set_append_right _ _ (Nat.le_add_right _ _),
    Nat.add_sub_cancel_left, List.map_set]
  rfl

/-- Writing an address behind some code is writing it into the fragment. The
bytes are the same, and the place of the fixup moves with them. -/
theorem emitAddress_append {reg : Nat} {address : Address}
    (h : fragment.emitAddress reg address = .ok after)
    (hRoom : a.fixups.length + fragment.fixups.length ≤ 4294967296) :
    (a.append fragment).emitAddress reg (address.behind a) = .ok (a.append after) := by
  rw [emitAddress_eq_ok_iff, Address.encode_behind]
  rcases (emitAddress_eq_ok_iff _ _ _ _).mp h with
    ⟨hNone, rfl⟩ | ⟨ref, found, hSome, hFound, rfl⟩
  · exact Or.inl ⟨by rw [Address.behind, hNone]; rfl, (append_emit a fragment _).symm⟩
  · obtain ⟨hNumber, hMoved⟩ := getElem?_fixups_append hFound hRoom
    refine Or.inr ⟨ref.behind a, found.shift a.position, by rw [Address.behind, hSome]; rfl,
      hMoved, ?_⟩
    rw [← withPlace_append _ _ hNumber, ← append_emit, position_append, Nat.add_assoc]
    rfl

end Assembler

end Amd64
