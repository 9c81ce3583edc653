import Amd64.Address.Encoding
import Amd64.Condition
import Amd64.Linking
import Amd64.Refusal

/-!
The buffer that code is written into, with the fixups and labels of the code. A
jump to a label that is not yet bound leaves four zero bytes behind, and
binding the label patches them.
-/

namespace Amd64

/-- Code under construction. -/
structure Assembler where
  bytes : List UInt8
  fixups : List Fixup
  labels : List LabelState
  deriving DecidableEq

/-- Finished code and the places that a linker still has to fill. -/
structure AssembledCode where
  bytes : List UInt8
  fixups : List Fixup
  deriving DecidableEq

/-- The bits of a REX prefix. -/
structure Rex where
  /-- The operand has 64 bits. -/
  w : Bool
  /-- The fourth bit of the register field. -/
  r : Bool
  /-- The fourth bit of the index. -/
  x : Bool
  /-- The fourth bit of the base or of the second register. -/
  b : Bool
  /-- The prefix is needed even without bits, to name the low byte of a pointer
  register. -/
  force : Bool

/-- A prefix is written only if something in it is set. -/
def Rex.bytes (rex : Rex) : List UInt8 :=
  if rex.w || rex.r || rex.x || rex.b || rex.force then
    [UInt8.ofNat (64 + 8 * rex.w.toNat + 4 * rex.r.toNat + 2 * rex.x.toNat + rex.b.toNat)]
  else []

namespace Assembler

def empty : Assembler := ⟨[], [], []⟩

/-- Where the next byte goes. -/
def position (a : Assembler) : Nat :=
  a.bytes.length

def emit (a : Assembler) (bytes : List UInt8) : Assembler :=
  { a with bytes := a.bytes ++ bytes }

/-- Writes bytes over the ones that stand at a position. -/
def patch (a : Assembler) (position : Nat) (bytes : List UInt8) : Assembler :=
  { a with
    bytes := a.bytes.take position ++ bytes ++ a.bytes.drop (position + bytes.length) }

/-- Writes bytes over ones that must all be there: a patch never makes the code
longer. -/
def patchInside (a : Assembler) (position : Nat) (bytes : List UInt8) : Except Fault Assembler :=
  if position + bytes.length ≤ a.position then .ok (a.patch position bytes)
  else .error (.rangeEnd a.position (position + bytes.length))

/-- How much had been written at some moment. -/
structure Mark where
  position : Nat
  fixups : Nat

def mark (a : Assembler) : Mark :=
  ⟨a.position, a.fixups.length⟩

/-- Drops the bytes and fixups that came after the mark. -/
def rollback (a : Assembler) (mark : Mark) : Assembler :=
  { a with bytes := a.bytes.take mark.position, fixups := a.fixups.take mark.fixups }

def fixup (a : Assembler) (ref : FixupRef) : Except Fault Fixup :=
  match a.fixups[ref.number.toNat]? with
  | some found => .ok found
  | none => .error (.outOfRange a.fixups.length ref.number.toNat)

/-- Adds a fixup without a position. -/
def createFixup (a : Assembler) (kind : FixupKind) (target : Relocatable) :
    FixupRef × Assembler :=
  (⟨UInt32.ofNat a.fixups.length⟩,
    { a with fixups := a.fixups ++ [⟨kind, target.symbol, none⟩] })

/-- Records where the place of a fixup begins. -/
def placeFixup (a : Assembler) (ref : FixupRef) (position : Nat) : Except Fault Assembler :=
  match a.fixup ref with
  | .error fault => .error fault
  | .ok found =>
      .ok { a with
        fixups := a.fixups.set ref.number.toNat { found with position := some position } }

/-- Writes an address beside a register or an opcode extension, and places its
fixup. -/
def emitAddress (a : Assembler) (reg : Nat) (address : Address) : Except Fault Assembler :=
  let (bytes, start) := (address.encode reg).writeTo a.bytes
  let written := { a with bytes := bytes }
  match address.fixup, start with
  | some ref, some start => written.placeFixup ref start
  | _, _ => .ok written

/-- Adds a label without a position. -/
def newLabel (a : Assembler) : Label × Assembler :=
  (⟨UInt32.ofNat a.labels.length⟩, { a with labels := a.labels ++ [.pending []] })

/-- What is known of the label with this number. -/
def label (a : Assembler) (label : Label) : Except Fault LabelState :=
  match a.labels[label.number.toNat]? with
  | some found => .ok found
  | none => .error (.outOfRange a.labels.length label.number.toNat)

def setLabel (a : Assembler) (label : Label) (state : LabelState) : Assembler :=
  { a with labels := a.labels.set label.number.toNat state }

/-- What a field at a position holds to reach the target: the distance from the
end of the field, modulo the width of the field. -/
def distance (target field : Nat) : Int32 :=
  Int32.ofInt (target - (field + 4))

/-- Patches fields with their distances to the target, one after the other. -/
def patchDistances (a : Assembler) (target : Nat) (fields : List Nat) : Except Fault Assembler :=
  fields.foldlM
    (fun code field => code.patchInside field (LittleEndian.word (distance target field))) a

/-- Gives a label the current position, and patches the fields that wait for
it. -/
def bind (a : Assembler) (label : Label) : Except Fault Assembler :=
  match a.label label with
  | .error fault => .error fault
  | .ok (.bound _) => .error (.boundTwice label)
  | .ok (.pending fields) =>
      (a.setLabel label (.bound a.position)).patchDistances a.position fields

/-- Adds a four-byte field that holds the distance to a label. -/
def emitDistance (a : Assembler) (label : Label) : Except Fault Assembler :=
  match a.label label with
  | .error fault => .error fault
  | .ok (.bound target) => .ok (a.emit (LittleEndian.word (distance target a.position)))
  | .ok (.pending fields) =>
      .ok ((a.setLabel label (.pending (fields ++ [a.position]))).emit (LittleEndian.word 0))

def emitJump (a : Assembler) (condition : Condition) (label : Label) : Except Fault Assembler :=
  (a.emit [0x0F, UInt8.ofNat (0x80 + condition.code)]).emitDistance label

@[simp] theorem position_emit (a : Assembler) (bytes : List UInt8) :
    (a.emit bytes).position = a.position + bytes.length := by
  simp [emit, position]

@[simp] theorem position_setLabel (a : Assembler) (label : Label) (state : LabelState) :
    (a.setLabel label state).position = a.position := rfl

/-- A patch inside the code does not move its end. Past the end this would be
false, since the bytes that have no place would be added. -/
theorem position_patch (a : Assembler) (position : Nat) (bytes : List UInt8)
    (h : position + bytes.length ≤ a.position) :
    (a.patch position bytes).position = a.position := by
  unfold Assembler.position at h
  simp only [patch, Assembler.position, List.length_append, List.length_take, List.length_drop]
  omega

/-- Bytes and fixups that came after a mark are gone. The labels are those of
now and not of then: no mark remembers them. -/
theorem rollback_of_append (a : Assembler) (bytes : List UInt8) (fixups : List Fixup) :
    Assembler.rollback ⟨a.bytes ++ bytes, a.fixups ++ fixups, a.labels⟩ a.mark = a := by
  simp [rollback, mark, position]

/-- The first label that something waits for. -/
def firstUnbound (a : Assembler) : Option Label :=
  (a.labels.findIdx? fun state =>
    match state with
    | .pending (_ :: _) => true
    | _ => false).map fun index => ⟨UInt32.ofNat index⟩

def firstUnplaced (a : Assembler) : Option Fixup :=
  a.fixups.find? fun fixup => fixup.position.isNone

/-- The finished code. Every used label must be bound and every fixup
placed. -/
def finish (a : Assembler) : Except Refusal AssembledCode :=
  match a.firstUnbound, a.firstUnplaced with
  | some label, _ => .error (.unboundLabel label)
  | none, some fixup => .error (.unplacedFixup fixup.symbol)
  | none, none => .ok ⟨a.bytes, a.fixups⟩

end Assembler

end Amd64
