import Amd64.Condition
import Amd64.Datum.Basic
import Amd64.Linking
import Amd64.Operand.Basic

/-!
The stored forms of numbers, texts, names and lists. A number must be an
integer in the range of its type.
-/

namespace Amd64

open Datum

instance : Storable Bool where
  store value := boolean value
  load
    | boolean value => .ok value
    | _ => .error .malformed

instance : Storable String where
  store text := string text
  load
    | string text => .ok text
    | _ => .error .malformed

instance : Storable UInt8 where
  store value := integer value.toNat
  load d := (d.integerIn 0 255).map fun n => UInt8.ofNat n.toNat

instance : Storable UInt16 where
  store value := integer value.toNat
  load d := (d.integerIn 0 65535).map fun n => UInt16.ofNat n.toNat

instance : Storable UInt32 where
  store value := integer value.toNat
  load d := (d.integerIn 0 4294967295).map fun n => UInt32.ofNat n.toNat

instance : Storable Int32 where
  store value := integer value.toInt
  load d := (d.integerIn (-2147483648) 2147483647).map Int32.ofInt

/-- Positions are stored in 64 bits. -/
instance : Storable Nat where
  store value := integer value
  load d := (d.integerIn 0 18446744073709551615).map Int.toNat

/-- An absent value is null. -/
instance {α : Type} [Storable α] : Storable (Option α) where
  store
    | none => null
    | some value => store value
  load
    | null => .ok none
    | d => (load d).map some

instance {α : Type} [Storable α] : Storable (List α) where
  store values := array (values.map store)
  load d := do
    let parts ← d.elements
    parts.mapM load

/-- A field that is null when it is not there. -/
def Datum.optionalField {α : Type} [Storable α] (entries : List (String × Datum))
    (name : String) : Except LoadError (Option α) :=
  (field? entries name).map Option.join

instance : Storable ValueType where
  store type := string type.tag
  load := loadTag ValueType.ofTag?

instance : Storable Register where
  store register := string register.tag
  load := loadTag Register.ofTag?

instance : Storable RegisterClass where
  store registers := string registers.tag
  load := loadTag RegisterClass.ofTag?

instance : Storable Condition where
  store condition := string condition.tag
  load := loadTag Condition.ofTag?

instance : Storable Predicate where
  store predicate := string predicate.tag
  load := loadTag Predicate.ofTag?

instance : Storable Scale where
  store scale := string scale.tag
  load := loadTag Scale.ofTag?

instance : Storable Half where
  store half := string half.tag
  load := loadTag Half.ofTag?

instance : Storable FixupKind where
  store kind := string kind.tag
  load := loadTag FixupKind.ofTag?

instance : Storable VariableId where
  store id := store id.number
  load d := (load d).map VariableId.mk

instance : Storable Label where
  store label := store label.number
  load d := (load d).map Label.mk

instance : Storable FixupRef where
  store ref := store ref.number
  load d := (load d).map FixupRef.mk

/-- Register numbers are not limited to those that exist. -/
instance : Storable RegisterNumber where
  store register := store register.value
  load d := (load d).map RegisterNumber.mk

/-- The length is checked after all elements are read. -/
instance : Storable UseList where
  store uses := store uses.toList
  load d := do
    let ids ← load d
    match UseList.ofList? ids with
    | some uses => .ok uses
    | none => .error (.tooManyUses ids.length)

end Amd64
