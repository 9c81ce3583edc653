/-!
The factor that multiplies the index register of an address: a power of two up
to eight.
-/

namespace Amd64

/-- The factor of an index. -/
inductive Scale where
  | one
  | two
  | four
  | eight
  deriving DecidableEq

namespace Scale

def all : List Scale := [one, two, four, eight]

/-- The power of two, which is what a SIB byte holds. -/
def shift : Scale → Nat
  | one => 0
  | two => 1
  | four => 2
  | eight => 3

/-- The number that the index is multiplied by. -/
def factor : Scale → Nat
  | one => 1
  | two => 2
  | four => 4
  | eight => 8

/-- The largest power that a SIB byte can hold. -/
def maxShift : Nat := 3

/-- The scale that a SIB byte with this power means. -/
def ofShift? (shift : Nat) : Option Scale :=
  all[shift]?

def tag : Scale → String
  | one => "Times1"
  | two => "Times2"
  | four => "Times4"
  | eight => "Times8"

def ofTag? (tag : String) : Option Scale :=
  all.find? fun scale => scale.tag = tag

/-- The factor is the power of two that the shift stands for, as shown in text
and as the processor computes it. -/
theorem factor_eq_shiftLeft (scale : Scale) : scale.factor = Nat.shiftLeft 1 scale.shift := by
  cases scale <;> rfl

theorem ofShift?_shift (scale : Scale) : ofShift? scale.shift = some scale := by
  cases scale <;> rfl

theorem shift_le (scale : Scale) : scale.shift ≤ maxShift := by
  cases scale <;> decide

/-- The shift from which a scale was made is the shift of that scale; no two
shifts make the same one. -/
theorem shift_of_ofShift? {shift : Nat} {scale : Scale} (h : ofShift? shift = some scale) :
    scale.shift = shift := by
  match shift, h with
  | 0, h => cases h; rfl
  | 1, h => cases h; rfl
  | 2, h => cases h; rfl
  | 3, h => cases h; rfl
  | shift + 4, h => simp [ofShift?, all] at h

/-- A shift is refused exactly above the largest one, which is three. -/
theorem ofShift?_eq_none_iff (shift : Nat) : ofShift? shift = none ↔ maxShift < shift := by
  simp [ofShift?, all, maxShift]
  omega

theorem ofTag?_tag (scale : Scale) : ofTag? scale.tag = some scale := by
  cases scale <;> decide

end Scale

end Amd64
