/-!
How numbers are written: as decimal text in messages and listings, and as bytes
in code, the low byte first. The main statement, `LittleEndian.value_bytes`,
says that bytes keep exactly the number modulo the room that they are given.
-/

namespace Amd64

namespace Decimal

/-- The digits, without leading zeros. -/
def ofNat (n : Nat) : String :=
  String.ofList (Nat.toDigits 10 n)

/-- A negative number shows a minus sign before its digits. -/
def ofInt : Int → String
  | .ofNat n => ofNat n
  | .negSucc n => "-" ++ ofNat (n + 1)

/-- The text of a 32-bit word, read as a signed number. -/
def ofWord (word : Int32) : String :=
  ofInt word.toInt

/-- What stands after a symbol to move it by this many bytes: the number with
its sign, also with a plus sign, and nothing at all when it is zero. -/
def addend (word : Int32) : String :=
  if word = 0 then ""
  else if 0 < word then "+" ++ ofWord word
  else ofWord word

end Decimal

namespace LittleEndian

/-- The low `count` bytes of a number. -/
def bytes : (count value : Nat) → List UInt8
  | 0, _ => []
  | count + 1, value => UInt8.ofNat value :: bytes count (value / 256)

/-- The number that bytes stand for. -/
def value : List UInt8 → Nat
  | [] => 0
  | byte :: rest => byte.toNat + 256 * value rest

/-- How many numbers this many bytes can tell apart. -/
def room : (count : Nat) → Nat
  | 0 => 1
  | count + 1 => 256 * room count

def word (value : Int32) : List UInt8 :=
  bytes 4 value.toUInt32.toNat

/-- Reads a 32-bit word and gives the bytes after it. -/
def readWord : List UInt8 → Option (Int32 × List UInt8)
  | b0 :: b1 :: b2 :: b3 :: rest => some (Int32.ofNat (value [b0, b1, b2, b3]), rest)
  | _ => none

@[simp] theorem length_bytes (count value : Nat) : (bytes count value).length = count := by
  induction count generalizing value with
  | zero => rfl
  | succ count ih => simp [bytes, ih]

@[simp] theorem length_word (value : Int32) : (word value).length = 4 := by
  simp [word]

/-- As many bytes as the number needs give it back, fewer give it modulo their
room. The induction is on the number of bytes, one remainder for each. -/
theorem value_bytes (count n : Nat) : value (bytes count n) = n % room count := by
  induction count generalizing n with
  | zero => simp [bytes, value, room, Nat.mod_one]
  | succ count ih =>
      have hByte : (UInt8.ofNat n).toNat = n % 256 := UInt8.toNat_ofNat'
      simp only [bytes, value, ih, hByte, room]
      rw [Nat.mod_mul]

/-- A word that was written is read back, and the bytes after it are kept, so
that a reader can go on with what follows. -/
theorem readWord_word (word : Int32) (rest : List UInt8) :
    readWord (LittleEndian.word word ++ rest) = some (word, rest) := by
  have hRoom : word.toUInt32.toNat < room 4 := word.toUInt32.toNat_lt
  have hValue := value_bytes 4 word.toUInt32.toNat
  rw [Nat.mod_eq_of_lt hRoom] at hValue
  simp only [bytes] at hValue
  simp only [LittleEndian.word, bytes, List.cons_append, List.nil_append, readWord, hValue]
  have hWord : Int32.ofNat word.toUInt32.toNat = word := by
    apply Int32.toBitVec_inj.1
    simp
  rw [hWord]

end LittleEndian

end Amd64
