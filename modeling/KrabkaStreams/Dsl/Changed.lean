import Mathlib.Algebra.GroupWithZero.Nat
import KrabkaStreams.Dsl.Windows
import KrabkaStreams.Value

/-!
# The serde of a change

The messages of a repartition topic between a table and its groups: the new value, the old value, or both
with the length of the new one in front.
-/

namespace KrabkaStreams

def writeVarintFrom : Nat → Nat → Bytes
  | 0, _ => []
  | fuel + 1, v =>
    if v < 0x80 then [UInt8.ofNat v]
    else (UInt8.ofNat v ||| 0x80) :: writeVarintFrom fuel (v >>> 7)

def writeVarint (n : Nat) : Bytes := writeVarintFrom 10 ((n <<< 1) % 2 ^ 64)

def readVarintFrom : Bytes → Nat → Nat → Nat → Except String (Nat × Nat)
  | [], _, _, _ => .error "truncated varint"
  | b :: bytes, value, shift, consumed =>
    let value := value ||| ((b &&& 0x7F).toNat <<< shift) % 2 ^ 64
    if b &&& 0x80 = 0 then .ok ((value >>> 1) ^^^ ((2 ^ 64 - value % 2) % 2 ^ 64), consumed + 1)
    else if 64 ≤ shift + 7 then .error "varint overflow"
    else readVarintFrom bytes value (shift + 7) (consumed + 1)

def readVarint (bytes : Bytes) : Except String (Nat × Nat) := readVarintFrom bytes 0 0 0

def hexByte (b : UInt8) : String :=
  let digits := Nat.toDigits 16 b.toNat
  String.ofList (if digits.length < 2 then '0' :: digits else digits)

namespace Changed

variable {V : Type}

def serialize (inner : Serde V) (topic : Topic) : Change V → Except ProcessorError Bytes
  | ⟨some old, some new⟩ =>
    let newBytes := inner.serialize topic new
    .ok (writeVarint newBytes.length ++ newBytes ++ inner.serialize topic old ++ [0x02])
  | ⟨none, some new⟩ => .ok (inner.serialize topic new ++ [0x01])
  | ⟨some old, none⟩ => .ok (inner.serialize topic old ++ [0x00])
  | ⟨none, none⟩ => .error .panicked

def deserialize (inner : Serde V) (topic : Topic) (bytes : Bytes) : Except String (Change V) :=
  match bytes.getLast? with
  | none => .error "empty bytes for Change"
  | some flag =>
    let payload := bytes.dropLast
    if flag = 0x00 then do
      let old ← inner.deserialize topic payload
      return ⟨some old, none⟩
    else if flag = 0x01 then do
      let new ← inner.deserialize topic payload
      return ⟨none, some new⟩
    else if flag = 0x02 then do
      let (newLen, consumed) ← readVarint payload
      let afterVarint := payload.drop consumed
      if afterVarint.length < newLen then
        throw ("not enough bytes for new value: need " ++ toString newLen ++ ", have "
          ++ toString afterVarint.length)
      let new ← inner.deserialize topic (afterVarint.take newLen)
      let old ← inner.deserialize topic (afterVarint.drop newLen)
      return ⟨some old, some new⟩
    else .error ("unknown Change flag: 0x" ++ hexByte flag)

end Changed

end KrabkaStreams
