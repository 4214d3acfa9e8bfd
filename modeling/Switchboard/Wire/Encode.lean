import Switchboard.Wire.Shape

/-!
# Writing a value as a payload

Numbers have fixed width, least significant octet first; lengths have eight
octets, tags one and the position of an alternative four. A value is measured
before it is written, part by part against a running total, so that what is
wrong with it first is what is reported, and nothing is written unless all of
it can be.
-/

namespace Switchboard

/-- The longest payload, which is also the longest frame accepted unless a
connection says otherwise: 100 MiB. -/
def maxPayload : Nat := 100 * 1024 * 1024

namespace Wire

/-! ## Measuring -/

/-- A running total grown by `n`, if a payload may be that long. -/
def grow (n total : Nat) : Except EncodeFault Nat :=
  if total + n ≤ maxPayload then .ok (total + n) else .error .tooLong

mutual

/-- The running total after a value, or the first thing wrong with it. -/
def Value.measure : Value → Nat → Except EncodeFault Nat
  | .unit, total => .ok total
  | .bool _, total => grow 1 total
  | .number type _, total => grow type.width total
  | .char c, total => grow c.utf8Size total
  | .string s, total => do grow s.utf8ByteSize (← grow 8 total)
  | .bytes b, total => do grow b.size (← grow 8 total)
  | .chain _ more, total => grow (5 * (more.length + 1)) total
  | .absent, total => grow 1 total
  | .present item, total => do item.measure (← grow 1 total)
  | .sequence items, total => do measureAll items (← grow 8 total)
  | .tuple items, total => measureAll items total
  | .variant _ fields, total => do measureAll fields (← grow 4 total)
  | .unsized, _ => .error .unknownLength
  | .failing text, _ => .error (.custom text)

/-- The running total after several values. -/
def measureAll : List Value → Nat → Except EncodeFault Nat
  | [], total => .ok total
  | item :: items, total => do measureAll items (← item.measure total)

end

/-! ## Writing -/

/-- A length in front of what it counts. -/
def lengthOctets (n : Nat) : Octets := littleEndian 8 n

/-- Each element of a chain, with a tag after it that says whether more
follow. -/
def chainOctets (first : UInt32) (more : List UInt32) : Octets :=
  littleEndian 4 first.toNat ++ more.flatMap (fun x => 1 :: littleEndian 4 x.toNat) ++ [0]

mutual

/-- The octets of a value that has been measured. -/
def Value.octets : Value → Octets
  | .unit => []
  | .bool b => [if b then 1 else 0]
  | .number type bits => littleEndian type.width bits.toNat
  | .char c => String.utf8EncodeChar c
  | .string s => lengthOctets s.utf8ByteSize ++ s.toByteArray.octets
  | .bytes b => lengthOctets b.size ++ b.octets
  | .chain first more => chainOctets first more
  | .absent => [0]
  | .present item => 1 :: item.octets
  | .sequence items => lengthOctets items.length ++ octetsAll items
  | .tuple items => octetsAll items
  | .variant index fields => littleEndian 4 index.toNat ++ octetsAll fields
  | .unsized => []
  | .failing _ => []

/-- The octets of several values, one after the other. -/
def octetsAll : List Value → Octets
  | [] => []
  | item :: items => item.octets ++ octetsAll items

end

/-- The payload of a value. -/
def encode (v : Value) : Except EncodeFault ByteArray := do
  let _ ← v.measure 0
  .ok (Octets.toBytes v.octets)

end Wire

end Switchboard
