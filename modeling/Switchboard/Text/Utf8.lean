import Switchboard.Bytes

/-!
# Reading octets as UTF-8 text

`decode` accepts exactly the octets that are the UTF-8 of some text and gives
that text back. For other octets it says where the first bad character begins
and how it is bad: some octet cannot stand where it stands, or the octets end
inside a character.
-/

namespace Switchboard.Utf8

/-- Why octets are not UTF-8. -/
inductive Fault where
  /-- The `length` octets from `index` on are no part of any character. -/
  | invalid (length index : Nat)
  /-- The character that begins at `index` is cut off by the end. -/
  | incomplete (index : Nat)
  deriving Repr, DecidableEq

/-- The wording of a fault. -/
def Fault.message : Fault → String
  | .invalid length index =>
      s!"invalid utf-8 sequence of {length} bytes from index {index}"
  | .incomplete index =>
      s!"incomplete utf-8 byte sequence from index {index}"

/-- A range of octets, both ends included. -/
abbrev Range := UInt8 × UInt8

/-- The octets that continue a character. -/
def continuation : Range := (0x80, 0xBF)

/-- Where the octets after a first octet must lie, or `none` if no character
begins with it. The narrower second ranges keep out overlong forms,
surrogates, and what lies beyond the last code point. -/
def following (first : UInt8) : Option (List Range) :=
  if first < 0x80 then some []
  else if first < 0xC2 then none
  else if first < 0xE0 then some [continuation]
  else if first = 0xE0 then some [(0xA0, 0xBF), continuation]
  else if first = 0xED then some [(0x80, 0x9F), continuation]
  else if first < 0xF0 then some [continuation, continuation]
  else if first = 0xF0 then some [(0x90, 0xBF), continuation, continuation]
  else if first < 0xF4 then some [continuation, continuation, continuation]
  else if first = 0xF4 then some [(0x80, 0x8F), continuation, continuation]
  else none

/-- Where reading stops, being at `index` inside a character that began at
`start` and still expects octets in the ranges `expected`; for text with
nothing wrong in it, at its end. -/
def stop : Octets → (index start : Nat) → (expected : List Range) → Fault
  | [], index, _, [] => .incomplete index
  | [], _, start, _ :: _ => .incomplete start
  | b :: bs, index, _, [] =>
      match following b with
      | none => .invalid 1 index
      | some expected => stop bs (index + 1) index expected
  | b :: bs, index, start, r :: expected =>
      if r.1 ≤ b ∧ b ≤ r.2 then stop bs (index + 1) start expected
      else .invalid (index - start) start

/-- The text that the octets spell. -/
def decode (b : ByteArray) : Except Fault String :=
  if h : b.IsValidUTF8 then .ok (String.ofByteArray b h)
  else .error (stop b.octets 0 0 [])

theorem decode_toByteArray (s : String) : decode s.toByteArray = .ok s := by
  simp [decode, s.isValidUTF8]

theorem eq_toByteArray_of_decode {b : ByteArray} {s : String} (h : decode b = .ok s) :
    b = s.toByteArray := by
  unfold decode at h
  split at h
  · cases h; rfl
  · cases h

end Switchboard.Utf8
