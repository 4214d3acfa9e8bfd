import Switchboard.Wire.Shape

/-!
# Reading a payload as a value

The shape says what to expect at each point. A payload is one value and nothing
else: octets that remain are refused, so that a payload of another shape is not
taken for a value because it happens to begin with one.

A `Reader` takes what it reads from the front of the octets and leaves the
rest.
-/

namespace Switchboard.Wire

abbrev Reader := StateT Octets (Except DecodeFault)

/-- The first `n` octets and the rest, if there are that many. -/
def splitOff (n : Nat) (xs : Octets) : Option (Octets × Octets) :=
  let front := xs.take n
  if front.length = n then some (front, xs.drop n) else none

/-- The next `n` octets, or `fault` if there are fewer. -/
def readOctets (n : Nat) (fault : DecodeFault) : Reader Octets := fun xs =>
  match splitOff n xs with
  | some (front, rest) => .ok (front, rest)
  | none => .error fault

/-- A number of `width` octets. -/
def readNumber (width : Nat) : Reader Nat := do
  return ofLittleEndian (← readOctets width .endOfInput)

/-- An octet that says no or yes, or `fault` of any other octet. -/
def readFlag (fault : Nat → DecodeFault) : Reader Bool := fun xs =>
  match xs with
  | [] => .error .endOfInput
  | x :: rest =>
      if x = 0 then .ok (false, rest)
      else if x = 1 then .ok (true, rest)
      else .error (fault x.toNat)

/-- A character, which is at most four octets long. -/
def readChar : Reader Char := fun xs =>
  match xs with
  | [] => .error .endOfInput
  | _ :: _ =>
      match (Octets.toBytes (xs.take 4)).utf8DecodeChar? 0 with
      | some c => .ok (c, xs.drop c.utf8Size)
      | none => .error .badChar

def readString : Reader String := do
  let front ← readOctets (← readNumber 8) .shortString
  match Utf8.decode (Octets.toBytes front) with
  | .ok s => return s
  | .error fault => throw (.notUtf8 fault)

def readBytes : Reader ByteArray := do
  return Octets.toBytes (← readOctets (← readNumber 8) .endOfInput)

/-- The elements of a chain; those in `seen` are already read, latest first. -/
def readChain (seen : List UInt32) : Reader (List UInt32)
  | a :: b :: c :: d :: tag :: rest =>
      let seen := .ofNat (ofLittleEndian [a, b, c, d]) :: seen
      if tag = 0 then .ok (seen.reverse, rest)
      else if tag = 1 then readChain seen rest
      else .error (.badTag tag.toNat)
  | _ => .error .endOfInput

/-- The same thing `n` times; the results in `seen` are already read, latest
first. -/
def readRepeated {α : Type} (read : Reader α) : Nat → List α → Reader (List α)
  | 0, seen => return seen.reverse
  | n + 1, seen => do readRepeated read n ((← read) :: seen)

mutual

/-- A value of the given shape. -/
def readValue : Shape → Reader Value
  | .unit => return .unit
  | .bool => return .bool (← readFlag .badBool)
  | .number type => return .number type (.ofNat _ (← readNumber type.width))
  | .char => return .char (← readChar)
  | .string => return .string (← readString)
  | .bytes => return .bytes (← readBytes)
  | .chain => do
      match ← readChain [] with
      | first :: more => return .chain first more
      | [] => throw .endOfInput
  | .option item => do
      if ← readFlag .badTag then return .present (← readValue item)
      else return .absent
  | .sequence item => do
      return .sequence (← readRepeated (readValue item) (← readNumber 8) [])
  | .tuple items => return .tuple (← readAll items)
  | .variant alternatives => do
      let index ← readNumber 4
      return .variant (.ofNat index)
        (← readAlternative alternatives index (.badVariant index alternatives.length))
  | .failing text => throw (.custom text)
  | .guess asked => throw (.guess asked)

/-- A value of each of the given shapes in turn. -/
def readAll : List Shape → Reader (List Value)
  | [] => return []
  | shape :: shapes => return (← readValue shape) :: (← readAll shapes)

/-- The fields of the alternative at a position, or `beyond` if there are not
that many. -/
def readAlternative : List (List Shape) → Nat → (beyond : DecodeFault) → Reader (List Value)
  | [], _, beyond => throw beyond
  | fields :: _, 0, _ => readAll fields
  | _ :: more, index + 1, beyond => readAlternative more index beyond

end

/-- The value of the given shape that is the whole payload. -/
def decode (shape : Shape) (b : ByteArray) : Except DecodeFault Value := do
  match ← (readValue shape).run b.octets with
  | (v, []) => return v
  | (_, _ :: _) => throw .trailing

end Switchboard.Wire
