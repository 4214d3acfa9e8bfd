import Switchboard.Fault.Link

/-!
# Shapes and values

Messages are values, and a payload does not say what it holds: the reader must
know the `Shape` of the value it expects. A record is the tuple of its fields
and an alternative of a variant is known by its position, because names are not
written.

Numbers are kept as their bits. Whether bits mean a signed, an unsigned or a
floating number makes no difference to how they are written.
-/

namespace Switchboard.Wire

/-- The number types, by how they are read and by how many bits they have. -/
inductive NumberType where
  | u8 | u16 | u32 | u64 | u128
  | i8 | i16 | i32 | i64 | i128
  | f32 | f64
  deriving Repr, DecidableEq

/-- How many octets a number takes. -/
def NumberType.width : NumberType → Nat
  | .u8 | .i8 => 1
  | .u16 | .i16 => 2
  | .u32 | .i32 | .f32 => 4
  | .u64 | .i64 | .f64 => 8
  | .u128 | .i128 => 16

/-- What a reader expects. -/
inductive Shape where
  | unit
  | bool
  | number (type : NumberType)
  | char
  | string
  | bytes
  /-- A linked list of 32-bit numbers with at least one element. -/
  | chain
  | option (item : Shape)
  | sequence (item : Shape)
  | tuple (items : List Shape)
  /-- One of several alternatives, each with fields of its own. -/
  | variant (alternatives : List (List Shape))
  /-- A type that refuses to be read. -/
  | failing (text : String)
  /-- A type that wants to be told what is there. -/
  | guess (asked : Guess)
  deriving Repr, Inhabited

/-- What is sent and received. -/
inductive Value where
  | unit
  | bool (b : Bool)
  | number (type : NumberType) (bits : BitVec (8 * type.width))
  | char (c : Char)
  | string (s : String)
  | bytes (b : ByteArray)
  | chain (first : UInt32) (more : List UInt32)
  /-- No item where there could be one. -/
  | absent
  /-- An item where there need not be one. -/
  | present (item : Value)
  | sequence (items : List Value)
  | tuple (items : List Value)
  | variant (index : UInt32) (fields : List Value)
  /-- A sequence that does not know its length. -/
  | unsized
  /-- A value that refuses to be written. -/
  | failing (text : String)
  deriving Inhabited

/-! ## Maps

A map is the sequence of its entries, in the order in which they are written.
-/

/-- The shape of a map. -/
def Shape.map (key value : Shape) : Shape := .sequence (.tuple [key, value])

/-- The map with these entries. -/
def Value.map (entries : List (Value × Value)) : Value :=
  .sequence (entries.map fun (key, value) => .tuple [key, value])

end Switchboard.Wire
