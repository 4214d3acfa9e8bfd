/-!
# Octets and the numbers written in them

A byte stream is a list of octets, because it is taken apart at the front and
put together at the back; a payload that a caller hands over is a `ByteArray`,
because only its size matters until it is sent. `ByteArray.octets` and
`Octets.toBytes` go between the two without loss.

A number of fixed width is written least significant octet first inside a
payload, and most significant octet first in the length that announces a
frame. Every stretch of octets is what its own number is written as
(`littleEndian_ofLittleEndian`).
-/

/-- The octets of a payload, in order. -/
def ByteArray.octets (b : ByteArray) : List UInt8 := b.data.toList

namespace Switchboard

/-- A stretch of a byte stream. -/
abbrev Octets := List UInt8

namespace Octets

/-- A payload with these octets. -/
def toBytes (xs : Octets) : ByteArray := ⟨xs.toArray⟩

@[simp] theorem octets_toBytes (xs : Octets) : (toBytes xs).octets = xs := by
  simp [toBytes, ByteArray.octets]

@[simp] theorem toBytes_octets (b : ByteArray) : toBytes b.octets = b := by
  simp [toBytes, ByteArray.octets]

@[simp] theorem length_octets (b : ByteArray) : b.octets.length = b.size :=
  Array.length_toList

@[simp] theorem size_toBytes (xs : Octets) : (toBytes xs).size = xs.length :=
  List.size_toArray

end Octets

/-! ## Numbers -/

/-- The low `width` octets of a number, least significant first. -/
def littleEndian : (width : Nat) → Nat → Octets
  | 0, _ => []
  | width + 1, n => UInt8.ofNat n :: littleEndian width (n / 256)

/-- The number whose octets these are, least significant first. -/
def ofLittleEndian : Octets → Nat
  | [] => 0
  | b :: bs => b.toNat + 256 * ofLittleEndian bs

/-- The low `width` octets of a number, most significant first. -/
def bigEndian (width n : Nat) : Octets := (littleEndian width n).reverse

/-- The number whose octets these are, most significant first. -/
def ofBigEndian (bs : Octets) : Nat := ofLittleEndian bs.reverse

@[simp] theorem length_littleEndian (width n : Nat) :
    (littleEndian width n).length = width := by
  induction width generalizing n with
  | zero => rfl
  | succ width ih => simp [littleEndian, ih]

@[simp] theorem length_bigEndian (width n : Nat) :
    (bigEndian width n).length = width := by
  simp [bigEndian]

/-- Octets are what the number they spell is written as. -/
theorem littleEndian_ofLittleEndian (bs : Octets) :
    littleEndian bs.length (ofLittleEndian bs) = bs := by
  induction bs with
  | nil => rfl
  | cons b bs ih =>
      have hlt := b.toNat_lt
      have hdiv : (b.toNat + 256 * ofLittleEndian bs) / 256 = ofLittleEndian bs := by omega
      have hb : UInt8.ofNat (b.toNat + 256 * ofLittleEndian bs) = b := by
        apply UInt8.toNat_inj.mp
        simp only [UInt8.toNat_ofNat']
        omega
      simp only [List.length_cons, ofLittleEndian, littleEndian, hdiv, hb, ih]

end Switchboard
