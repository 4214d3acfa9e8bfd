import Mathlib
import Switchboard.Wire.Header
import Switchboard.Proofs.Frame.Feeding

/-!
# Values come back

A value that a shape admits is read back from its octets, whatever comes behind
them, and exactly its octets are taken (`takes_readValue`). So a payload that was
written for a value is the payload of this value and of no other of the same
shape (`decode_encode`). What is written is as long as it was measured
(`counts_of_measure`), and so it is never too long for the lengths that
stand in front of its parts.
-/

namespace Switchboard.Wire

/-! ## Which values a shape admits -/

mutual

/-- Whether a value has this shape. A sequence has fewer items than a length
can count. -/
def Shape.admits : Shape → Value → Bool
  | .unit, .unit => true
  | .bool, .bool _ => true
  | .number type, .number type' _ => type = type'
  | .char, .char _ => true
  | .string, .string _ => true
  | .bytes, .bytes _ => true
  | .chain, .chain _ _ => true
  | .option _, .absent => true
  | .option item, .present v => item.admits v
  | .sequence item, .sequence vs => vs.length < 2 ^ 64 && vs.all fun v => item.admits v
  | .tuple shapes, .tuple vs => admitAll shapes vs
  | .variant alternatives, .variant index vs => admitAlternative alternatives index.toNat vs
  | _, _ => false

/-- Whether each value has the shape at its place. -/
def admitAll : List Shape → List Value → Bool
  | [], [] => true
  | shape :: shapes, v :: vs => shape.admits v && admitAll shapes vs
  | _, _ => false

/-- Whether the values are fields of the alternative at a position. -/
def admitAlternative : List (List Shape) → Nat → List Value → Bool
  | [], _, _ => false
  | shapes :: _, 0, vs => admitAll shapes vs
  | _ :: more, index + 1, vs => admitAlternative more index vs

end

/-! ## Measuring is counting -/

theorem grow_eq_ok_iff {n total total' : Nat} :
    grow n total = .ok total' ↔ total' = total + n ∧ total' ≤ maxPayload := by
  unfold grow
  split
  · rename_i hle
    constructor
    · intro h
      cases h
      exact ⟨rfl, hle⟩
    · rintro ⟨rfl, _⟩
      rfl
  · rename_i hgt
    constructor
    · intro h
      cases h
    · rintro ⟨rfl, hle⟩
      exact absurd hle hgt

theorem bind_eq_ok {ε α β : Type} {x : Except ε α} {f : α → Except ε β} {b : β} :
    x >>= f = .ok b ↔ ∃ a, x = .ok a ∧ f a = .ok b := by
  cases x with
  | error e => exact ⟨fun h => (nomatch h), fun ⟨_, h, _⟩ => (nomatch h)⟩
  | ok a => exact ⟨fun h => ⟨a, rfl, h⟩, fun ⟨_, ha, hb⟩ => by cases ha; exact hb⟩

/-- From a running total to a later one, with `n` octets in between. -/
def Counts (n total total' : Nat) : Prop :=
  total' = total + n ∧ (total ≤ maxPayload → total' ≤ maxPayload)

theorem counts_of_grow {n total total' : Nat} (h : grow n total = .ok total') :
    Counts n total total' := by
  obtain ⟨heq, hle⟩ := grow_eq_ok_iff.mp h
  exact ⟨heq, fun _ => hle⟩

theorem Counts.trans {m n total total' total'' : Nat} (h : Counts m total total')
    (h' : Counts n total' total'') : Counts (m + n) total total'' := by
  obtain ⟨rfl, hle⟩ := h
  obtain ⟨rfl, hle'⟩ := h'
  exact ⟨Nat.add_assoc _ _ _, fun htotal => hle' (hle htotal)⟩

theorem length_chainOctets (first : UInt32) (more : List UInt32) :
    (chainOctets first more).length = 5 * (more.length + 1) := by
  have hmore : (more.flatMap fun x => 1 :: littleEndian 4 x.toNat).length = 5 * more.length := by
    induction more with
    | nil => rfl
    | cons x more ih =>
        rw [List.flatMap_cons, List.length_append, ih]
        simp
        omega
  rw [chainOctets, List.length_append, List.length_append, hmore, length_littleEndian,
    List.length_singleton]
  omega

theorem length_octets_string (s : String) : s.toByteArray.octets.length = s.utf8ByteSize := by
  rw [Octets.length_octets]
  rfl

mutual

/-- A value that was measured takes as many octets as the total has grown by. -/
theorem counts_of_measure : ∀ {v : Value} {total total' : Nat},
    v.measure total = .ok total' → Counts v.octets.length total total'
  | .unit, _, _, h => by
      cases h
      exact ⟨rfl, id⟩
  | .bool _, _, _, h => counts_of_grow h
  | .number type bits, _, _, h => by
      rw [Value.octets, length_littleEndian]
      exact counts_of_grow h
  | .char c, _, _, h => by
      rw [Value.octets, String.length_utf8EncodeChar]
      exact counts_of_grow h
  | .string s, _, _, h => by
      obtain ⟨_, hlength, hoctets⟩ := bind_eq_ok.mp h
      rw [Value.octets, List.length_append, lengthOctets, length_littleEndian,
        length_octets_string]
      exact (counts_of_grow hlength).trans (counts_of_grow hoctets)
  | .bytes b, _, _, h => by
      obtain ⟨_, hlength, hoctets⟩ := bind_eq_ok.mp h
      rw [Value.octets, List.length_append, lengthOctets, length_littleEndian,
        Octets.length_octets]
      exact (counts_of_grow hlength).trans (counts_of_grow hoctets)
  | .chain first more, _, _, h => by
      rw [Value.octets, length_chainOctets]
      exact counts_of_grow h
  | .absent, _, _, h => counts_of_grow h
  | .present v, _, _, h => by
      obtain ⟨_, htag, hitem⟩ := bind_eq_ok.mp h
      rw [Value.octets, List.length_cons, Nat.add_comm]
      exact (counts_of_grow htag).trans (counts_of_measure hitem)
  | .sequence vs, _, _, h => by
      obtain ⟨_, hlength, hitems⟩ := bind_eq_ok.mp h
      rw [Value.octets, List.length_append, lengthOctets, length_littleEndian]
      exact (counts_of_grow hlength).trans (counts_of_measureAll hitems)
  | .tuple vs, _, _, h => counts_of_measureAll h
  | .variant index vs, _, _, h => by
      obtain ⟨_, hindex, hfields⟩ := bind_eq_ok.mp h
      rw [Value.octets, List.length_append, length_littleEndian]
      exact (counts_of_grow hindex).trans (counts_of_measureAll hfields)
  | .unsized, _, _, h => by cases h
  | .failing _, _, _, h => by cases h

theorem counts_of_measureAll : ∀ {vs : List Value} {total total' : Nat},
    measureAll vs total = .ok total' → Counts (octetsAll vs).length total total'
  | [], _, _, h => by
      cases h
      exact ⟨rfl, id⟩
  | v :: vs, _, _, h => by
      obtain ⟨_, hfirst, hrest⟩ := bind_eq_ok.mp h
      rw [octetsAll, List.length_append]
      exact (counts_of_measure hfirst).trans (counts_of_measureAll hrest)

end

/-- A payload holds the octets of its value and is no longer than a payload may
be. -/
theorem octets_of_encode {v : Value} {b : ByteArray} (h : encode v = .ok b) :
    b.octets = v.octets ∧ b.size ≤ maxPayload := by
  obtain ⟨total, hmeasure, hb⟩ := bind_eq_ok.mp h
  obtain ⟨htotal, hle⟩ := counts_of_measure hmeasure
  obtain rfl : Octets.toBytes v.octets = b := Except.ok.inj hb
  rw [Octets.octets_toBytes, Octets.size_toBytes]
  have htotal := hle (Nat.zero_le _)
  exact ⟨rfl, by omega⟩

/-- A payload that was written is short enough for the length in front of a
frame. -/
theorem size_lt_of_encode {v : Value} {b : ByteArray} (h : encode v = .ok b) :
    b.size < 2 ^ 32 :=
  Nat.lt_of_le_of_lt (octets_of_encode h).2 (by decide)

/-! ## Reading the parts -/

/-- A reader takes these octets for this, and leaves whatever comes behind
them. -/
def Reader.Takes {α : Type} (read : Reader α) (octets : Octets) (a : α) : Prop :=
  ∀ rest, read (octets ++ rest) = .ok (a, rest)

namespace Reader.Takes

variable {α β : Type} {read : Reader α} {octets more : Octets} {a : α}

theorem pure (a : α) : Takes (Pure.pure a) [] a := fun _ => rfl

theorem bind {f : α → Reader β} {b : β} (h : read.Takes octets a) (h' : (f a).Takes more b) :
    Takes (read >>= f) (octets ++ more) b := by
  intro rest
  rw [List.append_assoc]
  show (read (octets ++ (more ++ rest)) >>= fun x => f x.1 x.2) = _
  rw [h]
  exact h' rest

theorem map {f : α → β} (h : read.Takes octets a) :
    Takes (do return f (← read)) octets (f a) := by
  have hbind := h.bind (f := fun a => Pure.pure (f a)) (.pure (f a))
  rwa [List.append_nil] at hbind

end Reader.Takes

theorem takes_readOctets {n : Nat} {octets : Octets} (h : octets.length = n)
    (fault : DecodeFault) : (readOctets n fault).Takes octets octets := by
  intro rest
  subst h
  simp [readOctets, splitOff]

theorem takes_readNumber {width n : Nat} (h : n < 256 ^ width) :
    (readNumber width).Takes (littleEndian width n) n := by
  have hread := (takes_readOctets (length_littleEndian width n) .endOfInput).map
    (f := ofLittleEndian)
  rwa [ofLittleEndian_littleEndian, Nat.mod_eq_of_lt h] at hread

theorem takes_length {n : Nat} (h : n < 2 ^ 64) : (readNumber 8).Takes (lengthOctets n) n :=
  takes_readNumber h

theorem takes_position (index : UInt32) :
    (readNumber 4).Takes (littleEndian 4 index.toNat) index.toNat :=
  takes_readNumber index.toNat_lt

theorem takes_readFlag (fault : Nat → DecodeFault) (b : Bool) :
    (readFlag fault).Takes [if b then 1 else 0] b := by
  intro rest
  cases b <;> rfl

theorem toBytes_append (xs ys : Octets) :
    Octets.toBytes (xs ++ ys) = xs.toByteArray ++ ys.toByteArray := by
  apply ByteArray.ext
  simp [Octets.toBytes]

theorem takes_readChar (c : Char) : readChar.Takes (String.utf8EncodeChar c) c := by
  intro rest
  have hsize : (String.utf8EncodeChar c).length = c.utf8Size := String.length_utf8EncodeChar c
  have hle := c.utf8Size_le_four
  have hpos := c.utf8Size_pos
  -- Four octets are looked at, which are those of the character and some more.
  have htake : (String.utf8EncodeChar c ++ rest).take 4 =
      String.utf8EncodeChar c ++ rest.take (4 - c.utf8Size) := by
    rw [List.take_append, List.take_of_length_le (by omega), hsize]
  have hdrop : (String.utf8EncodeChar c ++ rest).drop c.utf8Size = rest := by
    rw [← hsize, List.drop_left]
  have hdecode : (Octets.toBytes ((String.utf8EncodeChar c ++ rest).take 4)).utf8DecodeChar? 0 =
      some c := by
    rw [htake, toBytes_append]
    exact ByteArray.utf8DecodeChar?_utf8EncodeChar_append
  cases hall : String.utf8EncodeChar c ++ rest with
  | nil =>
      have hnil := (List.append_eq_nil_iff.mp hall).1
      rw [hnil, List.length_nil] at hsize
      omega
  | cons x xs =>
      rw [hall] at hdecode hdrop
      simp only [readChar, hdecode, hdrop]

theorem takes_readString {s : String} (h : s.utf8ByteSize < 2 ^ 64) :
    readString.Takes (lengthOctets s.utf8ByteSize ++ s.toByteArray.octets) s := by
  have hdecode : Utf8.decode (Octets.toBytes s.toByteArray.octets) = .ok s := by
    rw [Octets.toBytes_octets]
    exact Utf8.decode_toByteArray s
  unfold readString
  refine (takes_length h).bind ?_
  rw [← List.append_nil s.toByteArray.octets]
  refine (takes_readOctets (length_octets_string s) .shortString).bind ?_
  rw [hdecode]
  exact .pure s

theorem takes_readBytes {b : ByteArray} (h : b.size < 2 ^ 64) :
    readBytes.Takes (lengthOctets b.size ++ b.octets) b := by
  have hoctets := (takes_readOctets (Octets.length_octets b) .endOfInput).map (f := Octets.toBytes)
  rw [Octets.toBytes_octets] at hoctets
  exact (takes_length h).bind
    (f := fun n => readOctets n .endOfInput >>= fun front => return Octets.toBytes front) hoctets

/-- The elements of a chain that are left to be read, after one tag. -/
def chainRest : List UInt32 → Octets
  | [] => [0]
  | x :: xs => 1 :: (littleEndian 4 x.toNat ++ chainRest xs)

theorem chainOctets_eq (first : UInt32) (more : List UInt32) :
    chainOctets first more = littleEndian 4 first.toNat ++ chainRest more := by
  have hrest : more.flatMap (fun x => 1 :: littleEndian 4 x.toNat) ++ [0] = chainRest more := by
    induction more with
    | nil => rfl
    | cons x more ih => rw [List.flatMap_cons, List.append_assoc, ih, chainRest, List.cons_append]
  rw [chainOctets, List.append_assoc, hrest]

/-- One element of a chain and the tag behind it. -/
theorem readChain_littleEndian (seen : List UInt32) (x : UInt32) (tag : UInt8) (rest : Octets) :
    readChain seen (littleEndian 4 x.toNat ++ tag :: rest) =
      if tag = 0 then .ok ((x :: seen).reverse, rest)
      else if tag = 1 then readChain (x :: seen) rest
      else .error (.badTag tag.toNat) := by
  have hnumber : UInt32.ofNat (ofLittleEndian (littleEndian 4 x.toNat)) = x := by
    have hlt : x.toNat < 256 ^ 4 := x.toNat_lt
    rw [ofLittleEndian_littleEndian, Nat.mod_eq_of_lt hlt, UInt32.ofNat_toNat]
  have hlength := length_littleEndian 4 x.toNat
  generalize littleEndian 4 x.toNat = octets at hnumber hlength ⊢
  obtain ⟨a, b, c, d, rfl⟩ := List.length_eq_four.mp hlength
  simp only [List.cons_append, List.nil_append, readChain, hnumber]

theorem takes_readChain (seen : List UInt32) (x : UInt32) (more : List UInt32) :
    (readChain seen).Takes (littleEndian 4 x.toNat ++ chainRest more)
      (seen.reverse ++ x :: more) := by
  induction more generalizing seen x with
  | nil =>
      intro rest
      rw [chainRest, List.append_assoc, List.singleton_append, readChain_littleEndian, if_pos rfl,
        List.reverse_cons]
  | cons y more ih =>
      intro rest
      have hrest := ih (x :: seen) y rest
      rw [chainRest, List.append_assoc, List.cons_append, readChain_littleEndian,
        if_neg (by decide), if_pos rfl, hrest, List.reverse_cons, List.append_assoc]
      rfl

theorem takes_readRepeated {read : Reader Value} {vs : List Value}
    (h : ∀ v ∈ vs, read.Takes v.octets v) (seen : List Value) :
    (readRepeated read vs.length seen).Takes (octetsAll vs) (seen.reverse ++ vs) := by
  induction vs generalizing seen with
  | nil =>
      rw [List.append_nil]
      exact .pure _
  | cons v vs ih =>
      have hrest := ih (fun w hw => h w (List.mem_cons_of_mem _ hw)) (v :: seen)
      rw [List.reverse_cons, List.append_assoc, List.singleton_append] at hrest
      exact (h v List.mem_cons_self).bind hrest

theorem takes_sequence {read : Reader Value} {vs : List Value} (hfew : vs.length < 2 ^ 64)
    (h : ∀ v ∈ vs, read.Takes v.octets v) :
    Reader.Takes (do return Value.sequence (← readRepeated read (← readNumber 8) []))
      (lengthOctets vs.length ++ octetsAll vs) (.sequence vs) := by
  have hitems := (takes_readRepeated h []).map (f := Value.sequence)
  exact (takes_length hfew).bind
    (f := fun n => do return Value.sequence (← readRepeated read n [])) hitems

/-! ## Reading values -/

theorem length_le_octetsAll {v : Value} {vs : List Value} (h : v ∈ vs) :
    v.octets.length ≤ (octetsAll vs).length := by
  induction vs with
  | nil => cases h
  | cons w vs ih =>
      rw [octetsAll, List.length_append]
      rcases List.mem_cons.mp h with rfl | hmem
      · exact Nat.le_add_right _ _
      · exact Nat.le_add_left_of_le (ih hmem)

mutual

/-- A value that is not too long for its lengths is read back, with what comes
behind it left. -/
theorem takes_readValue : ∀ (shape : Shape) (v : Value), shape.admits v →
    v.octets.length < 2 ^ 64 → (readValue shape).Takes v.octets v
  | .unit, .unit, _, _ => .pure _
  | .bool, .bool b, _, _ => (takes_readFlag .badBool b).map
  | .number type, .number type' bits, h, _ => by
      obtain rfl : type = type' := by simpa [Shape.admits] using h
      have hlt : bits.toNat < 256 ^ type.width := by
        rw [show (256 : Nat) = 2 ^ 8 from rfl, ← Nat.pow_mul]
        exact bits.isLt
      have hread := (takes_readNumber hlt).map (f := fun n => Value.number type (.ofNat _ n))
      rwa [BitVec.ofNat_toNat, BitVec.setWidth_eq] at hread
  | .char, .char c, _, _ => (takes_readChar c).map
  | .string, .string s, _, hlength => by
      rw [Value.octets, List.length_append, length_octets_string] at hlength
      exact (takes_readString (by omega)).map
  | .bytes, .bytes b, _, hlength => by
      rw [Value.octets, List.length_append, Octets.length_octets] at hlength
      exact (takes_readBytes (by omega)).map
  | .chain, .chain first more, _, _ => by
      have hchain := (takes_readChain [] first more).bind
        (f := fun xs => match xs with
          | first :: more => return Value.chain first more
          | [] => throw .endOfInput) (.pure (Value.chain first more))
      rwa [List.append_nil, ← chainOctets_eq] at hchain
  | .option item, .absent, _, _ => by
      intro rest
      rfl
  | .option item, .present v, h, hlength => by
      rw [Value.octets, List.length_cons] at hlength
      have hread := takes_readValue item v h (by omega)
      have hitem := hread.map (f := Value.present)
      exact (takes_readFlag .badTag true).bind
        (f := fun b => if b then do return Value.present (← readValue item) else return Value.absent)
        hitem
  | .sequence item, .sequence vs, h, hlength => by
      obtain ⟨hfew, hall⟩ : vs.length < 2 ^ 64 ∧ ∀ v ∈ vs, item.admits v := by
        simpa [Shape.admits] using h
      rw [Value.octets, List.length_append] at hlength
      refine takes_sequence hfew fun v hv => takes_readValue item v (hall v hv) ?_
      exact Nat.lt_of_le_of_lt (length_le_octetsAll hv) (by omega)
  | .tuple shapes, .tuple vs, h, hlength => (takes_readAll shapes vs h hlength).map
  | .variant alternatives, .variant index vs, h, hlength => by
      rw [Value.octets, List.length_append] at hlength
      have halternative := takes_readAlternative alternatives index.toNat vs
        (.badVariant index.toNat alternatives.length) h (by omega)
      have hfields := halternative.map (f := Value.variant (.ofNat index.toNat))
      have hread := (takes_position index).bind
        (f := fun index => do
          return Value.variant (.ofNat index) (← readAlternative alternatives index
            (.badVariant index alternatives.length))) hfields
      rwa [UInt32.ofNat_toNat] at hread

theorem takes_readAll : ∀ (shapes : List Shape) (vs : List Value), admitAll shapes vs →
    (octetsAll vs).length < 2 ^ 64 → (readAll shapes).Takes (octetsAll vs) vs
  | [], [], _, _ => .pure _
  | shape :: shapes, v :: vs, h, hlength => by
      obtain ⟨hv, hvs⟩ : shape.admits v ∧ admitAll shapes vs := by
        simpa [admitAll] using h
      rw [octetsAll, List.length_append] at hlength
      have hrest := (takes_readAll shapes vs hvs (by omega)).map (f := (v :: ·))
      exact (takes_readValue shape v hv (by omega)).bind
        (f := fun v => do return v :: (← readAll shapes)) hrest

theorem takes_readAlternative : ∀ (alternatives : List (List Shape)) (index : Nat)
    (vs : List Value) (beyond : DecodeFault), admitAlternative alternatives index vs →
    (octetsAll vs).length < 2 ^ 64 →
    (readAlternative alternatives index beyond).Takes (octetsAll vs) vs
  | shapes :: _, 0, vs, _, h, hlength => takes_readAll shapes vs h hlength
  | _ :: more, index + 1, vs, beyond, h, hlength =>
      takes_readAlternative more index vs beyond h hlength

end

/-- What a value is written as is read back as the value, at every shape that the
value has. -/
theorem decode_encode {shape : Shape} {v : Value} {b : ByteArray} (h : shape.admits v)
    (hencode : encode v = .ok b) : decode shape b = .ok v := by
  obtain ⟨hoctets, hsize⟩ := octets_of_encode hencode
  have hlength : v.octets.length < 2 ^ 64 := by
    rw [← hoctets, Octets.length_octets]
    exact Nat.lt_of_le_of_lt hsize (by decide)
  have hread := takes_readValue shape v h hlength []
  rw [List.append_nil, ← hoctets] at hread
  have hrun : (readValue shape).run b.octets = .ok (v, []) := hread
  rw [decode, hrun]
  rfl

/-! ## Headers -/

namespace Request

/-- The request header that a payload holds. -/
def decode (b : ByteArray) : Except DecodeFault Request := do
  match ofValue? (← Wire.decode shape b) with
  | some r => .ok r
  | none => .error .endOfInput

theorem decode_encode {r : Request} {b : ByteArray} (h : encode r.value = .ok b) :
    decode b = .ok r := by
  have hvalue : Wire.decode shape b = .ok r.value := Wire.decode_encode rfl h
  rw [decode, hvalue]
  rfl

end Request

theorem Response.decode_encode {r : Response} {b : ByteArray} (h : encode r.value = .ok b) :
    decode b = .ok r := by
  have hvalue : Wire.decode shape b = .ok r.value := Wire.decode_encode rfl h
  rw [decode, hvalue]
  rfl

/-- A list of pairs of a text and a choice, as it is read back. -/
example : decode (.sequence (.tuple [.string, .option .char]))
    (Octets.toBytes (Value.octets (.sequence [.tuple [.string "é", .present (.char 'é')],
      .tuple [.string "", .absent]]))) =
    .ok (.sequence [.tuple [.string "é", .present (.char 'é')], .tuple [.string "", .absent]]) :=
  decode_encode (by decide) rfl

end Switchboard.Wire
