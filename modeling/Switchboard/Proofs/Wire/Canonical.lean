import Switchboard.Proofs.Wire.RoundTrip

/-!
# Every value has one payload

A reader that gives a value has taken exactly the octets of this value, and the
value has the shape that was expected (`spells_readValue`): there is no second way
to write a flag, a character, a length or the position of an alternative. With the
way back from a value to its octets this makes the values of a shape and their
payloads two sides of one thing (`decode_eq_ok_iff`).
-/

namespace Switchboard.Wire

/-! ## Readers that leave nothing to choose -/

/-- Whatever a reader gives stands in this relation to the octets that it took. -/
def Reader.Spells {α : Type} (read : Reader α) (spelling : Octets → α → Prop) : Prop :=
  ∀ xs a rest, read xs = .ok (a, rest) → ∃ octets, xs = octets ++ rest ∧ spelling octets a

namespace Reader

variable {α β : Type} {read : Reader α} {xs rest : Octets}

theorem bind_eq_ok {f : α → Reader β} {b : β} :
    (read >>= f) xs = .ok (b, rest) ↔
      ∃ a mid, read xs = .ok (a, mid) ∧ f a mid = .ok (b, rest) := by
  refine Iff.trans (Switchboard.Wire.bind_eq_ok (x := read xs) (f := fun x => f x.1 x.2)) ?_
  exact Prod.exists

theorem pure_eq_ok {a b : α} :
    (pure a : Reader α) xs = .ok (b, rest) ↔ a = b ∧ xs = rest := by
  constructor
  · intro h
    cases h
    exact ⟨rfl, rfl⟩
  · rintro ⟨rfl, rfl⟩
    rfl

namespace Spells

variable {spelling : Octets → α → Prop} {spelling' : Octets → β → Prop}

theorem pure {a : α} (h : spelling [] a) : Spells (Pure.pure a) spelling := by
  intro xs b rest hread
  obtain ⟨rfl, rfl⟩ := pure_eq_ok.mp hread
  exact ⟨[], rfl, h⟩

theorem throw (fault : DecodeFault) : Spells (throw fault) spelling :=
  fun _ _ _ h => nomatch h

/-- What is read second stands behind what was read first. -/
theorem bind {f : α → Reader β} (h : read.Spells spelling)
    (hf : ∀ octets a, spelling octets a → (f a).Spells fun more b => spelling' (octets ++ more) b) :
    Spells (read >>= f) spelling' := by
  intro xs b rest hread
  obtain ⟨a, mid, ha, hb⟩ := bind_eq_ok.mp hread
  obtain ⟨octets, rfl, hspelling⟩ := h xs a mid ha
  obtain ⟨more, rfl, hmore⟩ := hf octets a hspelling mid b rest hb
  exact ⟨octets ++ more, (List.append_assoc _ _ _).symm, hmore⟩

theorem map {f : α → β} (h : read.Spells spelling)
    (hf : ∀ octets a, spelling octets a → spelling' octets (f a)) :
    Spells (do return f (← read)) spelling' := by
  refine h.bind fun octets a ha => .pure ?_
  rw [List.append_nil]
  exact hf octets a ha

end Spells

end Reader

/-! ## The parts -/

theorem spells_readOctets (n : Nat) (fault : DecodeFault) :
    (readOctets n fault).Spells fun octets front => front.length = n ∧ octets = front := by
  intro xs front rest h
  unfold readOctets splitOff at h
  by_cases hn : (xs.take n).length = n
  · rw [if_pos hn] at h
    cases h
    exact ⟨xs.take n, (List.take_append_drop n xs).symm, hn, rfl⟩
  · rw [if_neg hn] at h
    cases h

theorem spells_readNumber (width : Nat) :
    (readNumber width).Spells fun octets n =>
      n < 256 ^ width ∧ octets = littleEndian width n := by
  refine (spells_readOctets width .endOfInput).map ?_
  rintro octets front ⟨rfl, rfl⟩
  exact ⟨ofLittleEndian_lt octets, (littleEndian_ofLittleEndian octets).symm⟩

/-- No octet but nought and one is a flag. -/
theorem spells_readFlag (fault : Nat → DecodeFault) :
    (readFlag fault).Spells fun octets b => octets = [if b then 1 else 0] := by
  intro xs b rest h
  rcases xs with _ | ⟨x, xs⟩
  · cases h
  · unfold readFlag at h
    dsimp only at h
    split_ifs at h with h0 h1
    · cases h
      exact ⟨[x], rfl, by rw [h0]; rfl⟩
    · cases h
      exact ⟨[x], rfl, by rw [h1]; rfl⟩

/-- A character is read from its shortest form only. -/
theorem spells_readChar : readChar.Spells fun octets c => octets = String.utf8EncodeChar c := by
  intro xs c rest h
  rcases xs with _ | ⟨x, xs⟩
  · cases h
  · unfold readChar at h
    dsimp only at h
    split at h
    · rename_i c' hc
      cases h
      obtain ⟨more, hmore⟩ := ByteArray.exists_of_utf8DecodeChar?_eq_some hc
      -- The octets that were looked at begin with those of the character.
      have hfront : (x :: xs).take 4 = String.utf8EncodeChar c ++ more.octets := by
        have h := congrArg ByteArray.octets hmore
        rw [Octets.octets_toBytes] at h
        simpa [ByteArray.octets] using h
      have hall : x :: xs =
          String.utf8EncodeChar c ++ (more.octets ++ (x :: xs).drop 4) := by
        rw [← List.append_assoc, ← hfront, List.take_append_drop]
      refine ⟨String.utf8EncodeChar c, ?_, rfl⟩
      have hdrop : (x :: xs).drop c.utf8Size = more.octets ++ (x :: xs).drop 4 := by
        conv_lhs => rw [hall]
        rw [← String.length_utf8EncodeChar c, List.drop_left]
      rw [hdrop]
      exact hall
    · cases h

theorem spells_readString : readString.Spells fun octets s =>
    octets = lengthOctets s.utf8ByteSize ++ s.toByteArray.octets := by
  unfold readString
  refine (spells_readNumber 8).bind ?_
  rintro octets n ⟨-, rfl⟩
  refine (spells_readOctets n .shortString).bind ?_
  rintro _ front ⟨hlength, rfl⟩
  split
  · rename_i s hs
    have hfront := congrArg ByteArray.octets (Utf8.eq_toByteArray_of_decode hs)
    rw [Octets.octets_toBytes] at hfront
    refine .pure ?_
    rw [List.append_nil, ← length_octets_string, ← hfront, hlength]
    rfl
  · exact .throw _

theorem spells_readBytes : readBytes.Spells fun octets b =>
    octets = lengthOctets b.size ++ b.octets := by
  unfold readBytes
  refine (spells_readNumber 8).bind ?_
  rintro octets n ⟨-, rfl⟩
  refine (spells_readOctets n .endOfInput).map ?_
  rintro _ front ⟨rfl, rfl⟩
  rw [Octets.size_toBytes, Octets.octets_toBytes]
  rfl

/-- Four octets are those of the element that they spell. -/
theorem littleEndian_element (a b c d : UInt8) :
    littleEndian 4 (UInt32.ofNat (ofLittleEndian [a, b, c, d])).toNat = [a, b, c, d] := by
  have hlt : ofLittleEndian [a, b, c, d] < 256 ^ 4 := ofLittleEndian_lt [a, b, c, d]
  rw [UInt32.toNat_ofNat_of_lt' (by simpa using hlt)]
  exact littleEndian_ofLittleEndian [a, b, c, d]

/-- The elements of a chain are those already seen and those whose octets are
taken. -/
theorem spells_readChain (seen : List UInt32) : (readChain seen).Spells fun octets elements =>
    ∃ x more, elements = seen.reverse ++ x :: more ∧ octets = chainOctets x more := by
  intro xs elements rest h
  fun_induction readChain seen xs with
  | case1 seen a b c d rest' =>
      cases h
      refine ⟨[a, b, c, d, 0], rfl, _, [], List.reverse_cons, ?_⟩
      rw [chainOctets_eq, littleEndian_element]
      rfl
  | case2 seen a b c d rest' seen' _ ih =>
      obtain ⟨octets, rfl, x, more, rfl, rfl⟩ := ih h
      refine ⟨a :: b :: c :: d :: 1 :: chainOctets x more, rfl,
        .ofNat (ofLittleEndian [a, b, c, d]), x :: more, ?_, ?_⟩
      · rw [List.reverse_cons, List.append_assoc]
        rfl
      · rw [chainOctets_eq, chainOctets_eq, littleEndian_element]
        rfl
  | case3 => cases h
  | case4 => cases h

theorem spells_readRepeated {read : Reader Value} {sound : Value → Prop}
    (hread : read.Spells fun octets v => sound v ∧ octets = v.octets) (n : Nat)
    (seen : List Value) : (readRepeated read n seen).Spells fun octets items =>
      ∃ vs, items = seen.reverse ++ vs ∧ vs.length = n ∧ (∀ v ∈ vs, sound v) ∧
        octets = octetsAll vs := by
  induction n generalizing seen with
  | zero => exact .pure ⟨[], (List.append_nil _).symm, rfl, by simp, rfl⟩
  | succ n ih =>
      refine hread.bind ?_
      rintro octets v ⟨hv, rfl⟩ xs items rest h
      obtain ⟨octets, rfl, vs, rfl, rfl, hvs, rfl⟩ := ih (v :: seen) xs items rest h
      refine ⟨octetsAll vs, rfl, v :: vs, ?_, rfl, ?_, rfl⟩
      · rw [List.reverse_cons, List.append_assoc]
        rfl
      · exact List.forall_mem_cons.mpr ⟨hv, hvs⟩

/-! ## Values -/

mutual

/-- A value that is read has the shape that was expected, and what was taken is what
it is written as. -/
theorem spells_readValue : ∀ shape : Shape,
    (readValue shape).Spells fun octets v => shape.admits v ∧ octets = v.octets
  | .unit => .pure ⟨rfl, rfl⟩
  | .bool => (spells_readFlag .badBool).map fun _ _ h => ⟨rfl, h⟩
  | .number type => by
      refine (spells_readNumber type.width).map ?_
      rintro octets n ⟨hlt, rfl⟩
      have hbits : n < 2 ^ (8 * type.width) := by
        rwa [Nat.pow_mul]
      refine ⟨by simp [Shape.admits], ?_⟩
      rw [Value.octets, BitVec.toNat_ofNat, Nat.mod_eq_of_lt hbits]
  | .char => spells_readChar.map fun _ _ h => ⟨rfl, h⟩
  | .string => spells_readString.map fun _ _ h => ⟨rfl, h⟩
  | .bytes => spells_readBytes.map fun _ _ h => ⟨rfl, h⟩
  | .chain => by
      refine (spells_readChain []).bind ?_
      rintro _ _ ⟨x, more, rfl, rfl⟩
      exact .pure ⟨rfl, List.append_nil _⟩
  | .option item => by
      refine (spells_readFlag .badTag).bind ?_
      rintro _ b rfl
      cases b with
      | false => exact .pure ⟨rfl, rfl⟩
      | true =>
          refine (spells_readValue item).map ?_
          rintro octets v ⟨hv, rfl⟩
          exact ⟨hv, rfl⟩
  | .sequence item => by
      refine (spells_readNumber 8).bind ?_
      rintro _ n ⟨hn, rfl⟩
      have hfew : n < 2 ^ 64 := hn
      refine (spells_readRepeated (spells_readValue item) n []).map ?_
      rintro _ vs ⟨_, rfl, hlength, hvs, rfl⟩
      rw [← hlength] at hfew ⊢
      refine ⟨?_, rfl⟩
      show (Shape.sequence item).admits (.sequence vs) = true
      rw [Shape.admits, Bool.and_eq_true, decide_eq_true_eq, List.all_eq_true]
      exact ⟨hfew, hvs⟩
  | .tuple shapes => (spells_readAll shapes).map fun _ _ h => h
  | .variant alternatives => by
      refine (spells_readNumber 4).bind ?_
      rintro _ index ⟨hindex, rfl⟩
      refine (spells_readAlternative alternatives index _).map ?_
      rintro _ vs ⟨hvs, rfl⟩
      have hindex : (UInt32.ofNat index).toNat = index := UInt32.toNat_ofNat_of_lt' hindex
      rw [Shape.admits, Value.octets, hindex]
      exact ⟨hvs, rfl⟩
  | .failing _ => .throw _
  | .guess _ => .throw _

theorem spells_readAll : ∀ shapes : List Shape,
    (readAll shapes).Spells fun octets vs => admitAll shapes vs ∧ octets = octetsAll vs
  | [] => .pure ⟨rfl, rfl⟩
  | shape :: shapes => by
      refine (spells_readValue shape).bind ?_
      rintro _ v ⟨hv, rfl⟩
      refine (spells_readAll shapes).map ?_
      rintro _ vs ⟨hvs, rfl⟩
      exact ⟨by rw [admitAll, hv, hvs]; rfl, rfl⟩

theorem spells_readAlternative : ∀ (alternatives : List (List Shape)) (index : Nat)
    (beyond : DecodeFault), (readAlternative alternatives index beyond).Spells fun octets vs =>
      admitAlternative alternatives index vs ∧ octets = octetsAll vs
  | [], _, _ => .throw _
  | shapes :: _, 0, _ => spells_readAll shapes
  | _ :: more, index + 1, beyond => spells_readAlternative more index beyond

end

/-! ## Every value of a shape can be written

unless it is too long for a payload.
-/

/-- A running total may grow by as much as this. -/
def Fits (n total : Nat) : Prop := total + n ≤ maxPayload

theorem grow_of_fits {n total : Nat} (h : Fits n total) : grow n total = .ok (total + n) :=
  grow_eq_ok_iff.mpr ⟨rfl, h⟩

/-- The total grows by what comes first, then by the rest. -/
theorem grow_bind {m n total : Nat} {measureRest : Nat → Except EncodeFault Nat}
    (h : Fits (m + n) total)
    (hrest : ∀ total, Fits n total → measureRest total = .ok (total + n)) :
    (do measureRest (← grow m total)) = .ok (total + (m + n)) := by
  unfold Fits at h
  have hfirst : grow m total = .ok (total + m) := grow_of_fits (by unfold Fits; omega)
  rw [hfirst, ← Nat.add_assoc]
  exact hrest (total + m) (by unfold Fits; omega)

/-- Measuring a value finds nothing wrong with it but its length. -/
def Value.IsMeasured (v : Value) : Prop :=
  ∀ total, Fits v.octets.length total → v.measure total = .ok (total + v.octets.length)

theorem measureAll_of_fits {vs : List Value} (hvs : ∀ v ∈ vs, v.IsMeasured) :
    ∀ total, Fits (octetsAll vs).length total →
      measureAll vs total = .ok (total + (octetsAll vs).length) := by
  induction vs with
  | nil =>
      intro total _
      rfl
  | cons v vs ih =>
      intro total h
      rw [octetsAll, List.length_append] at h ⊢
      unfold Fits at h
      obtain ⟨hv, hvs⟩ := List.forall_mem_cons.mp hvs
      have hfirst := hv total (by unfold Fits; omega)
      have hrest := ih hvs (total + v.octets.length) (by unfold Fits; omega)
      rw [measureAll, hfirst, ← Nat.add_assoc]
      exact hrest

mutual

theorem measured_of_admits : ∀ {shape : Shape} {v : Value}, shape.admits v → v.IsMeasured
  | .unit, .unit, _ => fun _ _ => rfl
  | .bool, .bool _, _ => fun _ h => grow_of_fits h
  | .number _, .number type _, _ => fun _ h => by
      rw [Value.octets, length_littleEndian] at h ⊢
      exact grow_of_fits h
  | .char, .char _, _ => fun _ h => by
      rw [Value.octets, String.length_utf8EncodeChar] at h ⊢
      exact grow_of_fits h
  | .string, .string s, _ => fun _ h => by
      rw [Value.octets, List.length_append, lengthOctets, length_littleEndian,
        length_octets_string] at h ⊢
      exact grow_bind h fun _ => grow_of_fits
  | .bytes, .bytes b, _ => fun _ h => by
      rw [Value.octets, List.length_append, lengthOctets, length_littleEndian,
        Octets.length_octets] at h ⊢
      exact grow_bind h fun _ => grow_of_fits
  | .chain, .chain _ _, _ => fun _ h => by
      rw [Value.octets, length_chainOctets] at h ⊢
      exact grow_of_fits h
  | .option _, .absent, _ => fun _ h => grow_of_fits h
  | .option _, .present _, hv => fun _ h => by
      rw [Value.octets, List.length_cons, Nat.add_comm _ 1] at h ⊢
      exact grow_bind h (measured_of_admits hv)
  | .sequence item, .sequence vs, hvs => fun _ h => by
      rw [Value.octets, List.length_append, lengthOctets, length_littleEndian] at h ⊢
      rw [Shape.admits, Bool.and_eq_true, List.all_eq_true] at hvs
      exact grow_bind h (measureAll_of_fits fun v hv => measured_of_admits (hvs.2 v hv))
  | .tuple _, .tuple _, hvs => measureAll_of_fits (measured_of_admitAll hvs)
  | .variant alternatives, .variant index _, hvs => fun _ h => by
      rw [Value.octets, List.length_append, length_littleEndian] at h ⊢
      exact grow_bind h (measureAll_of_fits (measured_of_admitAlternative alternatives index.toNat hvs))

theorem measured_of_admitAll : ∀ {shapes : List Shape} {vs : List Value},
    admitAll shapes vs → ∀ v ∈ vs, v.IsMeasured
  | [], [], _ => fun _ hv => nomatch hv
  | _ :: _, _ :: _, hvs => by
      rw [admitAll, Bool.and_eq_true] at hvs
      exact List.forall_mem_cons.mpr ⟨measured_of_admits hvs.1, measured_of_admitAll hvs.2⟩

theorem measured_of_admitAlternative : ∀ (alternatives : List (List Shape)) (index : Nat)
    {vs : List Value}, admitAlternative alternatives index vs → ∀ v ∈ vs, v.IsMeasured
  | _ :: _, 0, _, hvs => measured_of_admitAll hvs
  | _ :: more, index + 1, _, hvs => measured_of_admitAlternative more index hvs

end

/-- A value of a shape has a payload, which holds its octets, unless these are too
many. -/
theorem encode_eq_ok_iff {shape : Shape} {v : Value} (h : shape.admits v) {b : ByteArray} :
    encode v = .ok b ↔ b.octets = v.octets ∧ b.size ≤ maxPayload := by
  constructor
  · exact octets_of_encode
  · rintro ⟨hoctets, hsize⟩
    rw [← Octets.length_octets, hoctets] at hsize
    have hmeasure := measured_of_admits h 0 (by unfold Fits; omega)
    rw [encode, hmeasure, ← hoctets, Octets.toBytes_octets]
    rfl

/-! ## Values and payloads -/

/-- A payload that is read is one value of the shape and nothing else. -/
theorem octets_of_decode {shape : Shape} {b : ByteArray} {v : Value}
    (h : decode shape b = .ok v) : shape.admits v ∧ b.octets = v.octets := by
  obtain ⟨⟨w, rest⟩, hread, hw⟩ := bind_eq_ok.mp h
  obtain ⟨octets, hoctets, hv, rfl⟩ := spells_readValue shape b.octets w rest hread
  rcases rest with _ | ⟨x, xs⟩
  · cases hw
    exact ⟨hv, by rw [hoctets, List.append_nil]⟩
  · cases hw

/-- The payloads from which a value of a shape is read are those that are written
for it. -/
theorem decode_eq_ok_iff {shape : Shape} {b : ByteArray} {v : Value} :
    b.size ≤ maxPayload ∧ decode shape b = .ok v ↔ shape.admits v ∧ encode v = .ok b := by
  constructor
  · rintro ⟨hsize, hdecode⟩
    obtain ⟨hv, hoctets⟩ := octets_of_decode hdecode
    exact ⟨hv, (encode_eq_ok_iff hv).mpr ⟨hoctets, hsize⟩⟩
  · rintro ⟨hv, hencode⟩
    exact ⟨(octets_of_encode hencode).2, decode_encode hv hencode⟩

/-! ## Headers -/

/-- Something that only one value stands for is read from the payload of this value. -/
theorem bind_read_eq_ok_iff {ρ : Type} {shape : Shape} {value : ρ → Value}
    {read : Value → Except DecodeFault ρ} (hread : ∀ {v r}, read v = .ok r ↔ v = value r)
    {b : ByteArray} {r : ρ} (hadmits : shape.admits (value r)) :
    b.size ≤ maxPayload ∧ decode shape b >>= read = .ok r ↔ encode (value r) = .ok b := by
  have hvalue : decode shape b >>= read = .ok r ↔ decode shape b = .ok (value r) := by
    constructor
    · intro h
      obtain ⟨v, hv, hr⟩ := bind_eq_ok.mp h
      rw [hv, hread.mp hr]
    · intro h
      exact bind_eq_ok.mpr ⟨value r, h, hread.mpr rfl⟩
  rw [hvalue, decode_eq_ok_iff]
  exact and_iff_right hadmits

theorem Request.ofValue?_eq_some_iff {v : Value} {r : Request} :
    ofValue? v = some r ↔ v = r.value := by
  constructor
  · intro h
    unfold ofValue? at h
    split at h
    · cases h
      rfl
    · cases h
  · rintro rfl
    rfl

theorem Request.decode_eq_ok_iff {b : ByteArray} {r : Request} :
    b.size ≤ maxPayload ∧ decode b = .ok r ↔ encode r.value = .ok b := by
  refine bind_read_eq_ok_iff (fun {v r} => ?_) rfl
  rw [← ofValue?_eq_some_iff]
  cases ofValue? v <;> simp

theorem Response.ofValue?_eq_some_iff {v : Value} {r : Response} :
    ofValue? v = some r ↔ v = r.value := by
  constructor
  · intro h
    unfold ofValue? at h
    split at h
    · cases h
      rfl
    · cases h
  · rintro rfl
    rfl

theorem Response.decode_eq_ok_iff {b : ByteArray} {r : Response} :
    b.size ≤ maxPayload ∧ decode b = .ok r ↔ encode r.value = .ok b := by
  refine bind_read_eq_ok_iff (fun {v r} => ?_) rfl
  rw [← ofValue?_eq_some_iff]
  cases ofValue? v <;> simp

end Switchboard.Wire
