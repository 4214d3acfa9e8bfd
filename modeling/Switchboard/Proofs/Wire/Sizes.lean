import Switchboard.Frame.Outbound
import Switchboard.Proofs.Wire.RoundTrip

/-!
# What is measured is what is written

A value is a row of pieces, in the order in which it is gone through
(`Value.pieces`): fields of known size, sequences that do not know their length, and
parts that refuse to be written. Measuring the value goes along the row and stops at
the first piece that is in the way (`measure_eq_addAll`). So a value has a payload if
every piece is a field and the fields together are not too long, the payload is as
long as the fields together, and otherwise the first obstacle is what is reported
(`encode_accounts`).
-/

namespace Switchboard.Wire

/-! ## Pieces -/

/-- A piece of a value. -/
inductive Piece where
  /-- A field of so many octets. -/
  | field (size : Nat)
  /-- A sequence that does not know its length. -/
  | unsized
  /-- A part that refuses to be written. -/
  | failing (text : String)
  deriving DecidableEq

mutual

/-- The pieces of a value. What says how long a part is, or which it is, is a field of
its own in front of the part. -/
def Value.pieces : Value → List Piece
  | .unit => []
  | .bool _ | .absent => [.field 1]
  | .number type _ => [.field type.width]
  | .char c => [.field c.utf8Size]
  | .string s => [.field 8, .field s.utf8ByteSize]
  | .bytes b => [.field 8, .field b.size]
  | .chain first more => (first :: more).flatMap fun _ => [.field 4, .field 1]
  | .present item => .field 1 :: item.pieces
  | .sequence items => .field 8 :: piecesAll items
  | .tuple items => piecesAll items
  | .variant _ fields => .field 4 :: piecesAll fields
  | .unsized => [.unsized]
  | .failing text => [.failing text]

def piecesAll : List Value → List Piece
  | [] => []
  | item :: items => item.pieces ++ piecesAll items

end

namespace Piece

/-- How many octets a piece takes. -/
def size : Piece → Nat
  | .field size => size
  | .unsized | .failing _ => 0

/-- Whether a piece can be written, if there is room for it. -/
def IsField (p : Piece) : Prop := p = .field p.size

/-- Why nothing is written of a value that has this piece after `total` octets. -/
def obstacle (total : Nat) : Piece → Option EncodeFault
  | .field size => if maxPayload < total + size then some .tooLong else none
  | .unsized => some .unknownLength
  | .failing text => some (.custom text)

/-- The running total after a piece. -/
def add (p : Piece) (total : Nat) : Except EncodeFault Nat :=
  match p.obstacle total with
  | some fault => .error fault
  | none => .ok (total + p.size)

end Piece

/-- How many octets pieces take together. -/
def extent (ps : List Piece) : Nat := (ps.map Piece.size).sum

/-- The running total after pieces, or the first obstacle among them. -/
def addAll : List Piece → Nat → Except EncodeFault Nat
  | [], total => .ok total
  | p :: ps, total => do addAll ps (← p.add total)

theorem extent_cons (p : Piece) (ps : List Piece) : extent (p :: ps) = p.size + extent ps :=
  rfl

theorem addAll_append (ps qs : List Piece) (total : Nat) :
    addAll (ps ++ qs) total = addAll ps total >>= addAll qs := by
  induction ps generalizing total with
  | nil => rfl
  | cons p ps ih =>
      show p.add total >>= (fun total => addAll (ps ++ qs) total) =
        (p.add total >>= fun total => addAll ps total) >>= addAll qs
      cases p.add total with
      | error fault => rfl
      | ok total' => exact ih total'

/-! ## Measuring goes along the pieces -/

theorem add_field (n total : Nat) : (Piece.field n).add total = grow n total := by
  unfold Piece.add Piece.obstacle grow
  dsimp only
  by_cases hle : total + n ≤ maxPayload
  · rw [if_neg (Nat.not_lt.mpr hle), if_pos hle]
    rfl
  · rw [if_pos (Nat.lt_of_not_le hle), if_neg hle]

theorem addAll_field (n : Nat) (ps : List Piece) (total : Nat) :
    addAll (.field n :: ps) total = grow n total >>= addAll ps := by
  rw [← add_field]
  rfl

theorem addAll_singleton (n total : Nat) : addAll [.field n] total = grow n total := by
  rw [addAll_field]
  cases grow n total <;> rfl

/-- Two fields are too long if they are together. -/
theorem grow_grow (m n total : Nat) : grow m total >>= grow n = grow (m + n) total := by
  unfold grow
  by_cases hsum : total + (m + n) ≤ maxPayload
  · have hfirst : total + m ≤ maxPayload := by omega
    rw [if_pos hfirst, if_pos hsum, ← Nat.add_assoc] at *
    exact if_pos hsum
  · rw [if_neg hsum]
    split
    · exact if_neg (by omega)
    · rfl

/-- A chain is measured at once, but element by element it comes to the same. -/
theorem addAll_chain (elements : List UInt32) (total : Nat) (h : elements ≠ []) :
    addAll (elements.flatMap fun _ => [.field 4, .field 1]) total =
      grow (5 * elements.length) total := by
  induction elements generalizing total with
  | nil => exact absurd rfl h
  | cons x more ih =>
      have helement : addAll [.field 4, .field 1] total = grow 5 total := by
        rw [addAll_field, ← grow_grow 4 1]
        exact congrArg _ (funext fun total => addAll_singleton 1 total)
      rw [List.flatMap_cons, addAll_append, helement]
      rcases more with _ | ⟨y, more⟩
      · cases grow 5 total <;> rfl
      · have hmore : addAll ((y :: more).flatMap fun _ => [.field 4, .field 1]) =
            grow (5 * (y :: more).length) := funext fun total => ih total (by simp)
        rw [hmore, grow_grow, List.length_cons (a := x)]
        congr 1
        omega

mutual

theorem measure_eq_addAll : ∀ (v : Value) (total : Nat), v.measure total = addAll v.pieces total
  | .unit, _ => rfl
  | .bool _, total => (addAll_singleton 1 total).symm
  | .number type _, total => (addAll_singleton type.width total).symm
  | .char c, total => (addAll_singleton c.utf8Size total).symm
  | .string s, total => by
      rw [Value.pieces, addAll_field]
      exact congrArg _ (funext fun total => (addAll_singleton s.utf8ByteSize total).symm)
  | .bytes b, total => by
      rw [Value.pieces, addAll_field]
      exact congrArg _ (funext fun total => (addAll_singleton b.size total).symm)
  | .chain first more, total => (addAll_chain (first :: more) total (by simp)).symm
  | .absent, total => (addAll_singleton 1 total).symm
  | .present item, total => by
      rw [Value.pieces, addAll_field]
      exact congrArg _ (funext fun total => measure_eq_addAll item total)
  | .sequence items, total => by
      rw [Value.pieces, addAll_field]
      exact congrArg _ (funext fun total => measureAll_eq_addAll items total)
  | .tuple items, total => measureAll_eq_addAll items total
  | .variant _ fields, total => by
      rw [Value.pieces, addAll_field]
      exact congrArg _ (funext fun total => measureAll_eq_addAll fields total)
  | .unsized, _ => rfl
  | .failing _, _ => rfl

theorem measureAll_eq_addAll : ∀ (vs : List Value) (total : Nat),
    measureAll vs total = addAll (piecesAll vs) total
  | [], _ => rfl
  | v :: vs, total => by
      rw [measureAll, piecesAll, addAll_append, measure_eq_addAll v total]
      exact congrArg _ (funext fun total => measureAll_eq_addAll vs total)

end

/-! ## The first obstacle -/

namespace Piece

theorem obstacle_eq_none_iff {p : Piece} {total : Nat} :
    p.obstacle total = none ↔ p.IsField ∧ total + p.size ≤ maxPayload := by
  cases p with
  | field n =>
      unfold obstacle
      rw [ite_eq_right_iff, ← Nat.not_lt]
      simp [IsField, size]
  | unsized | failing text => simp [obstacle, IsField]

theorem add_eq_ok_iff {p : Piece} {total total' : Nat} :
    p.add total = .ok total' ↔
      p.IsField ∧ total' = total + p.size ∧ total' ≤ maxPayload := by
  unfold add
  constructor
  · intro h
    split at h
    · cases h
    · rename_i hnone
      cases h
      obtain ⟨hfield, hle⟩ := obstacle_eq_none_iff.mp hnone
      exact ⟨hfield, rfl, hle⟩
  · rintro ⟨hfield, rfl, hle⟩
    rw [obstacle_eq_none_iff.mpr ⟨hfield, hle⟩]

theorem add_eq_error_iff {p : Piece} {total : Nat} {fault : EncodeFault} :
    p.add total = .error fault ↔ p.obstacle total = some fault := by
  unfold add
  cases p.obstacle total with
  | none => exact ⟨fun h => (nomatch h), fun h => (nomatch h)⟩
  | some found => exact ⟨fun h => by cases h; rfl, fun h => by cases h; rfl⟩

end Piece

/-- Nothing is in the way of pieces that are fields and have room. -/
theorem addAll_eq_ok_iff {ps : List Piece} {total total' : Nat} (h : total ≤ maxPayload) :
    addAll ps total = .ok total' ↔
      (∀ p ∈ ps, p.IsField) ∧ total' = total + extent ps ∧ total' ≤ maxPayload := by
  induction ps generalizing total with
  | nil =>
      constructor
      · intro hadd
        cases hadd
        exact ⟨by simp, rfl, h⟩
      · rintro ⟨-, rfl, -⟩
        rfl
  | cons p ps ih =>
      rw [List.forall_mem_cons, extent_cons]
      constructor
      · intro hadd
        obtain ⟨mid, hfirst, hrest⟩ := bind_eq_ok.mp hadd
        obtain ⟨hp, rfl, hmid⟩ := Piece.add_eq_ok_iff.mp hfirst
        obtain ⟨hps, rfl, hle⟩ := (ih hmid).mp hrest
        exact ⟨⟨hp, hps⟩, Nat.add_assoc _ _ _, hle⟩
      · rintro ⟨⟨hp, hps⟩, rfl, hle⟩
        have hmid : total + p.size ≤ maxPayload := by omega
        refine bind_eq_ok.mpr ⟨total + p.size, Piece.add_eq_ok_iff.mpr ⟨hp, rfl, hmid⟩, ?_⟩
        exact (ih hmid).mpr ⟨hps, (Nat.add_assoc _ _ _).symm, hle⟩

/-- Pieces before `p`, with nothing in their way, and this in the way of `p`. -/
structure Blocks (ps before : List Piece) (p : Piece) (total : Nat) (fault : EncodeFault) :
    Prop where
  split : ∃ after, ps = before ++ p :: after
  fields : ∀ q ∈ before, q.IsField
  fits : total + extent before ≤ maxPayload
  obstacle : p.obstacle (total + extent before) = some fault

theorem addAll_eq_error_iff {ps : List Piece} {total : Nat} {fault : EncodeFault}
    (h : total ≤ maxPayload) :
    addAll ps total = .error fault ↔ ∃ before p, Blocks ps before p total fault := by
  induction ps generalizing total with
  | nil =>
      constructor
      · intro hadd
        cases hadd
      · rintro ⟨before, p, ⟨⟨after, hsplit⟩, -, -, -⟩⟩
        exact absurd hsplit.symm (by simp)
  | cons q ps ih =>
      show q.add total >>= (fun total => addAll ps total) = _ ↔ _
      constructor
      · intro hadd
        cases hq : q.add total with
        | error found =>
            rw [hq] at hadd
            obtain rfl : found = fault := Except.error.inj hadd
            exact ⟨[], q, ⟨ps, rfl⟩, by simp, h, Piece.add_eq_error_iff.mp hq⟩
        | ok mid =>
            rw [hq] at hadd
            obtain ⟨hfield, rfl, hmid⟩ := Piece.add_eq_ok_iff.mp hq
            obtain ⟨before, p, ⟨after, rfl⟩, hfields, hfits, hobstacle⟩ := (ih hmid).mp hadd
            rw [Nat.add_assoc, ← extent_cons] at hfits hobstacle
            exact ⟨q :: before, p, ⟨after, rfl⟩, List.forall_mem_cons.mpr ⟨hfield, hfields⟩,
              hfits, hobstacle⟩
      · rintro ⟨before, p, ⟨⟨after, hsplit⟩, hfields, hfits, hobstacle⟩⟩
        rcases before with _ | ⟨q', before⟩
        · cases hsplit
          have hq : q.add total = .error fault := Piece.add_eq_error_iff.mpr hobstacle
          rw [hq]
          rfl
        · cases hsplit
          obtain ⟨hfield, hfields⟩ := List.forall_mem_cons.mp hfields
          rw [extent_cons, ← Nat.add_assoc] at hfits hobstacle
          have hmid : total + q.size ≤ maxPayload := by omega
          rw [Piece.add_eq_ok_iff.mpr ⟨hfield, rfl, hmid⟩]
          exact (ih hmid).mpr ⟨before, p, ⟨after, rfl⟩, hfields, hfits, hobstacle⟩

/-! ## Payloads -/

theorem encode_eq_ok_iff_pieces {v : Value} {b : ByteArray} :
    encode v = .ok b ↔
      ((∀ p ∈ v.pieces, p.IsField) ∧ extent v.pieces ≤ maxPayload) ∧
        b = Octets.toBytes v.octets := by
  unfold encode
  rw [measure_eq_addAll]
  constructor
  · intro h
    obtain ⟨total, hadd, hb⟩ := bind_eq_ok.mp h
    obtain ⟨hfields, rfl, hle⟩ := (addAll_eq_ok_iff (Nat.zero_le _)).mp hadd
    rw [Nat.zero_add] at hle
    exact ⟨⟨hfields, hle⟩, (Except.ok.inj hb).symm⟩
  · rintro ⟨⟨hfields, hle⟩, rfl⟩
    have hadd := (addAll_eq_ok_iff (Nat.zero_le _)).mpr
      ⟨hfields, (Nat.zero_add (extent v.pieces)).symm, hle⟩
    rw [hadd]
    rfl

theorem encode_eq_error_iff {v : Value} {fault : EncodeFault} :
    encode v = .error fault ↔ ∃ before p, Blocks v.pieces before p 0 fault := by
  rw [← addAll_eq_error_iff (Nat.zero_le _), ← measure_eq_addAll]
  unfold encode
  cases v.measure 0 with
  | error found => exact ⟨fun h => by cases h; rfl, fun h => by cases h; rfl⟩
  | ok total => exact ⟨fun h => (nomatch h), fun h => (nomatch h)⟩

/-- A payload is as long as the pieces of its value together. -/
theorem size_of_encode {v : Value} {b : ByteArray} (h : encode v = .ok b) :
    b.size = extent v.pieces := by
  obtain ⟨total, hmeasure, hb⟩ := bind_eq_ok.mp h
  obtain ⟨htotal, -⟩ := counts_of_measure hmeasure
  rw [measure_eq_addAll] at hmeasure
  obtain ⟨-, hextent, -⟩ := (addAll_eq_ok_iff (Nat.zero_le _)).mp hmeasure
  obtain rfl : Octets.toBytes v.octets = b := Except.ok.inj hb
  rw [Octets.size_toBytes]
  omega

/-- What is found too long is longer than the limit. -/
theorem lt_size_of_oversized {limit : Nat} {s : Sending} {b : ByteArray}
    (h : s.oversized limit = some b) : limit < b.size := by
  cases s with
  | frame payload =>
      obtain ⟨hlarge, hb⟩ := Option.ite_none_right_eq_some.mp h
      rwa [Option.some.inj hb] at hlarge
  | frames payloads =>
      have hfind : payloads.find? (limit < ·.size) = some b := h
      simpa using List.find?_some hfind
  | raw _ | flush | close => cases h

/-- A frame that is not too long is begun. -/
theorem start_frame {o : Outbound} {b : ByteArray} (h : b.size ≤ o.limit) :
    o.start (.frame b) = .ok { o with writing := some { later := [framePart b] } } := by
  have hnone : (Sending.frame b).oversized o.limit = none := if_neg (Nat.not_lt.mpr h)
  unfold Outbound.start
  rw [hnone]
  rfl

/-- What is measured is what is written: a value has a payload if it is made of fields
that are not too long together, and the payload is exactly as long as these. Any
writing half with the usual limit takes the payload, never finds it too long among
other frames, and can announce its length. Otherwise the first obstacle in the row is
reported. -/
theorem encode_accounts (v : Value) :
    ((∃ b, encode v = .ok b) ↔
      (∀ p ∈ v.pieces, p.IsField) ∧ extent v.pieces ≤ maxPayload) ∧
    (∀ b, encode v = .ok b →
      b.octets = v.octets ∧ b.size = extent v.pieces ∧ ofBigEndian (bigEndian 4 b.size) = b.size ∧
        ∀ o : Outbound, o.limit = maxPayload →
          o.start (.frame b) = .ok { o with writing := some { later := [framePart b] } } ∧
            ∀ s : Sending, s.oversized o.limit ≠ some b) ∧
    ∀ fault, encode v = .error fault ↔ ∃ before p, Blocks v.pieces before p 0 fault := by
  refine ⟨?_, ?_, fun fault => encode_eq_error_iff⟩
  · constructor
    · rintro ⟨b, hb⟩
      exact (encode_eq_ok_iff_pieces.mp hb).1
    · intro h
      exact ⟨_, encode_eq_ok_iff_pieces.mpr ⟨h, rfl⟩⟩
  · intro b hb
    obtain ⟨hoctets, hle⟩ := octets_of_encode hb
    have hlength : ofBigEndian (bigEndian 4 b.size) = b.size := by
      rw [ofBigEndian_bigEndian]
      exact Nat.mod_eq_of_lt (size_lt_of_encode hb)
    refine ⟨hoctets, size_of_encode hb, hlength, fun o hlimit => ?_⟩
    rw [← hlimit] at hle
    exact ⟨start_frame hle, fun s hs => absurd (lt_size_of_oversized hs) (Nat.not_lt.mpr hle)⟩

/-- What comes first is reported, however deep it lies. -/
example : encode (.tuple [.sequence [.string "é", .present .unsized], .failing "no"]) =
    .error .unknownLength := rfl

end Switchboard.Wire
