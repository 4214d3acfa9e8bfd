import Switchboard.Proofs.Wire.Canonical

/-!
# Linked lists of anything

A linked list is an item and perhaps another linked list, so that its type stands
inside itself and is no `Shape`. It is read as deep as there are items, and each
takes at least the octet that says whether another follows: unrolled deeper than a
payload is long, its type is a shape that serves for this payload (`decode_unroll`).
With this the values of every type that may also hold linked lists, of items of any
such type, have one payload each (`value_iff_payload`).
-/

namespace Switchboard.Wire

/-- A type in which linked lists may stand. -/
inductive Form where
  | plain (shape : Shape)
  | option (item : Form)
  | sequence (item : Form)
  | tuple (items : List Form)
  | variant (alternatives : List (List Form))
  /-- An item, and perhaps a linked list behind it. -/
  | linked (item : Form)

/-- Linked lists with at most `depth` items. -/
def Shape.linked (item : Shape) : (depth : Nat) → Shape
  | 0 => .failing ""
  | depth + 1 => .tuple [item, .option (linked item depth)]

/-- The linked list of these items. -/
def Value.linked : (first : Value) → (more : List Value) → Value
  | v, [] => .tuple [v, .absent]
  | v, w :: more => .tuple [v, .present (linked w more)]

theorem octets_last (v : Value) : (Value.tuple [v, .absent]).octets = v.octets ++ [0] := by
  simp [Value.octets, octetsAll]

theorem octets_link (v w : Value) :
    (Value.tuple [v, .present w]).octets = v.octets ++ 1 :: w.octets := by
  simp [Value.octets, octetsAll]

namespace Form

mutual

/-- A form as a shape, with as many items in each linked list as `depth` at the
most. -/
def unroll (depth : Nat) : Form → Shape
  | .plain shape => shape
  | .option item => .option (item.unroll depth)
  | .sequence item => .sequence (item.unroll depth)
  | .tuple items => .tuple (unrollAll depth items)
  | .variant alternatives => .variant (unrollAlternatives depth alternatives)
  | .linked item => .linked (item.unroll depth) depth

def unrollAll (depth : Nat) : List Form → List Shape
  | [] => []
  | form :: forms => form.unroll depth :: unrollAll depth forms

def unrollAlternatives (depth : Nat) : List (List Form) → List (List Shape)
  | [] => []
  | forms :: more => unrollAll depth forms :: unrollAlternatives depth more

end

/-- The value has this form, if its linked lists may be as long as they are. -/
def Admits (form : Form) (v : Value) : Prop :=
  ∃ depth, (form.unroll depth).admits v

/-- The value of the form that is the whole payload. No linked list in it has more
items than the payload has octets. -/
def decode (form : Form) (b : ByteArray) : Except DecodeFault Value :=
  Wire.decode (form.unroll (b.size + 1)) b

/-! ## Unrolling deep enough -/

theorem admits_tuple_iff {shapes : List Shape} {v : Value} :
    (Shape.tuple shapes).admits v ↔ ∃ vs, admitAll shapes vs ∧ v = .tuple vs := by
  constructor
  · intro h
    cases v with
    | tuple vs => exact ⟨vs, h, rfl⟩
    | _ => cases h
  · rintro ⟨vs, hvs, rfl⟩
    exact hvs

theorem admits_option_iff {item : Shape} {v : Value} :
    (Shape.option item).admits v ↔ v = .absent ∨ ∃ w, item.admits w ∧ v = .present w := by
  constructor
  · intro h
    cases v with
    | absent => exact .inl rfl
    | present w => exact .inr ⟨w, h, rfl⟩
    | _ => cases h
  · rintro (rfl | ⟨w, hw, rfl⟩)
    · rfl
    · exact hw

theorem admitAll_pair_iff {shape shape' : Shape} {vs : List Value} :
    admitAll [shape, shape'] vs ↔ ∃ v w, shape.admits v ∧ shape'.admits w ∧ vs = [v, w] := by
  constructor
  · intro h
    rcases vs with _ | ⟨v, _ | ⟨w, _ | ⟨_, _⟩⟩⟩
    · cases h
    · simp [admitAll] at h
    · exact ⟨v, w, by simpa [admitAll] using h⟩
    · simp [admitAll] at h
  · rintro ⟨v, w, hv, hw, rfl⟩
    simp [admitAll, hv, hw]

/-- A linked list is an item, after which it stops or goes on with a linked list. -/
theorem admits_linked_succ {item : Shape} {depth : Nat} {v : Value} :
    (Shape.linked item (depth + 1)).admits v ↔
      (∃ x, item.admits x ∧ v = .tuple [x, .absent]) ∨
        ∃ x w, item.admits x ∧ (Shape.linked item depth).admits w ∧ v = .tuple [x, .present w] := by
  rw [Shape.linked, admits_tuple_iff]
  constructor
  · rintro ⟨vs, hvs, rfl⟩
    obtain ⟨x, y, hx, hy, rfl⟩ := admitAll_pair_iff.mp hvs
    rcases admits_option_iff.mp hy with rfl | ⟨w, hw, rfl⟩
    · exact .inl ⟨x, hx, rfl⟩
    · exact .inr ⟨x, w, hx, hw, rfl⟩
  · rintro (⟨x, hx, rfl⟩ | ⟨x, w, hx, hw, rfl⟩)
    · exact ⟨_, admitAll_pair_iff.mpr ⟨x, .absent, hx, rfl, rfl⟩, rfl⟩
    · exact ⟨_, admitAll_pair_iff.mpr ⟨x, .present w, hx, hw, rfl⟩, rfl⟩

/-- The items that follow have fewer octets than the list. -/
theorem admits_linked {item item' : Shape} {limit : Nat}
    (hitem : ∀ v : Value, item.admits v → v.octets.length < limit → item'.admits v)
    {depth depth' : Nat} {v : Value} (h : (Shape.linked item depth).admits v)
    (hlimit : v.octets.length < limit) (hdepth : v.octets.length < depth') :
    (Shape.linked item' depth').admits v := by
  induction depth generalizing depth' v with
  | zero => cases v <;> cases h
  | succ depth ih =>
      obtain ⟨depth', rfl⟩ := Nat.exists_eq_succ_of_ne_zero (Nat.ne_zero_of_lt hdepth)
      rcases admits_linked_succ.mp h with ⟨x, hx, rfl⟩ | ⟨x, w, hx, hw, rfl⟩
      · rw [octets_last, List.length_append] at hlimit
        exact admits_linked_succ.mpr (.inl ⟨x, hitem x hx (by omega), rfl⟩)
      · rw [octets_link, List.length_append, List.length_cons] at hlimit hdepth
        have hx' := hitem x hx (by omega)
        have hw' : (Shape.linked item' depth').admits w := ih hw (by omega) (by omega)
        exact admits_linked_succ.mpr (.inr ⟨x, w, hx', hw', rfl⟩)

mutual

/-- Once a form is unrolled deeper than a value has octets, it makes no difference how
deep. -/
theorem admits_unroll {depth depth' : Nat} : ∀ (form : Form) {v : Value},
    (form.unroll depth).admits v → v.octets.length < depth' → (form.unroll depth').admits v
  | .plain _, _, h, _ => h
  | .option _, .absent, _, _ => rfl
  | .option item, .present v, h, hlength => by
      rw [Value.octets, List.length_cons] at hlength
      exact admits_unroll item (v := v) h (by omega)
  | .sequence item, .sequence vs, h, hlength => by
      rw [unroll, Shape.admits, Bool.and_eq_true, List.all_eq_true] at h ⊢
      rw [Value.octets, List.length_append] at hlength
      refine ⟨h.1, fun v hv => admits_unroll item (h.2 v hv) ?_⟩
      have hle := length_le_octetsAll hv
      omega
  | .tuple items, .tuple vs, h, hlength => admits_unrollAll items h hlength
  | .variant alternatives, .variant index vs, h, hlength => by
      rw [Value.octets, List.length_append] at hlength
      exact admits_unrollAlternatives alternatives index.toNat h (by omega)
  | .linked item, v, h, hlength =>
      admits_linked (fun v hv hlt => admits_unroll item hv hlt) h hlength hlength

theorem admits_unrollAll {depth depth' : Nat} : ∀ (forms : List Form) {vs : List Value},
    admitAll (unrollAll depth forms) vs → (octetsAll vs).length < depth' →
    admitAll (unrollAll depth' forms) vs
  | [], [], _, _ => rfl
  | form :: forms, v :: vs, h, hlength => by
      rw [unrollAll, admitAll, Bool.and_eq_true] at h ⊢
      rw [octetsAll, List.length_append] at hlength
      exact ⟨admits_unroll form h.1 (by omega), admits_unrollAll forms h.2 (by omega)⟩

theorem admits_unrollAlternatives {depth depth' : Nat} :
    ∀ (alternatives : List (List Form)) (index : Nat) {vs : List Value},
    admitAlternative (unrollAlternatives depth alternatives) index vs →
    (octetsAll vs).length < depth' →
    admitAlternative (unrollAlternatives depth' alternatives) index vs
  | forms :: _, 0, _, h, hlength => admits_unrollAll forms h hlength
  | _ :: more, index + 1, _, h, hlength => admits_unrollAlternatives more index h hlength

end

theorem admits_iff {form : Form} {v : Value} {depth : Nat} (h : v.octets.length < depth) :
    (form.unroll depth).admits v ↔ form.Admits v :=
  ⟨fun hv => ⟨depth, hv⟩, fun ⟨_, hv⟩ => admits_unroll form hv h⟩

/-! ## Values and payloads -/

theorem unrolled_eq_ok_iff {form : Form} {b : ByteArray} {v : Value} {depth : Nat}
    (h : b.size < depth) : b.size ≤ maxPayload ∧ Wire.decode (form.unroll depth) b = .ok v ↔
      form.Admits v ∧ encode v = .ok b := by
  rw [Wire.decode_eq_ok_iff]
  refine and_congr_left fun hencode => admits_iff ?_
  rwa [← (octets_of_encode hencode).1, Octets.length_octets]

theorem decode_eq_ok_iff {form : Form} {b : ByteArray} {v : Value} :
    b.size ≤ maxPayload ∧ form.decode b = .ok v ↔ form.Admits v ∧ encode v = .ok b :=
  unrolled_eq_ok_iff (Nat.lt_succ_self _)

/-- A payload is read the same however much deeper than its length a form is
unrolled. -/
theorem decode_unroll {form : Form} {b : ByteArray} {depth : Nat} (hsize : b.size ≤ maxPayload)
    (hdepth : b.size < depth) {v : Value} :
    Wire.decode (form.unroll depth) b = .ok v ↔ form.decode b = .ok v :=
  calc Wire.decode (form.unroll depth) b = .ok v
    _ ↔ b.size ≤ maxPayload ∧ Wire.decode (form.unroll depth) b = .ok v :=
        (and_iff_right hsize).symm
    _ ↔ form.Admits v ∧ encode v = .ok b := unrolled_eq_ok_iff hdepth
    _ ↔ b.size ≤ maxPayload ∧ form.decode b = .ok v := decode_eq_ok_iff.symm
    _ ↔ form.decode b = .ok v := and_iff_right hsize

end Form

/-- Values and payloads determine each other. For every type, with linked lists in it
or without, and for the headers of requests and responses: a payload that may be sent is read
as a value if and only if the value is one of the type and the payload is what is
written for it. -/
theorem value_iff_payload :
    (∀ (shape : Shape) (v : Value) (b : ByteArray),
      b.size ≤ maxPayload ∧ decode shape b = .ok v ↔ shape.admits v ∧ encode v = .ok b) ∧
    (∀ (form : Form) (v : Value) (b : ByteArray),
      b.size ≤ maxPayload ∧ form.decode b = .ok v ↔ form.Admits v ∧ encode v = .ok b) ∧
    (∀ (r : Request) (b : ByteArray),
      b.size ≤ maxPayload ∧ Request.decode b = .ok r ↔ encode r.value = .ok b) ∧
    ∀ (r : Response) (b : ByteArray),
      b.size ≤ maxPayload ∧ Response.decode b = .ok r ↔ encode r.value = .ok b :=
  ⟨fun _ _ _ => decode_eq_ok_iff, fun _ _ _ => Form.decode_eq_ok_iff,
    fun _ _ => Request.decode_eq_ok_iff, fun _ _ => Response.decode_eq_ok_iff⟩

end Switchboard.Wire
