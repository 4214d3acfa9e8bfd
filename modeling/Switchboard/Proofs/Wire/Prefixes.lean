import Switchboard.Proofs.Wire.Linked

/-!
# No payload begins with another

What a reader gives depends on the octets that it takes and on nothing behind them,
and it needs each of them: with fewer it says that the octets ended
(`exact_readValue`, one case for each shape). So a payload with something behind it
is refused because something remains, and the beginning of a payload because it
ends early (`prefixFree_payloads`).
-/

namespace Switchboard

/-- A fault that is found where octets end inside something. A character that is cut
off is not told from one that is wrong. -/
def DecodeFault.IsShort (fault : DecodeFault) : Prop :=
  fault = .endOfInput ∨ fault = .shortString ∨ fault = .badChar

instance (fault : DecodeFault) : Decidable fault.IsShort :=
  inferInstanceAs (Decidable (_ ∨ _ ∨ _))

namespace Wire

/-! ## Readers that need what they take and nothing else -/

/-- Of octets that a reader takes it takes the same whatever comes behind them, and it
does not do with fewer. -/
structure Reader.Exact {α : Type} (read : Reader α) : Prop where
  takes : read.Spells read.Takes
  starves : ∀ {xs more rest : Octets} {a : α}, read (xs ++ more) = .ok (a, rest) →
    rest.length < more.length → ∃ fault, read xs = .error fault ∧ fault.IsShort

namespace Reader.Exact

variable {α β : Type} {read : Reader α}

theorem pure (a : α) : Exact (Pure.pure a) where
  takes := .pure (.pure a)
  starves := by
    intro xs more rest b h hlt
    obtain ⟨-, rfl⟩ := pure_eq_ok.mp h
    rw [List.length_append] at hlt
    omega

theorem throw (fault : DecodeFault) : Exact (throw fault : Reader α) where
  takes := .throw fault
  starves := fun h _ => nomatch h

/-- What ends early ends in the first part or, with the first part complete, in the
second. -/
theorem bind {f : α → Reader β} (h : read.Exact) (hf : ∀ a, (f a).Exact) :
    Exact (read >>= f) where
  takes := by
    intro xs b rest hread
    obtain ⟨a, mid, ha, hb⟩ := bind_eq_ok.mp hread
    obtain ⟨octets, rfl, htakes⟩ := h.takes xs a mid ha
    obtain ⟨more, rfl, hmore⟩ := (hf a).takes mid b rest hb
    exact ⟨octets ++ more, (List.append_assoc _ _ _).symm, htakes.bind hmore⟩
  starves := by
    intro xs more rest b hread hlt
    obtain ⟨a, mid, ha, hb⟩ := bind_eq_ok.mp hread
    by_cases hmid : mid.length < more.length
    · obtain ⟨fault, hfault, hshort⟩ := h.starves ha hmid
      refine ⟨fault, ?_, hshort⟩
      show (read xs >>= fun x => f x.1 x.2) = _
      rw [hfault]
      rfl
    · obtain ⟨octets, hall, htakes⟩ := h.takes _ a mid ha
      have hle : octets.length ≤ xs.length := by
        have hlength := congrArg List.length hall
        rw [List.length_append, List.length_append] at hlength
        omega
      obtain ⟨xs', rfl⟩ :=
        List.prefix_of_prefix_length_le ⟨mid, hall.symm⟩ (List.prefix_append xs more) hle
      obtain rfl : xs' ++ more = mid :=
        List.append_cancel_left ((List.append_assoc _ _ _).symm.trans hall)
      obtain ⟨fault, hfault, hshort⟩ := (hf a).starves hb hlt
      refine ⟨fault, ?_, hshort⟩
      show (read (octets ++ xs') >>= fun x => f x.1 x.2) = _
      rw [htakes]
      exact hfault

theorem map {f : α → β} (h : read.Exact) : Exact (do return f (← read)) :=
  h.bind fun a => .pure (f a)

/-- A reader whose only complaint is that the octets end needs all that it takes,
because of fewer it would give the same. -/
theorem of_faults (htakes : read.Spells read.Takes)
    (hfaults : ∀ {xs : Octets} {fault : DecodeFault}, read xs = .error fault → fault.IsShort) :
    read.Exact where
  takes := htakes
  starves := by
    intro xs more rest a h hlt
    cases hread : read xs with
    | error fault => exact ⟨fault, rfl, hfaults hread⟩
    | ok got =>
        obtain ⟨b, left⟩ := got
        obtain ⟨octets, rfl, hoctets⟩ := htakes xs b left hread
        rw [List.append_assoc, hoctets] at h
        cases h
        rw [List.length_append] at hlt
        omega

end Reader.Exact

/-! ## The parts -/

theorem exact_readOctets (n : Nat) {fault : DecodeFault} (hshort : fault.IsShort) :
    (readOctets n fault).Exact := by
  refine .of_faults ?_ ?_
  · intro xs front rest h
    obtain ⟨octets, rfl, hlength, rfl⟩ := spells_readOctets n fault xs front rest h
    exact ⟨octets, rfl, takes_readOctets hlength fault⟩
  · intro xs fault' h
    unfold readOctets at h
    split at h
    · cases h
    · cases h
      exact hshort

theorem exact_readNumber (width : Nat) : (readNumber width).Exact :=
  (exact_readOctets width (.inl rfl)).map

theorem exact_readFlag (fault : Nat → DecodeFault) : (readFlag fault).Exact where
  takes := by
    intro xs b rest h
    obtain ⟨octets, rfl, rfl⟩ := spells_readFlag fault xs b rest h
    exact ⟨_, rfl, takes_readFlag fault b⟩
  starves := by
    intro xs more rest b h hlt
    rcases xs with _ | ⟨x, xs⟩
    · exact ⟨.endOfInput, rfl, .inl rfl⟩
    · -- An octet that is there is a flag or no flag, whatever is behind it.
      obtain ⟨octets, hall, rfl⟩ := spells_readFlag fault _ b rest h
      have hlength := congrArg List.length hall
      simp only [List.cons_append, List.length_cons, List.length_append, List.length_nil]
        at hlength
      omega

theorem exact_readChar : readChar.Exact := by
  refine .of_faults ?_ ?_
  · intro xs c rest h
    obtain ⟨octets, rfl, rfl⟩ := spells_readChar xs c rest h
    exact ⟨_, rfl, takes_readChar c⟩
  · intro xs fault h
    rcases xs with _ | ⟨x, xs⟩
    · cases h
      exact .inl rfl
    · unfold readChar at h
      dsimp only at h
      split at h
      · cases h
      · cases h
        exact .inr (.inr rfl)

theorem exact_readString : readString.Exact := by
  unfold readString
  refine (exact_readNumber 8).bind fun n => ?_
  refine (exact_readOctets n (.inr (.inl rfl))).bind fun front => ?_
  split
  · exact .pure _
  · exact .throw _

theorem exact_readBytes : readBytes.Exact :=
  (exact_readNumber 8).bind fun n => (exact_readOctets n (.inl rfl)).map

theorem exact_readChain (seen : List UInt32) : (readChain seen).Exact where
  takes := by
    intro xs elements rest h
    obtain ⟨octets, rfl, x, more, rfl, rfl⟩ := spells_readChain seen xs elements rest h
    rw [chainOctets_eq]
    exact ⟨_, rfl, takes_readChain seen x more⟩
  starves := by
    intro xs more rest elements h hlt
    fun_induction readChain seen xs with
    | case1 seen a b c d rest' =>
        -- The chain was over before what is missing.
        obtain rfl : rest' ++ more = rest := congrArg Prod.snd (Except.ok.inj h)
        rw [List.length_append] at hlt
        omega
    | case2 seen a b c d rest' seen' _ ih => exact ih h
    | case3 seen a b c d tag rest' h0 h1 =>
        rw [List.cons_append, List.cons_append, List.cons_append, List.cons_append,
          List.cons_append, readChain, if_neg h0, if_neg h1] at h
        cases h
    | case4 => exact ⟨.endOfInput, rfl, .inl rfl⟩

theorem exact_readRepeated {α : Type} {read : Reader α} (h : read.Exact) (n : Nat)
    (seen : List α) : (readRepeated read n seen).Exact := by
  induction n generalizing seen with
  | zero => exact .pure _
  | succ n ih => exact h.bind fun a => ih (a :: seen)

/-! ## Values -/

mutual

/-- What is read as a value is decided by its own octets, and by all of them. -/
theorem exact_readValue : ∀ shape : Shape, (readValue shape).Exact
  | .unit => .pure _
  | .bool => (exact_readFlag .badBool).map
  | .number type => (exact_readNumber type.width).map
  | .char => exact_readChar.map
  | .string => exact_readString.map
  | .bytes => exact_readBytes.map
  | .chain => by
      refine (exact_readChain []).bind fun elements => ?_
      split
      · exact .pure _
      · exact .throw _
  | .option item => by
      refine (exact_readFlag .badTag).bind fun b => ?_
      split
      · exact (exact_readValue item).map
      · exact .pure _
  | .sequence item => by
      refine (exact_readNumber 8).bind fun n => ?_
      exact (exact_readRepeated (exact_readValue item) n []).map
  | .tuple shapes => (exact_readAll shapes).map
  | .variant alternatives => by
      refine (exact_readNumber 4).bind fun index => ?_
      exact (exact_readAlternative alternatives index _).map
  | .failing _ => .throw _
  | .guess _ => .throw _

theorem exact_readAll : ∀ shapes : List Shape, (readAll shapes).Exact
  | [] => .pure _
  | shape :: shapes => (exact_readValue shape).bind fun _ => (exact_readAll shapes).map

theorem exact_readAlternative : ∀ (alternatives : List (List Shape)) (index : Nat)
    (beyond : DecodeFault), (readAlternative alternatives index beyond).Exact
  | [], _, _ => .throw _
  | shapes :: _, 0, _ => exact_readAll shapes
  | _ :: more, index + 1, beyond => exact_readAlternative more index beyond

end

/-! ## Linked lists

A type that holds itself is read as a shape that is unrolled deeper than there are
octets, and how much deeper makes no difference, neither to what is read nor to what
is complained of.
-/

/-- Two readers do the same with fewer than `n` octets. -/
def Reader.Agree {α : Type} (n : Nat) (read read' : Reader α) : Prop :=
  ∀ xs : Octets, xs.length < n → read xs = read' xs

namespace Reader.Agree

variable {α β : Type} {n : Nat} {read read' : Reader α}

theorem refl (read : Reader α) : Agree n read read := fun _ _ => rfl

theorem mono {m : Nat} (h : Agree n read read') (hle : m ≤ n) : Agree m read read' :=
  fun xs hlt => h xs (Nat.lt_of_lt_of_le hlt hle)

theorem bind {f f' : α → Reader β} (h : Agree n read read') (hexact : read.Exact)
    (hf : ∀ a, Agree n (f a) (f' a)) : Agree n (read >>= f) (read' >>= f') := by
  intro xs hlt
  show (read xs >>= fun x => f x.1 x.2) = read' xs >>= fun x => f' x.1 x.2
  rw [← h xs hlt]
  cases hread : read xs with
  | error fault => rfl
  | ok got =>
      obtain ⟨a, rest⟩ := got
      obtain ⟨octets, rfl, -⟩ := hexact.takes xs a rest hread
      rw [List.length_append] at hlt
      exact hf a rest (by omega)

theorem map {f : α → β} (h : Agree n read read') (hexact : read.Exact) :
    Agree n (do return f (← read)) (do return f (← read')) :=
  h.bind hexact fun a => .refl (Pure.pure (f a))

end Reader.Agree

open Wire.Reader (Agree)

theorem agree_readRepeated {α : Type} {read read' : Reader α} {n : Nat} (h : Agree n read read')
    (hexact : read.Exact) (count : Nat) (seen : List α) :
    Agree n (readRepeated read count seen) (readRepeated read' count seen) := by
  induction count generalizing seen with
  | zero => exact .refl _
  | succ count ih => exact h.bind hexact fun a => ih (a :: seen)

/-- The octet that says whether there is an item is one that the item does not get. -/
theorem agree_option {item item' : Shape} {n : Nat}
    (h : Agree n (readValue item) (readValue item')) :
    Agree (n + 1) (readValue (.option item)) (readValue (.option item')) := by
  intro xs hlt
  rcases xs with _ | ⟨x, xs⟩
  · rfl
  · rw [List.length_cons] at hlt
    have hitem := h xs (by omega)
    simp only [readValue]
    show (readFlag .badTag (x :: xs) >>= fun y => _) = readFlag .badTag (x :: xs) >>= fun y => _
    unfold readFlag
    dsimp only
    split_ifs with h0 h1
    · rfl
    · show (readValue item xs >>= fun y => _) = readValue item' xs >>= fun y => _
      rw [hitem]
    · rfl

theorem agree_linked {item item' : Shape} {n : Nat}
    (h : Agree n (readValue item) (readValue item')) {depth depth' : Nat} (hn : n ≤ depth)
    (hn' : n ≤ depth') :
    Agree n (readValue (.linked item depth)) (readValue (.linked item' depth')) := by
  induction n generalizing depth depth' with
  | zero => exact fun _ hlt => absurd hlt (Nat.not_lt_zero _)
  | succ n ih =>
      obtain ⟨depth, rfl⟩ := Nat.exists_eq_succ_of_ne_zero (Nat.ne_zero_of_lt hn)
      obtain ⟨depth', rfl⟩ := Nat.exists_eq_succ_of_ne_zero (Nat.ne_zero_of_lt hn')
      have hrest : Agree n (readValue (.linked item depth)) (readValue (.linked item' depth')) :=
        ih (h.mono (Nat.le_succ n)) (Nat.le_of_succ_le_succ hn) (Nat.le_of_succ_le_succ hn')
      have hlast := (agree_option hrest).bind (exact_readValue _)
        fun v => .refl (do return v :: (← readAll []))
      refine Agree.map (f := Value.tuple) ?_ (exact_readAll _)
      exact h.bind (exact_readValue _) fun v =>
        hlast.map ((exact_readValue _).bind fun w => (exact_readAll []).map)

namespace Form

theorem length_unrollAlternatives (depth : Nat) (alternatives : List (List Form)) :
    (unrollAlternatives depth alternatives).length = alternatives.length := by
  induction alternatives with
  | nil => rfl
  | cons forms more ih => rw [unrollAlternatives, List.length_cons, List.length_cons, ih]

section Unroll

variable {n depth depth' : Nat}

mutual

theorem agree_unroll (h : n ≤ depth) (h' : n ≤ depth') : ∀ form : Form,
    Agree n (readValue (form.unroll depth)) (readValue (form.unroll depth'))
  | .plain shape => .refl (readValue shape)
  | .option item => (agree_option (agree_unroll h h' item)).mono (Nat.le_succ n)
  | .sequence item => by
      refine Agree.bind (.refl (readNumber 8)) (exact_readNumber 8) fun count => ?_
      have hitem := agree_unroll h h' item
      have hexact := exact_readValue (item.unroll depth)
      exact (agree_readRepeated hitem hexact count []).map (exact_readRepeated hexact count [])
  | .tuple items => (agree_unrollAll h h' items).map (exact_readAll _)
  | .variant alternatives => by
      refine Agree.bind (.refl (readNumber 4)) (exact_readNumber 4) fun index => ?_
      rw [length_unrollAlternatives, length_unrollAlternatives]
      exact (agree_unrollAlternatives h h' alternatives index _).map (exact_readAlternative _ _ _)
  | .linked item => agree_linked (agree_unroll h h' item) h h'

theorem agree_unrollAll (h : n ≤ depth) (h' : n ≤ depth') : ∀ forms : List Form,
    Agree n (readAll (unrollAll depth forms)) (readAll (unrollAll depth' forms))
  | [] => .refl _
  | form :: forms => (agree_unroll h h' form).bind (exact_readValue _) fun _ =>
      (agree_unrollAll h h' forms).map (exact_readAll _)

theorem agree_unrollAlternatives (h : n ≤ depth) (h' : n ≤ depth') :
    ∀ (alternatives : List (List Form)) (index : Nat) (beyond : DecodeFault),
    Agree n (readAlternative (unrollAlternatives depth alternatives) index beyond)
      (readAlternative (unrollAlternatives depth' alternatives) index beyond)
  | [], _, _ => .refl _
  | forms :: _, 0, _ => agree_unrollAll h h' forms
  | _ :: more, index + 1, beyond => agree_unrollAlternatives h h' more index beyond

end

end Unroll

/-- A payload is read the same, or refused for the same reason, however much deeper
than its length a form is unrolled. -/
theorem decode_eq_unroll {form : Form} {b : ByteArray} {depth : Nat} (h : b.size < depth) :
    form.decode b = Wire.decode (form.unroll depth) b := by
  have hlength : b.octets.length < b.size + 1 := by
    rw [Octets.length_octets]
    exact Nat.lt_succ_self _
  have hread : (readValue (form.unroll (b.size + 1))).run b.octets =
      (readValue (form.unroll depth)).run b.octets :=
    agree_unroll (Nat.le_refl _) h form b.octets hlength
  rw [decode, Wire.decode, Wire.decode, hread]

end Form

/-! ## Payloads -/

/-- What is decoded has nothing missing and nothing behind it: with something behind
it, it is refused because something remains, and without its end because it ends
early. -/
def PrefixFree {α : Type} (decode : ByteArray → Except DecodeFault α) : Prop :=
  ∀ (b : ByteArray) (a : α), decode b = .ok a →
    (∀ c : ByteArray, c.size ≠ 0 → decode (b ++ c) = .error .trailing) ∧
    ∀ p c : ByteArray, p ++ c = b → c.size ≠ 0 →
      ∃ fault, decode p = .error fault ∧ fault.IsShort

theorem octets_append (b c : ByteArray) : (b ++ c).octets = b.octets ++ c.octets := by
  simp [ByteArray.octets]

theorem decode_eq_ok {shape : Shape} {b : ByteArray} {v : Value} :
    decode shape b = .ok v ↔ readValue shape b.octets = .ok (v, []) := by
  constructor
  · intro h
    obtain ⟨⟨w, rest⟩, hread, hw⟩ := bind_eq_ok.mp h
    rcases rest with _ | ⟨x, xs⟩
    · cases hw
      exact hread
    · cases hw
  · intro h
    have hrun : (readValue shape).run b.octets = .ok (v, []) := h
    rw [decode, hrun]
    rfl

theorem prefixFree_decode (shape : Shape) : PrefixFree (decode shape) := by
  intro b v h
  have hread := decode_eq_ok.mp h
  constructor
  · intro c hc
    obtain ⟨octets, hall, htakes⟩ := (exact_readValue shape).takes _ v [] hread
    rw [List.append_nil] at hall
    have hrun : (readValue shape).run (b ++ c).octets = .ok (v, c.octets) := by
      rw [octets_append, hall]
      exact htakes c.octets
    rw [decode, hrun]
    rw [← Octets.length_octets] at hc
    rcases hcs : c.octets with _ | ⟨x, xs⟩
    · rw [hcs] at hc
      exact absurd rfl hc
    · rfl
  · rintro p c rfl hc
    rw [octets_append] at hread
    have hpos : ([] : Octets).length < c.octets.length := by
      rw [Octets.length_octets]
      exact Nat.pos_of_ne_zero hc
    obtain ⟨fault, hfault, hshort⟩ := (exact_readValue shape).starves hread hpos
    have hrun : (readValue shape).run p.octets = .error fault := hfault
    refine ⟨fault, ?_, hshort⟩
    rw [decode, hrun]
    rfl

/-- Unrolled deep enough for all that is read, a form is a shape. -/
theorem Form.prefixFree_decode (form : Form) : PrefixFree form.decode := by
  intro b v h
  constructor
  · intro c hc
    have hsize : (b ++ c).size = b.size + c.size := ByteArray.size_append
    rw [@decode_eq_unroll form _ (b.size + c.size + 1) (by omega)] at h ⊢
    exact (Wire.prefixFree_decode _ b v h).1 c hc
  · rintro p c rfl hc
    have hsize : (p ++ c).size = p.size + c.size := ByteArray.size_append
    rw [@decode_eq_unroll form _ (p.size + c.size + 1) (by omega)] at h ⊢
    exact (Wire.prefixFree_decode _ _ v h).2 p c rfl hc

/-- What is made of a value that was decoded changes nothing about what is refused. -/
theorem PrefixFree.bind {α β : Type} {decode : ByteArray → Except DecodeFault α}
    (h : PrefixFree decode) (convert : α → Except DecodeFault β) :
    PrefixFree fun b => decode b >>= convert := by
  intro b r hr
  obtain ⟨a, ha, -⟩ := bind_eq_ok.mp hr
  obtain ⟨htrailing, hshort⟩ := h b a ha
  constructor
  · intro c hc
    show decode (b ++ c) >>= convert = _
    rw [htrailing c hc]
    rfl
  · intro p c hb hc
    obtain ⟨fault, hfault, hfew⟩ := hshort p c hb hc
    refine ⟨fault, ?_, hfew⟩
    show decode p >>= convert = _
    rw [hfault]
    rfl

/-- No payload begins with another of the same type, for every type, with linked
lists in it or without, and for the headers of requests and responses. -/
theorem prefixFree_payloads :
    (∀ shape : Shape, PrefixFree (decode shape)) ∧ (∀ form : Form, PrefixFree form.decode) ∧
      PrefixFree Request.decode ∧ PrefixFree Response.decode :=
  ⟨prefixFree_decode, Form.prefixFree_decode, (prefixFree_decode _).bind _,
    (prefixFree_decode _).bind _⟩

/-- Two items that take no octets, and a linked list of two characters. -/
theorem prefixFree_payloads_of_linked :
    (∀ c : ByteArray, c.size ≠ 0 →
      Form.decode (.tuple [.plain (.sequence .unit), .linked (.plain .char)])
        (Octets.toBytes [2, 0, 0, 0, 0, 0, 0, 0, 0xC3, 0xA9, 1, 0x21, 0] ++ c) =
          .error .trailing) ∧
    ∀ p c : ByteArray,
      p ++ c = Octets.toBytes [2, 0, 0, 0, 0, 0, 0, 0, 0xC3, 0xA9, 1, 0x21, 0] →
      c.size ≠ 0 → ∃ fault,
        Form.decode (.tuple [.plain (.sequence .unit), .linked (.plain .char)]) p =
          .error fault ∧ fault.IsShort :=
  prefixFree_payloads.2.1 (.tuple [.plain (.sequence .unit), .linked (.plain .char)])
    (Octets.toBytes [2, 0, 0, 0, 0, 0, 0, 0, 0xC3, 0xA9, 1, 0x21, 0])
    (.tuple [.sequence [.unit, .unit], .linked (.char 'é') [.char '!']])
    (decode_encode rfl rfl)

end Wire

end Switchboard
