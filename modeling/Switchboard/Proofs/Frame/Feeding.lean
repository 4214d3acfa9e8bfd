import Mathlib
import Switchboard.Frame.Inbound

/-!
# Frames, however they are cut

A read is fed with octets as they come. Here is what it makes of them as a
whole: feeding in two pieces is feeding both at once (`feed_of_more`,
`feed_of_done`), a whole frame is read as its payload (`feed_frame`), and
nothing else is (`frame_of_feed`). So a stream has one division into frames,
and where a read stops does not depend on the pieces in which its octets came.
-/

namespace Switchboard

/-! ## The length of a frame -/

/-- A number read back is the number modulo the width it was written in. -/
theorem ofLittleEndian_littleEndian (width n : Nat) :
    ofLittleEndian (littleEndian width n) = n % 256 ^ width := by
  induction width generalizing n with
  | zero => simp [littleEndian, ofLittleEndian, Nat.mod_one]
  | succ width ih =>
      have h : (UInt8.ofNat n).toNat = n % 256 := by simp
      rw [littleEndian, ofLittleEndian, ih, h, Nat.pow_succ', Nat.mod_mul]

theorem ofBigEndian_bigEndian (width n : Nat) :
    ofBigEndian (bigEndian width n) = n % 256 ^ width := by
  simp [ofBigEndian, bigEndian, ofLittleEndian_littleEndian]

theorem bigEndian_ofBigEndian {bs : Octets} {width : Nat} (h : bs.length = width) :
    bigEndian width (ofBigEndian bs) = bs := by
  have hreverse : bs.reverse.length = width := by rw [List.length_reverse, h]
  rw [bigEndian, ofBigEndian, ← hreverse, littleEndian_ofLittleEndian, List.reverse_reverse]

theorem ofLittleEndian_lt (bs : Octets) : ofLittleEndian bs < 256 ^ bs.length := by
  induction bs with
  | nil => simp [ofLittleEndian]
  | cons b bs ih =>
      have hb := b.toNat_lt
      rw [ofLittleEndian, List.length_cons, Nat.pow_succ]
      omega

theorem ofBigEndian_lt {bs : Octets} (h : bs.length = 4) : ofBigEndian bs < 2 ^ 32 := by
  have hlt := ofLittleEndian_lt bs.reverse
  rw [List.length_reverse, h] at hlt
  exact hlt

/-- A payload as it goes over a connection. -/
def frameOctets (payload : ByteArray) : Octets := bigEndian 4 payload.size ++ payload.octets

/-- What a read of a frame gives. -/
def Received.ofPayload (skip : Bool) (payload : ByteArray) : Received :=
  if skip then .skipped else .frame payload

namespace Progress

/-- A frame is being read, and something of it is still needed. -/
def IsFrame : Progress → Prop
  | .length _ seen => seen.length < 4
  | .payload _ need | .skipping need => 0 < need
  | .line _ => False

/-! ## Pieces -/

section Payload

variable {need : Nat} {octets rest : Octets} {result : Except LinkError Received} {p : Progress}

theorem feedPayload_of_more {seen : Octets} (h : feedPayload seen need octets = .more p)
    (more : Octets) : feedPayload seen need (octets ++ more) = feedPayload (seen ++ octets)
      (need - octets.length) more ∧
      p = .payload (seen ++ octets) (need - octets.length) ∧ octets.length < need := by
  unfold feedPayload at h
  dsimp only at h
  split at h
  · cases h
  · rename_i hneed
    cases h
    have htake : octets.take need = octets := List.take_of_length_le (by omega)
    rw [htake]
    refine ⟨?_, rfl, by omega⟩
    have hdrop : octets.drop need = [] := List.drop_eq_nil_of_le (by omega)
    simp only [feedPayload, List.take_append, List.drop_append, List.length_append, htake,
      hdrop, List.append_assoc, List.nil_append, Nat.sub_sub]

theorem feedPayload_of_done {seen : Octets} (h : feedPayload seen need octets = .done result rest)
    (more : Octets) :
    feedPayload seen need (octets ++ more) = .done result (rest ++ more) ∧
      ∃ used, octets = used ++ rest ∧ used.length = need ∧
        result = .ok (.frame (Octets.toBytes (seen ++ used))) := by
  unfold feedPayload at h
  dsimp only at h
  split at h
  · rename_i hneed
    cases h
    have hlength : need ≤ octets.length := by omega
    constructor
    · simp only [feedPayload, List.take_append_of_le_length hlength,
        List.drop_append_of_le_length hlength, List.length_append]
      rw [if_pos (by omega)]
    · exact ⟨octets.take need, (List.take_append_drop _ _).symm,
        by rw [List.length_take]; omega, rfl⟩
  · cases h

theorem feedSkipping_of_more (h : feedSkipping need octets = .more p) (more : Octets) :
    feedSkipping need (octets ++ more) = feedSkipping (need - octets.length) more ∧
      p = .skipping (need - octets.length) ∧ octets.length < need := by
  unfold feedSkipping at h
  dsimp only at h
  split at h
  · cases h
  · cases h
    have hdrop : octets.drop need = [] := List.drop_eq_nil_of_le (by omega)
    refine ⟨?_, rfl, by omega⟩
    simp only [feedSkipping, List.drop_append, List.length_append, hdrop, List.nil_append,
      Nat.sub_sub]

theorem feedSkipping_of_done (h : feedSkipping need octets = .done result rest) (more : Octets) :
    feedSkipping need (octets ++ more) = .done result (rest ++ more) ∧
      ∃ used, octets = used ++ rest ∧ used.length = need ∧ result = .ok .skipped := by
  unfold feedSkipping at h
  dsimp only at h
  split at h
  · cases h
    have hlength : need ≤ octets.length := by omega
    constructor
    · simp only [feedSkipping, List.drop_append_of_le_length hlength, List.length_append]
      rw [if_pos (by omega)]
    · exact ⟨octets.take need, (List.take_append_drop _ _).symm,
        by rw [List.length_take]; omega, rfl⟩
  · cases h

end Payload

/-- What follows a length, fed to a read that has just seen it. -/
def feedAnnounced (limit : Nat) (skip : Bool) (length : Nat) (octets : Octets) : Fed :=
  if limit < length then .done (.error (.invalidFrame (.tooLarge length))) octets
  else if skip then feedSkipping length octets
  else feedPayload [] length octets

section Announced

variable {limit length : Nat} {skip : Bool} {octets rest : Octets}
  {result : Except LinkError Received} {p : Progress}

theorem feedAnnounced_of_more (h : feedAnnounced limit skip length octets = .more p)
    (more : Octets) :
    feedAnnounced limit skip length (octets ++ more) = p.feed limit more ∧ p.IsFrame := by
  unfold feedAnnounced at h ⊢
  split at h
  · cases h
  · rename_i hlimit
    rw [if_neg hlimit]
    cases skip with
    | true =>
        obtain ⟨heq, rfl, hneed⟩ := feedSkipping_of_more h more
        exact ⟨by simpa [feed] using heq, Nat.sub_pos_of_lt hneed⟩
    | false =>
        obtain ⟨heq, rfl, hneed⟩ := feedPayload_of_more h more
        exact ⟨by simpa [feed] using heq, Nat.sub_pos_of_lt hneed⟩

theorem feedAnnounced_of_done (h : feedAnnounced limit skip length octets = .done result rest)
    (more : Octets) :
    feedAnnounced limit skip length (octets ++ more) = .done result (rest ++ more) ∧
      ∃ used, octets = used ++ rest ∧
        ((limit < length ∧ used = [] ∧ result = .error (.invalidFrame (.tooLarge length))) ∨
          (length ≤ limit ∧ used.length = length ∧
            result = .ok (.ofPayload skip (Octets.toBytes used)))) := by
  unfold feedAnnounced at h ⊢
  split at h
  · rename_i hlimit
    cases h
    exact ⟨if_pos hlimit, [], rfl, .inl ⟨hlimit, rfl, rfl⟩⟩
  · rename_i hlimit
    rw [if_neg hlimit]
    cases skip with
    | true =>
        obtain ⟨heq, used, hused, hlength, hresult⟩ := feedSkipping_of_done h more
        exact ⟨by simpa using heq, used, hused, .inr ⟨by omega, hlength, hresult⟩⟩
    | false =>
        obtain ⟨heq, used, hused, hlength, hresult⟩ := feedPayload_of_done h more
        exact ⟨by simpa using heq, used, hused, .inr ⟨by omega, hlength, hresult⟩⟩

end Announced

/-- A read of the length waits for the fourth octet. -/
theorem feedLength_eq (limit : Nat) (skip : Bool) (seen octets : Octets) :
    feedLength limit skip seen octets =
      if octets.length < 4 - seen.length then .more (.length skip (seen ++ octets))
      else feedAnnounced limit skip (ofBigEndian (seen ++ octets.take (4 - seen.length)))
        (octets.drop (4 - seen.length)) := by
  unfold feedLength feedAnnounced
  dsimp only
  by_cases h : octets.length < 4 - seen.length
  · have htake : octets.take (4 - seen.length) = octets := List.take_of_length_le (by omega)
    rw [if_pos h, htake, if_pos (by rw [List.length_append]; omega)]
  · rw [if_neg h, if_neg (by rw [List.length_append, List.length_take]; omega)]

section Frame

variable {limit : Nat} {octets rest : Octets} {result : Except LinkError Received}
  {p q : Progress}

/-- A read that needs more goes on where it was. -/
theorem feed_of_more (hp : p.IsFrame) (h : p.feed limit octets = .more q) (more : Octets) :
    p.feed limit (octets ++ more) = q.feed limit more ∧ q.IsFrame := by
  cases p with
  | line => exact hp.elim
  | payload seen need =>
      obtain ⟨heq, rfl, hneed⟩ := feedPayload_of_more h more
      exact ⟨heq, Nat.sub_pos_of_lt hneed⟩
  | skipping need =>
      obtain ⟨heq, rfl, hneed⟩ := feedSkipping_of_more h more
      exact ⟨heq, Nat.sub_pos_of_lt hneed⟩
  | length skip seen =>
      simp only [feed] at h ⊢
      rw [feedLength_eq] at h
      split at h
      · -- The length is still incomplete.
        rename_i hshort
        cases h
        refine ⟨?_, by rw [IsFrame, List.length_append]; omega⟩
        have htake : octets.take (4 - seen.length) = octets := List.take_of_length_le (by omega)
        have hdrop : octets.drop (4 - seen.length) = [] := List.drop_eq_nil_of_le (by omega)
        simp only [feedLength_eq, List.length_append, List.take_append, List.drop_append, htake,
          hdrop, List.nil_append, List.append_assoc, Nat.sub_sub]
        by_cases hmore : more.length < 4 - (seen.length + octets.length)
        · rw [if_pos hmore, if_pos (by omega)]
        · rw [if_neg hmore, if_neg (by omega)]
      · -- The length is known; what comes later changes nothing about it.
        rename_i hlong
        rw [feedLength_eq, if_neg (by rw [List.length_append]; omega),
          List.take_append_of_le_length (by omega), List.drop_append_of_le_length (by omega)]
        exact feedAnnounced_of_more h more

/-- A read that is done has used something and leaves the rest alone. -/
theorem feed_of_done (hp : p.IsFrame) (h : p.feed limit octets = .done result rest)
    (more : Octets) :
    p.feed limit (octets ++ more) = .done result (rest ++ more) ∧
      ∃ used, octets = used ++ rest ∧ 0 < used.length := by
  cases p with
  | line => exact hp.elim
  | payload seen need =>
      obtain ⟨heq, used, hused, hneed, _⟩ := feedPayload_of_done h more
      exact ⟨heq, used, hused, hneed ▸ hp⟩
  | skipping need =>
      obtain ⟨heq, used, hused, hneed, _⟩ := feedSkipping_of_done h more
      exact ⟨heq, used, hused, hneed ▸ hp⟩
  | length skip seen =>
      simp only [feed] at h ⊢
      rw [feedLength_eq] at h
      split at h
      · cases h
      · rename_i hlong
        have hseen : seen.length < 4 := hp
        obtain ⟨heq, used, hused, _⟩ := feedAnnounced_of_done h more
        rw [feedLength_eq, if_neg (by rw [List.length_append]; omega),
          List.take_append_of_le_length (by omega), List.drop_append_of_le_length (by omega)]
        refine ⟨heq, octets.take (4 - seen.length) ++ used, ?_, ?_⟩
        · rw [List.append_assoc, ← hused, List.take_append_drop]
        · rw [List.length_append, List.length_take]
          omega

/-- Without what it leaves, a read is done all the same. -/
theorem feed_used (hp : p.IsFrame) {used : Octets}
    (h : p.feed limit (used ++ rest) = .done result rest) :
    p.feed limit used = .done result [] := by
  cases hused : p.feed limit used with
  | more q =>
      -- Then the read would have used some of the rest too.
      obtain ⟨heq, hq⟩ := feed_of_more hp hused rest
      obtain ⟨_, more, hmore, hpos⟩ := feed_of_done hq (heq.symm.trans h) []
      have hlength := congrArg List.length hmore
      rw [List.length_append] at hlength
      omega
  | done other left =>
      have heq := (feed_of_done hp hused rest).1
      rw [h] at heq
      obtain ⟨rfl, hrest⟩ := Fed.done.inj heq
      have hleft : left = [] := by simpa using hrest
      rw [hleft]

end Frame

/-! ## Whole frames -/

section Whole

variable {limit : Nat} {skip : Bool} {payload : ByteArray}

/-- A length, and then whatever follows. -/
theorem feed_bigEndian {length : Nat} (hsize : length < 2 ^ 32) (body : Octets) :
    (Progress.length skip []).feed limit (bigEndian 4 length ++ body) =
      feedAnnounced limit skip length body := by
  have hfour : (bigEndian 4 length).length = 4 := length_bigEndian 4 _
  have hnumber : ofBigEndian (bigEndian 4 length) = length := by
    rw [ofBigEndian_bigEndian]
    exact Nat.mod_eq_of_lt hsize
  simp only [feed, feedLength_eq, List.length_nil, Nat.sub_zero, List.take_left' hfour,
    List.drop_left' hfour, List.nil_append, hnumber]
  rw [if_neg (by rw [List.length_append]; omega)]

theorem feed_frameOctets (hsize : payload.size < 2 ^ 32) (rest : Octets) :
    (Progress.length skip []).feed limit (frameOctets payload ++ rest) =
      feedAnnounced limit skip payload.size (payload.octets ++ rest) := by
  rw [frameOctets, List.append_assoc, feed_bigEndian hsize]

/-- A frame within the limit is read, and what follows it is left. -/
theorem feed_frame (hlimit : payload.size ≤ limit) (hsize : payload.size < 2 ^ 32)
    (rest : Octets) :
    (Progress.length skip []).feed limit (frameOctets payload ++ rest) =
      .done (.ok (.ofPayload skip payload)) rest := by
  rw [feed_frameOctets hsize, feedAnnounced, if_neg (Nat.not_lt.mpr hlimit)]
  have hlength : payload.octets.length = payload.size := Octets.length_octets payload
  cases skip with
  | true => simp [feedSkipping, List.drop_left' hlength, Received.ofPayload]
  | false =>
      simp [feedPayload, List.drop_left' hlength, List.take_left' hlength, Received.ofPayload]

/-- The frame of a payload over the limit is refused at its length. -/
theorem feed_tooLarge (hlimit : limit < payload.size) (hsize : payload.size < 2 ^ 32)
    (rest : Octets) :
    (Progress.length skip []).feed limit (frameOctets payload ++ rest) =
      .done (.error (.invalidFrame (.tooLarge payload.size))) (payload.octets ++ rest) := by
  rw [feed_frameOctets hsize, feedAnnounced, if_pos hlimit]

/-- What a read has used is a frame within the limit, or the length of one that
is over it. -/
theorem frame_of_feed {used : Octets} {result : Except LinkError Received}
    (h : (Progress.length skip []).feed limit used = .done result []) :
    (∃ payload : ByteArray, payload.size ≤ limit ∧ payload.size < 2 ^ 32 ∧
        used = frameOctets payload ∧ result = .ok (.ofPayload skip payload)) ∨
      used.length = 4 ∧ ∃ length, result = .error (.invalidFrame (.tooLarge length)) := by
  simp only [feed, feedLength_eq, List.length_nil, Nat.sub_zero, List.nil_append] at h
  split at h
  · cases h
  · rename_i hlong
    have hfour : (used.take 4).length = 4 := by
      rw [List.length_take]
      omega
    obtain ⟨_, body, hbody, hend⟩ := feedAnnounced_of_done h []
    rw [List.append_nil] at hbody
    rcases hend with ⟨_, rfl, hresult⟩ | ⟨hlimit, hlength, hresult⟩
    · right
      have hdrop := congrArg List.length hbody
      rw [List.length_drop, List.length_nil] at hdrop
      exact ⟨by omega, _, hresult⟩
    · left
      have hsize : (Octets.toBytes body).size = ofBigEndian (used.take 4) := by simp [hlength]
      refine ⟨Octets.toBytes body, by omega, by rw [hsize]; exact ofBigEndian_lt hfour, ?_, hresult⟩
      rw [frameOctets, hsize, bigEndian_ofBigEndian hfour, Octets.octets_toBytes, ← hbody,
        List.take_append_drop]

/-- A read that is on its way, or was refused, has not seen a whole frame. -/
theorem no_frame_of_feed {octets : Octets}
    (h : (∃ p, (Progress.length skip []).feed limit octets = .more p) ∨
      ∃ error, (Progress.length skip []).feed limit octets = .done (.error error) [])
    (hsize : payload.size < 2 ^ 32) (rest : Octets) : octets ≠ frameOctets payload ++ rest := by
  rintro rfl
  by_cases hlimit : payload.size ≤ limit
  · rw [feed_frame hlimit hsize] at h
    rcases h with ⟨p, h⟩ | ⟨error, h⟩ <;> cases h
  · rw [feed_tooLarge (by omega) hsize] at h
    rcases h with ⟨p, h⟩ | ⟨error, h⟩
    · cases h
    · have hnil : payload.octets ++ rest = [] := (Fed.done.inj h).2
      have hlength := congrArg List.length hnil
      rw [List.length_append, Octets.length_octets, List.length_nil] at hlength
      omega

end Whole

end Progress

/-! ## Streams of frames -/

/-- Where one stream has two frames at its front, they are the same. -/
theorem frameOctets_inj {a b : ByteArray} {rest rest' : Octets} (ha : a.size < 2 ^ 32)
    (hb : b.size < 2 ^ 32) (h : frameOctets a ++ rest = frameOctets b ++ rest') :
    a = b ∧ rest = rest' := by
  simp only [frameOctets, List.append_assoc] at h
  obtain ⟨hlength, h⟩ := List.append_inj h (by simp)
  have hsize : a.size = b.size := by
    have hnumber := congrArg ofBigEndian hlength
    have hfirst : a.size % 256 ^ 4 = a.size := Nat.mod_eq_of_lt ha
    have hsecond : b.size % 256 ^ 4 = b.size := Nat.mod_eq_of_lt hb
    rwa [ofBigEndian_bigEndian, ofBigEndian_bigEndian, hfirst, hsecond] at hnumber
  obtain ⟨hoctets, hrest⟩ := List.append_inj h (by simp [hsize])
  refine ⟨?_, hrest⟩
  rw [← Octets.toBytes_octets a, hoctets, Octets.toBytes_octets]

/-- A stream that begins with some frames and is made of others has the first
at the front of the others. -/
theorem prefix_of_frames {frames others : List ByteArray} {rest : Octets}
    (hframes : ∀ payload ∈ frames, payload.size < 2 ^ 32)
    (hothers : ∀ payload ∈ others, payload.size < 2 ^ 32)
    (h : frames.flatMap frameOctets ++ rest = others.flatMap frameOctets) :
    ∃ left, others = frames ++ left ∧ rest = left.flatMap frameOctets := by
  induction frames generalizing others with
  | nil => exact ⟨others, rfl, h⟩
  | cons payload frames ih =>
      cases others with
      | nil =>
          have hlength := congrArg List.length h
          simp [frameOctets] at hlength
      | cons other others =>
          rw [List.flatMap_cons, List.flatMap_cons, List.append_assoc] at h
          obtain ⟨rfl, htail⟩ := frameOctets_inj (hframes payload List.mem_cons_self)
            (hothers other List.mem_cons_self) h
          obtain ⟨left, rfl, hrest⟩ := ih (fun q hq => hframes q (List.mem_cons_of_mem _ hq))
            (fun q hq => hothers q (List.mem_cons_of_mem _ hq)) htail
          exact ⟨left, rfl, hrest⟩

/-- Where the stream is made of frames within the limit, no read fails for what
it has found. -/
theorem no_error_of_frames {limit : Nat} {skip : Bool} {frames : List ByteArray}
    (hframes : ∀ payload ∈ frames, payload.size ≤ limit ∧ payload.size < 2 ^ 32)
    {octets rest : Octets} (h : octets ++ rest = frames.flatMap frameOctets) {error : LinkError} :
    (Progress.length skip []).feed limit octets ≠ .done (.error error) [] := by
  intro hfed
  have hstart : (Progress.length skip []).IsFrame := by simp [Progress.IsFrame]
  obtain ⟨hmore, used, hused, hpos⟩ := Progress.feed_of_done hstart hfed rest
  cases frames with
  | nil =>
      have hnil : octets = [] := (List.append_eq_nil_iff.mp h).1
      have hlength := congrArg List.length (hused.symm.trans hnil)
      rw [List.append_nil, List.length_nil] at hlength
      omega
  | cons payload frames =>
      obtain ⟨hlimit, hsize⟩ := hframes payload List.mem_cons_self
      rw [h, List.flatMap_cons, Progress.feed_frame hlimit hsize] at hmore
      cases hmore

end Switchboard
