import Switchboard.Proofs.Client.Smooth

/-!
# The other side of a connection

A service takes the octets of a connection apart into frames, reads the frames
two by two as requests (`queries`), and answers each with a frame for the header
and one for the body. It hears one octet after the other, so that what it has
heard does not depend on how they come, and more octets never change what was
heard (`queries_mono`). Of the requests that a client lays down it hears those
that can be sent, and nothing else (`queries_of_parcels`).
-/

namespace Switchboard

/-! ## Hearing requests -/

/-- A request as the other side reads it. -/
structure Query where
  request : Wire.Request
  /-- The payload that holds the arguments. -/
  args : ByteArray

/-- What was heard of a stream of frames. -/
structure Hearing where
  frames : List ByteArray := []
  /-- How far the next frame has come, unless the stream could not be read. -/
  progress : Option Progress := some (.start .frame)

/-- No length that a frame can announce is longer. -/
def longestFrame : Nat := 2 ^ 32

/-- One more octet is heard. -/
def Hearing.hear (h : Hearing) (octet : UInt8) : Hearing :=
  match h.progress with
  | none => h
  | some p =>
      match p.feed longestFrame [octet] with
      | .more p => { h with progress := some p }
      | .done (.ok (.frame payload)) _ => { frames := h.frames ++ [payload] }
      | .done _ _ => { h with progress := none }

/-- The frames that some octets hold as a whole. -/
def wholeFrames (octets : Octets) : List ByteArray := (octets.foldl Hearing.hear {}).frames

/-- Frames read two by two, up to one that is no header of a request. -/
def Query.ofFrames : List ByteArray → List Query
  | header :: args :: frames =>
      match Wire.Request.decode header with
      | .ok request => ⟨request, args⟩ :: ofFrames frames
      | .error _ => []
  | [_] | [] => []

/-- The requests that some octets hold as a whole. -/
def queries (octets : Octets) : List Query := Query.ofFrames (wholeFrames octets)

namespace Hearing

theorem frames_foldl (octets : Octets) (h : Hearing) :
    h.frames <+: (octets.foldl hear h).frames := by
  induction octets generalizing h with
  | nil => exact List.prefix_rfl
  | cons octet octets ih =>
      refine List.IsPrefix.trans ?_ (ih (h.hear octet))
      unfold hear
      split
      · exact List.prefix_rfl
      · split
        · exact List.prefix_rfl
        · exact List.prefix_append _ _
        · exact List.prefix_rfl

/-- The octets that finish a frame, behind those that did not. -/
theorem foldl_of_frame {seen octets : Octets} {p : Progress} {payload : ByteArray}
    (frames : List ByteArray)
    (hseen : (Progress.length false []).feed longestFrame seen = .more p)
    (hall : (Progress.length false []).feed longestFrame (seen ++ octets) =
      .done (.ok (.frame payload)) []) :
    octets.foldl hear { frames, progress := some p } = { frames := frames ++ [payload] } := by
  have hstart : (Progress.length false []).IsFrame := by simp [Progress.IsFrame]
  induction octets generalizing seen p with
  | nil =>
      rw [List.append_nil, hseen] at hall
      cases hall
  | cons octet octets ih =>
      have hnext := (Progress.feed_of_more hstart hseen [octet]).1
      rw [List.append_cons] at hall
      rw [List.foldl_cons]
      cases hfed : p.feed longestFrame [octet] with
      | more q =>
          have hheard : hear { frames, progress := some p } octet =
              { frames, progress := some q } := by
            simp only [hear, hfed]
          rw [hheard]
          exact ih (hnext.trans hfed) hall
      | done result rest =>
          -- The frame is whole, so no octet is left.
          have hwhole := (Progress.feed_of_done hstart (hnext.trans hfed) octets).1
          rw [hall] at hwhole
          obtain ⟨hresult, hrest⟩ := Fed.done.inj hwhole
          obtain ⟨_, rfl⟩ := List.append_eq_nil_iff.mp hrest.symm
          simp only [List.foldl_nil, hear, hfed, ← hresult]

theorem foldl_frameOctets {payload : ByteArray} (h : payload.size < 2 ^ 32)
    (frames : List ByteArray) :
    (frameOctets payload).foldl hear { frames } = { frames := frames ++ [payload] } := by
  have hnone : (Progress.length false []).feed longestFrame [] = .more (.length false []) := rfl
  have hall : (Progress.length false []).feed longestFrame (frameOctets payload ++ []) =
      .done (.ok (.frame payload)) [] := Progress.feed_frame (Nat.le_of_lt h) h []
  rw [List.append_nil] at hall
  exact foldl_of_frame frames hnone hall

end Hearing

theorem wholeFrames_mono {octets octets' : Octets} (h : octets <+: octets') :
    wholeFrames octets <+: wholeFrames octets' := by
  obtain ⟨more, rfl⟩ := h
  rw [wholeFrames, wholeFrames, List.foldl_append]
  exact Hearing.frames_foldl _ _

theorem wholeFrames_flatMap {frames : List ByteArray}
    (h : ∀ payload ∈ frames, payload.size < 2 ^ 32) :
    wholeFrames (frames.flatMap frameOctets) = frames := by
  have hall (earlier : List ByteArray) :
      (frames.flatMap frameOctets).foldl Hearing.hear { frames := earlier } =
        { frames := earlier ++ frames } := by
    induction frames generalizing earlier with
    | nil => rw [List.flatMap_nil, List.foldl_nil, List.append_nil]
    | cons payload frames ih =>
        rw [List.flatMap_cons, List.foldl_append,
          Hearing.foldl_frameOctets (h payload List.mem_cons_self),
          ih fun q hq => h q (List.mem_cons_of_mem _ hq), List.append_assoc]
        rfl
  exact congrArg Hearing.frames (hall [])

theorem Query.ofFrames_mono {frames frames' : List ByteArray} (h : frames <+: frames') :
    ofFrames frames <+: ofFrames frames' := by
  obtain ⟨more, rfl⟩ := h
  fun_induction ofFrames frames with
  | case1 header args frames request hdecode ih =>
      simp only [List.cons_append, ofFrames, hdecode]
      exact (List.prefix_cons_inj _).mpr ih
  | case2 => exact List.nil_prefix
  | case3 => exact List.nil_prefix
  | case4 => exact List.nil_prefix

/-- What was heard stays. -/
theorem queries_mono {octets octets' : Octets} (h : octets <+: octets') :
    queries octets <+: queries octets' :=
  Query.ofFrames_mono (wholeFrames_mono h)

/-! ## What is heard of a client -/

namespace Parcel

/-- What the other side reads of a request, if it can be sent. -/
def query (limit : Nat) (p : Parcel) : Option Query :=
  match p.unit limit with
  | .ok (_, args) => some ⟨p.request, args⟩
  | .error _ => none

theorem query_eq_some {limit : Nat} {p : Parcel} {q : Query} (h : p.query limit = some q) :
    ∃ header, p.unit limit = .ok (header, q.args) ∧ q.request = p.request := by
  unfold query at h
  cases hunit : p.unit limit with
  | error error =>
      rw [hunit] at h
      cases h
  | ok payloads =>
      rw [hunit] at h
      cases h
      exact ⟨payloads.1, rfl, rfl⟩

theorem query_of_unit {limit : Nat} {p : Parcel} {header args : ByteArray}
    (h : p.unit limit = .ok (header, args)) : p.query limit = some ⟨p.request, args⟩ := by
  simp only [query, h]

theorem query_eq_none {limit : Nat} {p : Parcel} (h : p.query limit = none) :
    ∃ error, p.unit limit = .error error := by
  unfold query at h
  cases hunit : p.unit limit with
  | error error => exact ⟨error, rfl⟩
  | ok payloads =>
      rw [hunit] at h
      cases h

end Parcel

theorem Query.ofFrames_parcels (limit : Nat) (parcels : List Parcel) :
    ofFrames (parcels.flatMap (·.frames limit)) = parcels.filterMap (·.query limit) := by
  induction parcels with
  | nil => rfl
  | cons p parcels ih =>
      rw [List.flatMap_cons, Parcel.frames]
      cases hunit : p.unit limit with
      | error error =>
          have hnone : p.query limit = none := by simp only [Parcel.query, hunit]
          rw [List.filterMap_cons_none hnone]
          exact ih
      | ok payloads =>
          obtain ⟨header, args⟩ := payloads
          have hdecode := Wire.Request.decode_encode (Parcel.unit_eq_ok_iff.mp hunit).1
          rw [List.filterMap_cons_some (Parcel.query_of_unit hunit), ← ih]
          simp only [List.cons_append, List.nil_append, ofFrames, hdecode]

/-- Of requests that are laid down one behind the other, those that can be sent are
heard, in order. -/
theorem queries_of_parcels (limit : Nat) (parcels : List Parcel) :
    queries (parcels.flatMap (·.octets limit)) = parcels.filterMap (·.query limit) := by
  have hoctets : parcels.flatMap (·.octets limit) =
      (parcels.flatMap (·.frames limit)).flatMap frameOctets := by
    rw [List.flatMap_assoc]
    exact List.flatMap_congr fun p _ => p.octets_eq_frames limit
  have hsmall : ∀ payload ∈ parcels.flatMap (·.frames limit), payload.size < 2 ^ 32 := by
    intro payload hpayload
    obtain ⟨p, _, hp⟩ := List.mem_flatMap.mp hpayload
    exact Parcel.size_of_frames hp
  rw [queries, hoctets, wholeFrames_flatMap hsmall, Query.ofFrames_parcels]

/-! ## Answering -/

/-- How a service answers. -/
structure Service where
  /-- What becomes of a method that is called with the arguments in a payload: an
  error text, or the reply. -/
  answer : String → ByteArray → Except String Wire.Value
  /-- The method that stands in the header of an answer. -/
  title : Query → String
  /-- What follows the header of an error answer. -/
  remainder : Query → ByteArray

namespace Service

/-- The payloads of the answer to a request: the header and the body. -/
def payloads (v : Service) (q : Query) : Except EncodeFault (ByteArray × ByteArray) :=
  match v.answer q.request.method q.args with
  | .ok reply => do
      return (← Wire.encode (Wire.Response.value ⟨v.title q, q.request.seq, ""⟩),
        ← Wire.encode reply)
  | .error text => do
      return (← Wire.encode (Wire.Response.value ⟨v.title q, q.request.seq, text⟩),
        v.remainder q)

/-- The frames of the answer to a request. -/
def frames (v : Service) (q : Query) : List ByteArray :=
  match v.payloads q with
  | .ok (header, body) => [header, body]
  | .error _ => []

/-- What a call comes to: what the service answers to it, or the failure of its
request if that cannot be sent. -/
def outcome (v : Service) (limit : Nat) (p : Pending) : Except CallError Wire.Value :=
  match p.parcel.unit limit with
  | .ok (_, args) => (v.answer p.call.method args).mapError .server
  | .error error => .error (.ofLink error)

/-- The answer to a request has frames that may be read. -/
def Fits (v : Service) (limit : Nat) (q : Query) : Prop :=
  ∃ header body, v.payloads q = .ok (header, body) ∧ header.size ≤ limit ∧
    body.size ≤ limit ∧ body.size < 2 ^ 32

/-- The service answers a request in frames that fit, with an error text or with a
reply of the shape that is expected. -/
structure Suits (v : Service) (limit : Nat) (shape : Wire.Shape) (q : Query) : Prop where
  fits : v.Fits limit q
  reply : ∀ reply, v.answer q.request.method q.args = .ok reply → shape.admits reply
  error : ∀ text, v.answer q.request.method q.args = .error text → text ≠ ""

/-- A service that reads the arguments of each method in one shape, and computes
with them. -/
def reading (shapes : String → Wire.Shape)
    (f : String → Wire.Value → Except String Wire.Value) : Service where
  answer method payload :=
    match Wire.decode (shapes method) payload with
    | .ok args => f method args
    | .error _ => .error "the arguments cannot be read"
  title q := q.request.method
  remainder _ := .empty

variable {v : Service} {limit : Nat} {shape : Wire.Shape} {q : Query}

theorem Suits.of_reply {reply : Wire.Value} (fits : v.Fits limit q)
    (hanswer : v.answer q.request.method q.args = .ok reply) (hadmits : shape.admits reply) :
    v.Suits limit shape q where
  fits := fits
  reply _ h := Except.ok.inj (hanswer.symm.trans h) ▸ hadmits
  error _ h := nomatch hanswer.symm.trans h

theorem Suits.of_error {text : String} (fits : v.Fits limit q)
    (hanswer : v.answer q.request.method q.args = .error text) (htext : text ≠ "") :
    v.Suits limit shape q where
  fits := fits
  reply _ h := nomatch hanswer.symm.trans h
  error _ h := Except.error.inj (hanswer.symm.trans h) ▸ htext

/-- The two frames of an answer, as who waits for it reads them. -/
theorem Suits.frames_eq (h : v.Suits limit shape q) :
    ∃ header body response, v.frames q = [header, body] ∧
      (∀ payload ∈ v.frames q, payload.size ≤ limit ∧ payload.size < 2 ^ 32) ∧
      Wire.Response.decode header = .ok response ∧ response.seq = q.request.seq ∧
      ((∃ reply, v.answer q.request.method q.args = .ok reply ∧ response.remoteError = none ∧
          Wire.decode shape body = .ok reply) ∨
        ∃ text, v.answer q.request.method q.args = .error text ∧
          response.remoteError = some text) := by
  obtain ⟨header, body, hpayloads, hheader, hbody, hshort⟩ := h.fits
  have hframes : v.frames q = [header, body] := by simp only [frames, hpayloads]
  have hsizes (hsize : header.size < 2 ^ 32) :
      ∀ payload ∈ v.frames q, payload.size ≤ limit ∧ payload.size < 2 ^ 32 := by
    intro payload hpayload
    rw [hframes] at hpayload
    simp only [List.mem_cons, List.not_mem_nil, or_false] at hpayload
    rcases hpayload with rfl | rfl
    · exact ⟨hheader, hsize⟩
    · exact ⟨hbody, hshort⟩
  unfold payloads at hpayloads
  cases hanswer : v.answer q.request.method q.args with
  | ok reply =>
      rw [hanswer] at hpayloads
      obtain ⟨header', hencode, hrest⟩ := Wire.bind_eq_ok.mp hpayloads
      obtain ⟨body', hencode', hpair⟩ := Wire.bind_eq_ok.mp hrest
      cases hpair
      exact ⟨header, body, _, hframes, hsizes (Wire.size_lt_of_encode hencode),
        Wire.Response.decode_encode hencode, rfl,
        .inl ⟨reply, rfl, rfl, Wire.decode_encode (h.reply reply hanswer) hencode'⟩⟩
  | error text =>
      rw [hanswer] at hpayloads
      obtain ⟨header', hencode, hpair⟩ := Wire.bind_eq_ok.mp hpayloads
      cases hpair
      have htext : text.isEmpty = false := by
        simpa using h.error text hanswer
      refine ⟨header, _, _, hframes, hsizes (Wire.size_lt_of_encode hencode),
        Wire.Response.decode_encode hencode, rfl, .inr ⟨text, rfl, ?_⟩⟩
      simp [Wire.Response.remoteError, htext]

end Service

end Switchboard
