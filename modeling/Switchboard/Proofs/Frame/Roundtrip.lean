import Switchboard.Proofs.Frame.Ledger
import Switchboard.Proofs.Frame.Orders
import Switchboard.Proofs.Frame.Segments

/-!
# Frames that are accepted are read back

A frame is accepted if it is no longer than the limit, and the limit is any number;
the length in front of a frame has four octets. Below 2 ^ 32 the two agree: what
was accepted is read back, frame for frame, and then the end of the stream. A longer
payload is accepted too, where the limit allows it, but what is in front of it is its
length modulo 2 ^ 32: the reader takes that much of it for the frame, and goes on with
a length inside the payload (`oneShot_frameOctets`). So frames are read back just
when all their lengths fit (`read_back_iff`).
-/

namespace Switchboard

/-! ## Frames in octets that are all there -/

/-- As much of a payload as the length in front of it says. -/
def announced (payload : ByteArray) : ByteArray :=
  Octets.toBytes (payload.octets.take (payload.size % 2 ^ 32))

/-- These payloads, each read as a frame. -/
def asFrames (payloads : List ByteArray) : List (Except LinkError Received) :=
  payloads.map fun payload => .ok (.frame payload)

/-- What reads of frames are to give: the payloads, and the end of the stream. -/
def readBack (payloads : List ByteArray) : List (Except LinkError Received) :=
  asFrames payloads ++ [.error .connectionClosed]

section Whole

variable {limit : Nat} {payload : ByteArray} {payloads : List ByteArray}

theorem ofBigEndian_take_frameOctets (payload : ByteArray) :
    ofBigEndian ((frameOctets payload).take 4) = payload.size % 2 ^ 32 := by
  rw [frameOctets, List.take_left' (length_bigEndian 4 payload.size)]
  exact ofBigEndian_bigEndian 4 payload.size

theorem size_announced (payload : ByteArray) :
    (announced payload).size = payload.size % 2 ^ 32 := by
  rw [announced, Octets.size_toBytes, List.length_take, Octets.length_octets]
  exact Nat.min_eq_left (Nat.mod_le _ _)

theorem announced_of_short (hshort : payload.size < 2 ^ 32) : announced payload = payload := by
  have hall : payload.octets.take (payload.size % 2 ^ 32) = payload.octets := by
    rw [Nat.mod_eq_of_lt hshort]
    exact List.take_of_length_le (Nat.le_of_eq (Octets.length_octets payload))
  rw [announced, hall, Octets.toBytes_octets]

/-- A frame is read as what its length announces, and the rest of its payload is
left to the reads that follow. -/
theorem oneShot_frameOctets (hlimit : payload.size ≤ limit) (rest : Octets) :
    oneShot limit .frame (frameOctets payload ++ rest) =
      (.ok (.frame (announced payload)),
        payload.octets.drop (payload.size % 2 ^ 32) ++ rest) := by
  refine oneShot_eq_iff.mpr ?_
  have hle : payload.size % 2 ^ 32 ≤ payload.size := Nat.mod_le _ _
  have hwritten : bigEndian 4 payload.size = bigEndian 4 (announced payload).size := by
    have hread := ofBigEndian_take_frameOctets payload
    rw [frameOctets, List.take_left' (length_bigEndian 4 payload.size)] at hread
    rw [size_announced, ← hread, bigEndian_ofBigEndian (length_bigEndian 4 payload.size)]
  have hsplit : frameOctets payload ++ rest = frameOctets (announced payload) ++
      (payload.octets.drop (payload.size % 2 ^ 32) ++ rest) := by
    rw [frameOctets, frameOctets, ← hwritten, announced, Octets.octets_toBytes]
    simp only [List.append_assoc, ← List.append_assoc (payload.octets.take _),
      List.take_append_drop]
  rw [hsplit]
  refine .whole (announced payload) _ ?_ ?_
  · rw [size_announced]
    exact Nat.le_trans hle hlimit
  · rw [size_announced]
    exact Nat.mod_lt _ (by decide)

/-- Frames whose lengths fit are read one after the other. -/
theorem oneShots_of_short (hlimit : ∀ payload ∈ payloads, payload.size ≤ limit)
    (hshort : ∀ payload ∈ payloads, payload.size < 2 ^ 32) (rest : Octets) :
    oneShots limit (List.replicate payloads.length .frame) (payloads.flatMap frameOctets ++ rest) =
      (asFrames payloads, rest) := by
  induction payloads with
  | nil => rfl
  | cons payload payloads ih =>
      obtain ⟨hfirstLimit, hlimit⟩ := List.forall_mem_cons.mp hlimit
      obtain ⟨hfirst, hshort⟩ := List.forall_mem_cons.mp hshort
      have hleft : payload.octets.drop (payload.size % 2 ^ 32) = [] := by
        rw [Nat.mod_eq_of_lt hfirst]
        exact List.drop_eq_nil_of_le (Nat.le_of_eq (Octets.length_octets payload))
      rw [List.flatMap_cons, List.append_assoc, List.length_cons, List.replicate_succ, oneShots,
        oneShot_frameOctets hfirstLimit, hleft, announced_of_short hfirst, List.nil_append]
      simp only [ih hlimit hshort, asFrames, List.map_cons]

/-- Behind the frames the stream ends. -/
theorem oneShots_readBack (hlimit : ∀ payload ∈ payloads, payload.size ≤ limit)
    (hshort : ∀ payload ∈ payloads, payload.size < 2 ^ 32) :
    (oneShots limit (List.replicate (payloads.length + 1) .frame)
      (payloads.flatMap frameOctets)).1 = readBack payloads := by
  have hframes := oneShots_of_short hlimit hshort []
  rw [List.append_nil] at hframes
  rw [List.replicate_succ', oneShots_append, hframes]
  rfl

/-- Up to the first payload whose length does not fit, the frames are read as they
were written, and that one is cut short. -/
theorem oneShots_of_long {early late : List ByteArray}
    (hlimit : ∀ q ∈ early ++ payload :: late, q.size ≤ limit)
    (hshort : ∀ q ∈ early, q.size < 2 ^ 32) :
    asFrames (early ++ [announced payload]) <+:
      (oneShots limit (List.replicate ((early ++ payload :: late).length + 1) .frame)
        ((early ++ payload :: late).flatMap frameOctets)).1 := by
  have hearly : ∀ q ∈ early, q.size ≤ limit := fun q hq => hlimit q (List.mem_append_left _ hq)
  have hpayload : payload.size ≤ limit :=
    hlimit payload (List.mem_append_right early List.mem_cons_self)
  have hkinds : List.replicate ((early ++ payload :: late).length + 1) ReadKind.frame =
      List.replicate early.length ReadKind.frame ++
        ReadKind.frame :: List.replicate (late.length + 1) ReadKind.frame := by
    rw [← List.replicate_succ, List.replicate_append_replicate, List.length_append,
      List.length_cons, Nat.add_assoc]
  rw [hkinds, List.flatMap_append, List.flatMap_cons, oneShots_append,
    oneShots_of_short hearly hshort, oneShots, oneShot_frameOctets hpayload, asFrames,
    List.map_append]
  exact (List.prefix_append_right_inj _).mpr (List.prefix_append [_] _)

/-- No payload that is read is longer than a length of four octets can say. -/
theorem short_of_mem_oneShots {kinds : List ReadKind} {octets : Octets}
    (h : .ok (.frame payload) ∈ (oneShots limit kinds octets).1) : payload.size < 2 ^ 32 := by
  induction kinds generalizing octets with
  | nil => cases h
  | cons kind kinds ih =>
      rcases hfirst : oneShot limit kind octets with ⟨result, rest⟩
      simp only [oneShots, hfirst] at h
      rcases List.mem_cons.mp h with heq | hmem
      · have hparses := oneShot_eq_iff.mp hfirst
        rw [← heq] at hparses
        generalize hresult : (Except.ok (Received.frame payload) : Except LinkError Received) = read
          at hparses
        cases kind with
        | frame =>
            cases hparses with
            | whole other _ _ hsize =>
                cases hresult
                exact hsize
            | tooLarge | cutLength | cutPayload => cases hresult
        | skip => cases hparses <;> cases hresult
        | line => cases hparses <;> cases hresult
      · exact ih hmem

end Whole

/-! ## Frames that come in pieces -/

/-- However these octets come, in whatever pieces and with whatever silences, and
then the end of the stream, and whenever the attempts to read are made: reads of
frames, as many as there are results, all come to an end and give these results, if
none is given up because it takes too long. -/
def ReadsAs (limit : Nat) (octets : Octets) (results : List (Except LinkError Received)) : Prop :=
  ∀ (f : Framed Script) (clock : Nat → Nat), f.inbound.reading = none → f.inbound.limit = limit →
    Incoming.EndsWell f.link.incoming → f.unread [] = octets →
    (∀ time, ∃ n, ∀ m ≥ n, time ≤ clock m) →
    ∃ n, ∀ m ≥ n, ∀ r : Reader,
      r = Reader.run clock { codec := f, todo := List.replicate results.length .frame } m →
      r.todo = [] ∧ (f.inbound.patience = none ∨ r.InTime → r.results = results)

section ReadsAs

variable {limit : Nat} {octets : Octets} {results : List (Except LinkError Received)}

/-- What comes in pieces is read as if it were all there. -/
theorem readsAs_oneShots (limit count : Nat) (octets : Octets) :
    ReadsAs limit octets (oneShots limit (List.replicate count .frame) octets).1 := by
  rintro f clock hidle rfl hends rfl hclock
  rw [length_oneShots, List.length_replicate]
  obtain ⟨n, hn⟩ := Reader.exists_read_all hidle hends (List.replicate count .frame) hclock
  refine ⟨n, ?_⟩
  rintro m hm _ rfl
  obtain ⟨htodo, hread⟩ := hn m hm _ rfl
  refine ⟨htodo, fun htime => ?_⟩
  have hinTime := htime.elim (fun hpatience => Reader.inTime_run hidle hends hpatience m) id
  exact (congrArg Prod.fst (hread hinTime)).symm

/-- There is one way to read octets that come. -/
theorem ReadsAs.eq_oneShots (h : ReadsAs limit octets results) :
    results = (oneShots limit (List.replicate results.length .frame) octets).1 := by
  -- All octets come at once, and the clock runs evenly.
  let f : Framed Script :=
    { link := { incoming := [.data octets, .ended] }, inbound := { limit } }
  have hends : Incoming.EndsWell f.link.incoming := ⟨by simp [f], by simp [f]⟩
  have hunread : f.unread [] = octets := by
    simp [f, Framed.unread, Incoming.octets]
  have hclock : ∀ time : Nat, ∃ n, ∀ m ≥ n, time ≤ id m := fun time => ⟨time, fun _ hm => hm⟩
  obtain ⟨n, hn⟩ := h f id rfl rfl hends hunread hclock
  obtain ⟨n', hn'⟩ := readsAs_oneShots limit results.length octets f id rfl rfl hends hunread hclock
  rw [length_oneShots, List.length_replicate] at hn'
  have hgot := (hn (max n n') (Nat.le_max_left _ _) _ rfl).2 (.inl rfl)
  have hgot' := (hn' (max n n') (Nat.le_max_right _ _) _ rfl).2 (.inl rfl)
  exact hgot.symm.trans hgot'

end ReadsAs

/-! ## What was accepted -/

/-- The frames of an order that sends nothing else. -/
theorem Order.octets_eq_frames {order : Order}
    (horder : ∀ octets, order ≠ .encoded (.raw octets)) {s : Sending}
    (hsending : order.sending = .ok s) : order.octets = s.payloads.flatMap frameOctets := by
  rw [octets, hsending]
  refine s.octets_eq_frames ?_
  rintro octets rfl
  rcases sending_cases hsending with hraw | ⟨_, hframe⟩ | ⟨_, hframes⟩
  · exact horder octets hraw
  · cases hframe
  · cases hframes

/-- The payloads of an order that was carried out. -/
def Entry.accepted (e : Entry) : List ByteArray :=
  if e.isDone then e.order.payloads.toOption.getD [] else []

namespace Desk

/-- An order that sends nothing but frames, and was carried out or refused. -/
def Framing (limit : Nat) (e : Entry) : Prop :=
  (∀ octets, e.order ≠ .encoded (.raw octets)) ∧
    (e.isDone = true ∨ ∃ error, e.order.refusal limit = some error)

section Accepted

variable {limit : Nat} {e : Entry} {piece : Octets}

/-- What was laid down of the order are the frames that were accepted, none of
which is longer than the limit. -/
theorem Lays.accepted (h : Lays limit e piece) (hframing : Framing limit e) :
    piece = e.accepted.flatMap frameOctets ∧ ∀ payload ∈ e.accepted, payload.size ≤ limit := by
  obtain ⟨hframes, hends⟩ := hframing
  cases h with
  | refused => simp [Entry.accepted, Entry.isDone, Except.isOk, Except.toBool]
  | @done order hrefusal =>
      obtain ⟨s, hsending⟩ := Order.sending_of_refusal hrefusal
      have haccepted : Entry.accepted ⟨order, some (order.reply (.ok ()))⟩ = s.payloads := by
        simp [Entry.accepted, Entry.isDone, Except.isOk, Except.toBool, Order.payloads_eq, hsending,
          Except.map, Except.toOption]
      rw [haccepted]
      exact ⟨Order.octets_eq_frames hframes hsending,
        (Order.refusal_eq_none_iff hsending).mp hrefusal⟩
  | failed hrefusal | left hrefusal =>
      simp [Entry.isDone, Except.isOk, Except.toBool, hrefusal] at hends

theorem accepted_of_lays {entries : List Entry} {pieces : List Octets}
    (h : List.Forall₂ (Lays limit) entries pieces) (hframing : ∀ e ∈ entries, Framing limit e) :
    pieces.flatten = (entries.flatMap Entry.accepted).flatMap frameOctets ∧
      ∀ payload ∈ entries.flatMap Entry.accepted, payload.size ≤ limit := by
  induction h with
  | nil => exact ⟨rfl, by simp⟩
  | cons hlays _ ih =>
      obtain ⟨hfirst, hrest⟩ := List.forall_mem_cons.mp hframing
      obtain ⟨hpiece, hsmall⟩ := hlays.accepted hfirst
      obtain ⟨hpieces, hsmalls⟩ := ih hrest
      rw [List.flatMap_cons, List.flatMap_append, List.flatten_cons, hpiece, hpieces]
      refine ⟨rfl, fun payload hmem => ?_⟩
      exact (List.mem_append.mp hmem).elim (hsmall payload) (hsmalls payload)

end Accepted

/-! ## A whole run -/

/-- A writing half sends frames, alone or several together, over a connection that
does whatever it likes, and each order is done or refused; then it flushes, and
the connection takes something at every attempt. The flush gets done, and what the
connection took are the frames that were accepted. However they come to a reader
with the same limit, these are the payloads it gives, in order, and then the end of
the stream, if no payload is as long as 2 ^ 32, which is just when every length in
front of a frame is the length of the payload. Otherwise the first payload that is as
long as that is given cut short. -/
theorem read_back_iff (link : Script) (inbound : Inbound) (limit : Nat) (patience : Option Nat)
    (moves : List (Move Script)) (htame : Tame moves) (d : Desk Script)
    (hd : d = run { framed := { link, inbound, outbound := { limit, patience } } } moves)
    (hkept : .abort ∉ moves) (hidle : d.current = none) (hflush : d.framed.link.flushError = none)
    (hframing : ∀ e ∈ d.entries, Framing limit e) (payloads : List ByteArray)
    (hpayloads : payloads = d.entries.flatMap Entry.accepted) :
    (∀ payload ∈ payloads, payload.size ≤ limit ∧
      (ofBigEndian ((frameOctets payload).take 4) = payload.size ↔ payload.size < 2 ^ 32)) ∧
    (∀ now, ∃ enough, ∀ chances : List (Nat × Option Nat), enough ≤ chances.length →
      (∀ chance ∈ chances, chance.2 ≠ some 0) →
      (d.run (.call (.encoded .flush) now :: attempts chances)).Sent (.encoded .flush) d.entries
        (link.taken ++ payloads.flatMap frameOctets)) ∧
    ∃ results, ReadsAs limit (payloads.flatMap frameOctets) results ∧
      results.length = payloads.length + 1 ∧
      (results = readBack payloads ↔ ∀ payload ∈ payloads, payload.size < 2 ^ 32) ∧
      ∀ early payload late, payloads = early ++ payload :: late →
        (∀ q ∈ early, q.size < 2 ^ 32) → 2 ^ 32 ≤ payload.size →
        asFrames (early ++ [announced payload]) <+: results ∧
          (announced payload).size < payload.size := by
  subst hd
  obtain ⟨pieces, part, h⟩ := balances_run htame link inbound limit patience
  have hlive := aborted_run (d := { framed := { link, inbound, outbound := { limit, patience } } })
    hkept
  have htight := isTight_run (d := { framed := { link, inbound, outbound := { limit, patience } } })
    (.inl rfl) moves
  generalize run { framed := { link, inbound, outbound := { limit, patience } } } moves = d at *
  obtain ⟨hpieces, hlimit⟩ := accepted_of_lays h.finished hframing
  rw [← hpayloads] at hpieces hlimit
  obtain ⟨hwriting, rfl⟩ := h.idle hidle
  have hbalance := h.balance hlive
  rw [List.append_nil, hpieces] at hbalance
  refine ⟨fun payload hmem => ⟨hlimit payload hmem, ?_⟩, ?_, _,
    readsAs_oneShots limit (payloads.length + 1) _, ?_, ?_, ?_⟩
  · rw [ofBigEndian_take_frameOctets]
    exact Nat.mod_eq_iff_lt (by decide)
  · intro now
    have hsends := sends_call (s := .flush) (Eq.refl (Order.encoded .flush).sending) nofun rfl htight
      hlive hflush now
    rw [leave_idle hidle hwriting, hbalance, Sending.octets, List.append_nil] at hsends
    exact ⟨_, fun chances henough hcredit => hsends.run hcredit henough⟩
  · rw [length_oneShots, List.length_replicate]
  · refine ⟨fun hread payload hmem => ?_, oneShots_readBack hlimit⟩
    have hgiven : .ok (.frame payload) ∈ readBack payloads :=
      List.mem_append_left _ (List.mem_map_of_mem hmem)
    rw [← hread] at hgiven
    exact short_of_mem_oneShots hgiven
  · rintro early payload late rfl hshort hlong
    refine ⟨oneShots_of_long hlimit hshort, ?_⟩
    rw [size_announced]
    exact Nat.lt_of_lt_of_le (Nat.mod_lt _ (by decide)) hlong

/-- One frame is written, one is refused because it is longer than two octets, and a
list of two is written. -/
def threeFrames : Desk Script :=
  run { framed := { link := {}, outbound := { limit := 2 } } }
    [.call (.encoded (.frame ⟨#[104, 105]⟩)) 0, .step 0, .step 0, .step 0, .step 0,
      .call (.encoded (.frame ⟨#[104, 101, 121]⟩)) 0,
      .call (.encoded (.frames [.empty, ⟨#[7]⟩])) 0, .step 0, .step 0, .step 0, .step 0, .step 0,
      .step 0, .step 0, .step 0, .step 0, .step 0]

theorem read_back_threeFrames :
    (∀ now, ∃ enough, ∀ chances : List (Nat × Option Nat), enough ≤ chances.length →
      (∀ chance ∈ chances, chance.2 ≠ some 0) →
      (threeFrames.run (.call (.encoded .flush) now :: attempts chances)).Sent (.encoded .flush)
        threeFrames.entries [0, 0, 0, 2, 104, 105, 0, 0, 0, 0, 0, 0, 0, 1, 7]) ∧
    ReadsAs 2 [0, 0, 0, 2, 104, 105, 0, 0, 0, 0, 0, 0, 0, 1, 7]
      [.ok (.frame ⟨#[104, 105]⟩), .ok (.frame .empty), .ok (.frame ⟨#[7]⟩),
        .error .connectionClosed] := by
  have hentries : threeFrames.entries =
      [⟨.encoded (.frame ⟨#[104, 105]⟩), some (.sending (.ok ()))⟩,
        ⟨.encoded (.frame ⟨#[104, 101, 121]⟩),
          some (.sending (.error (.invalidFrame (.tooLarge 3))))⟩,
        ⟨.encoded (.frames [.empty, ⟨#[7]⟩]), some (.sending (.ok ()))⟩] := rfl
  have hframing : ∀ e ∈ threeFrames.entries, Framing 2 e := by
    rw [hentries]
    refine List.forall_mem_cons.mpr ⟨⟨by simp, .inl rfl⟩, List.forall_mem_cons.mpr ⟨⟨by simp, ?_⟩,
      List.forall_mem_singleton.mpr ⟨by simp, .inl rfl⟩⟩⟩
    exact .inr ⟨.invalidFrame (.tooLarge 3), rfl⟩
  obtain ⟨-, hflushed, results, hread, -, hshort, -⟩ := read_back_iff {} {} 2 none _ (by simp [Tame])
    threeFrames rfl (by simp) rfl rfl hframing [⟨#[104, 105]⟩, .empty, ⟨#[7]⟩]
    (by rw [hentries]; rfl)
  have hall := hshort.mpr (by decide)
  rw [hall] at hread
  exact ⟨hflushed, hread⟩

/-- So many octets of nothing. -/
def zeros (count : Nat) : ByteArray := ⟨Array.replicate count 0⟩

theorem size_zeros (count : Nat) : (zeros count).size = count := Array.size_replicate

/-- A frame and a flush, with as many attempts as they take on a connection that
takes everything. -/
def frameAndFlush (payload : ByteArray) : List (Move Script) :=
  [.call (.encoded (.frame payload)) 0, .step 0, .step 0, .step 0, .step 0, .step 0, .step 0,
    .call (.encoded .flush) 0, .step 0, .step 0, .step 0]

/-- A payload that does not fit into the buffer goes to the connection behind its
length. -/
theorem run_frameAndFlush {limit : Nat} {payload : ByteArray} (hlong : bufferSize ≤ payload.size)
    (hlimit : payload.size ≤ limit) :
    run { framed := { link := {}, outbound := { limit } } } (frameAndFlush payload) =
      { framed := { link := { taken := frameOctets payload }, outbound := { limit } }
        entries := [⟨.encoded (.frame payload), some (.sending (.ok ()))⟩,
          ⟨.encoded .flush, some (.sending (.ok ()))⟩] } := by
  have hlength : payload.octets.length = payload.size := Octets.length_octets payload
  have hsome : payload.size ≠ 0 := Nat.ne_of_gt (Nat.lt_of_lt_of_le (by decide) hlong)
  have htake : payload.octets.take payload.size = payload.octets := by
    rw [← hlength, List.take_length]
  have hdrop : payload.octets.drop payload.size = [] := by
    rw [← hlength, List.drop_length]
  -- The length fits into the buffer, and the payload neither behind it nor alone.
  have hfits : 0 + 4 ≤ bufferSize ∧ 4 < bufferSize := by decide
  have hbehind : ¬ (4 + payload.size ≤ bufferSize) := by omega
  have halone : ¬ (payload.size ≤ bufferSize ∧ payload.size < bufferSize) := by omega
  obtain ⟨a, b, c, e, hwritten⟩ : ∃ a b c e, bigEndian 4 payload.size = [a, b, c, e] :=
    ⟨_, _, _, _, rfl⟩
  have hframe : run { framed := { link := {}, outbound := { limit } } }
      ((frameAndFlush payload).take 7) =
        { framed := { link := { taken := frameOctets payload }, outbound := { limit } }
          entries := [⟨.encoded (.frame payload), some (.sending (.ok ()))⟩] } := by
    simp [frameAndFlush, run, move, leave, attempt, Framed.carryOut, Framed.send, Order.sending,
      Except.bind, Poll.map, Outbound.start, Sending.oversized, Nat.not_lt.mpr hlimit,
      Sending.parts, framePart, Outbound.step, Outbound.proceed, Outbound.add, Outbound.writeOut,
      Outbound.writeDirect, Outbound.compact, Outbound.cancel, Script.write_eq, Script.room,
      hwritten, hsome, hfits, hbehind, halone, hlength, htake, hdrop, frameOctets]
  rw [← List.take_append_drop 7 (frameAndFlush payload), run_append, hframe]
  rfl

/-- One octet more than a length of four octets can say, and a limit that lets it
through. -/
def overlong : Desk Script :=
  run { framed := { link := {}, outbound := { limit := 2 ^ 32 } } } (frameAndFlush (zeros (2 ^ 32)))

/-- A payload of 2 ^ 32 octets is accepted and sent, behind a length of zero, and it
is not read back. -/
theorem overlong_not_read_back :
    overlong.entries = [⟨.encoded (.frame (zeros (2 ^ 32))), some (.sending (.ok ()))⟩,
        ⟨.encoded .flush, some (.sending (.ok ()))⟩] ∧
      overlong.framed.link.taken = [0, 0, 0, 0] ++ (zeros (2 ^ 32)).octets ∧
      ¬ ReadsAs (2 ^ 32) overlong.framed.link.taken
        [.ok (.frame (zeros (2 ^ 32))), .error .connectionClosed] := by
  have hsize := size_zeros (2 ^ 32)
  have hlong : bufferSize ≤ (zeros (2 ^ 32)).size := by
    rw [hsize]
    decide
  rw [overlong, run_frameAndFlush hlong (Nat.le_of_eq hsize)]
  refine ⟨rfl, ?_, fun hread => ?_⟩
  · have hlength : bigEndian 4 (2 ^ 32) = [0, 0, 0, 0] := by decide
    show frameOctets (zeros (2 ^ 32)) = _
    rw [frameOctets, hsize, hlength]
  · have hgiven : .ok (.frame (zeros (2 ^ 32))) ∈ (oneShots (2 ^ 32) _ _).1 :=
      hread.eq_oneShots ▸ List.mem_cons_self
    have hshort := short_of_mem_oneShots hgiven
    rw [hsize] at hshort
    exact Nat.lt_irrefl _ hshort

end Desk

end Switchboard
