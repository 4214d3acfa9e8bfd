import Switchboard.Proofs.Client.Service

/-!
# What a quiet life comes to

A client of a new connection (`Opening`) that nobody closes, whose connection
never fails and whose operations are in time leads a quiet life (`Quiet`). What
the connection has taken is then the beginning of the requests of registered
calls, each once, one behind the other (`Quiet.stream`), so the other side hears
of a registered call at most once and of nothing else (`Quiet.heard`). A call
whose request cannot be sent leaves nothing on the wire, and as soon as its turn
to write is over it waits no more (`written_of_waiting`).
-/

namespace Switchboard

open Session (Deed Notice)

/-! ## Numbers of requests -/

/-- No two requests have the same number. -/
theorem Numbered.distinct {calls : List Pending} (h : Numbered calls)
    (few : calls.length ≤ 2 ^ 64) :
    calls.Pairwise fun p q => p.parcel.request.seq ≠ q.parcel.request.seq := by
  have hseq (n : Nat) (hn : n < calls.length) :
      calls[n].parcel.request.seq = UInt64.ofNat n := by
    rw [Pending.parcel, h n calls[n] (List.getElem?_eq_getElem hn)]
    rfl
  have hplace (n : Nat) (hn : n < calls.length) : (UInt64.ofNat n).toNat = n :=
    UInt64.toNat_ofNat_of_lt' (Nat.lt_of_lt_of_le hn few)
  rw [List.pairwise_iff_getElem]
  intro i j hi hj hlt heq
  rw [hseq i hi, hseq j hj, ← UInt64.toNat_inj, hplace i hi, hplace j hj] at heq
  omega

/-- Two calls with one number are the same. -/
theorem Numbered.eq_of_seq {calls : List Pending} (h : Numbered calls)
    (few : calls.length ≤ 2 ^ 64) {p q : Pending} (hp : p ∈ calls) (hq : q ∈ calls)
    (hseq : p.parcel.request.seq = q.parcel.request.seq) : p = q := by
  have hnodup : (calls.map (·.parcel.request.seq)).Nodup := List.pairwise_map.mpr (h.distinct few)
  exact List.inj_on_of_nodup_map hnodup hp hq hseq

theorem Numbered.seq_eq {calls : List Pending} (h : Numbered calls) {p : Pending}
    (hp : p ∈ calls) : p.call.seq = some p.parcel.request.seq := by
  obtain ⟨n, hn⟩ := List.mem_iff_getElem?.mp hp
  have hseq := h n p hn
  rw [Pending.parcel, hseq]
  rfl

/-- A number finds its call. -/
theorem Numbered.getElem?_seq {calls : List Pending} (h : Numbered calls)
    (few : calls.length ≤ 2 ^ 64) {p : Pending} (hp : p ∈ calls) :
    calls[p.parcel.request.seq.toNat]? = some p := by
  have hmem : p ∈ calls.filter (·.call.seq = some p.parcel.request.seq) :=
    List.mem_filter.mpr ⟨hp, by simpa using h.seq_eq hp⟩
  rw [h.filter few] at hmem
  exact Option.mem_toList.mp hmem

theorem Poll.map_eq_blocked_iff {α β : Type} {f : α → β} {poll : Poll α} :
    poll.map f = .blocked ↔ poll = .blocked := by
  cases poll <;> simp [map]

/-! ## Who still waits -/

theorem Client.mem_writeFailed {c : Client} {seq : UInt64} {error : CallError}
    {entry : UInt64 × Pending} (h : entry ∈ (c.writeFailed seq error).table) :
    entry ∈ c.table ∧ entry.1 ≠ seq := by
  rw [(frame_writeFailed seq error c).1] at h
  obtain ⟨hmem, hother⟩ := List.mem_filter.mp h
  exact ⟨hmem, by simpa using hother⟩

namespace Session

/-- Whoever waits has waited before or is new. -/
theorem Change.mem_table {ns : List Notice} {c c' : Client} {r r' : Receiver}
    (h : Change ns (c, r) (c', r')) {entry : UInt64 × Pending} (hentry : entry ∈ c'.table) :
    entry ∈ c.table ∨ .registered entry.2 ∈ ns := by
  have hfinish {p : Pending} {outcome : Except CallError Wire.Value}
      (hmem : entry ∈ (c.finish p outcome).table) : entry ∈ c.table := by
    rwa [(Client.frame_finish p outcome c).1] at hmem
  have hstop {error : CallError} {c : Client} (hmem : entry ∈ (c.stop error).table) : False := by
    rw [(Client.frame_stop error c).1] at hmem
    cases hmem
  cases h with
  | mailboxes _ halike => exact .inl (halike.table ▸ hentry)
  | turnedAway | unmatched | passed | closed => exact .inl hentry
  | @issued _ client _ p halike =>
      rw [noteCall, ← halike.isOver]
      cases hover : client.isOver with
      | true =>
          rw [Client.issue_over hover, (Client.frame_finish _ _ _).1] at hentry
          exact .inl (halike.table ▸ hentry)
      | false =>
          rw [Client.issue_open hover] at hentry
          rcases List.mem_append.mp hentry with hold | hnew
          · exact .inl (halike.table ▸ hold)
          · rw [List.mem_singleton.mp hnew, halike.nextSeq]
            exact .inr (List.mem_singleton_self _)
  | unsent _ _ seq error => exact .inl (Client.mem_writeFailed hentry).1
  | matched response p _ hsome =>
      obtain ⟨_, rfl⟩ := Client.remove_eq_some_iff.mp hsome
      exact .inl (List.mem_filter.mp hentry).1
  | replied | refuted => exact .inl (hfinish hentry)
  | cancelled | noHeader | notPassed | refutedLast => exact (hstop hentry).elim

section Ending

variable {ω κ : Type} [Codec κ]

/-- Whoever has begun to write gets as far as the codec does. -/
theorem poll_stepWriter {s : Session κ} {seq : UInt64} {now : Nat} {w : Writer}
    (hfind : s.writers.find? (·.request.seq = seq) = some w) (hqueued : w.queued = true)
    (hholder : s.lock.holder = some (.writer seq)) (hbegun : w.begun = true)
    (hclosing : s.client.closing = false) :
    (s.stepWriter seq now).1 = (Codec.write w.request w.args now s.codec).1.map fun _ => () := by
  rcases hwrite : Codec.write w.request w.args now s.codec with ⟨_ | _ | _ | _, codec⟩ <;>
    simp [stepWriter, hfind, hqueued, hholder, hbegun, hclosing, hwrite, endWriter, Poll.map]

/-- The writing that ends with the step of a writer is its own. -/
theorem current_of_ending {s : Session κ} {seq : UInt64} {now : Nat}
    {result : Except CallError Unit}
    (hending : s.currentEnding (.task (.writer seq) now : Deed ω) = some result) :
    ∃ p, s.current = some p ∧ p.request.seq = seq := by
  simp only [currentEnding] at hending
  split at hending
  · rename_i hholder
    cases hfind : s.writers.find? (·.request.seq = seq) with
    | none =>
        rw [hfind] at hending
        cases hending
    | some w =>
        have hbegun : w.begun = true := by
          by_contra hidle
          simp [hfind, hidle] at hending
        exact ⟨w.parcel, current_of_begun hholder hfind hbegun, seq_of_find hfind⟩
  · cases hending

/-- The writer of a request that is not written takes its call out and leaves the
receiver alone. -/
theorem stepWriter_of_failure {s : Session κ} {seq : UInt64} {now : Nat} {error : CallError}
    (hfailure : s.writeFailure seq now = some error) :
    (s.stepWriter seq now).2.client = s.client.writeFailed seq error ∧
      (s.stepWriter seq now).2.receiver = s.receiver := by
  have hstep := s.stepWriter_cases seq now
  rw [hfailure] at hstep
  generalize hcause : some error = cause at hstep
  generalize (s.stepWriter seq now).2 = s' at hstep ⊢
  cases hstep with
  | absent | asked | queued | begun | awaited => cases hcause
  | refused | cancelled =>
      cases hcause
      exact ⟨rfl, rfl⟩
  | @written _ result =>
      cases result with
      | ok => cases hcause
      | error =>
          cases hcause
          exact ⟨rfl, rfl⟩

/-- A call does not wait any more when the writing of its request has failed. -/
theorem client_of_currentEnding {s : Session κ} (hopen : s.client.isOver = false) {seq : UInt64}
    {now : Nat} {error : CallError}
    (hending : s.currentEnding (.task (.writer seq) now : Deed ω) = some (.error error)) :
    (s.stepWriter seq now).2.client = s.client.writeFailed seq error := by
  have hfailure : s.writeFailure seq now = some error := by
    rw [writeFailure_eq (ω := ω) hopen, hending]
    rfl
  exact (stepWriter_of_failure hfailure).1

end Ending

end Session

namespace History

section Waiting

variable {ω κ : Type} [Codec κ] [Surroundings ω κ]

/-- Whoever is new has a number that nobody had before. -/
theorem seq_ne_of_new {codec : κ} {deeds : List (Deed ω)} {d : Deed ω}
    (few : (run codec (deeds ++ [d])).registered.length < 2 ^ 64) {p q : Pending}
    (hp : p ∈ (run codec deeds).registered)
    (hq : .registered q ∈ (run codec deeds).session.notices d) :
    p.parcel.request.seq ≠ q.parcel.request.seq := by
  have hnew : q ∈ ((run codec deeds).session.notices d).filterMap Notice.registered? :=
    List.mem_filterMap.mpr ⟨_, hq, rfl⟩
  have hdistinct := (books_run codec (deeds ++ [d]) few).numbered.distinct (Nat.le_of_lt few)
  rw [run_append_singleton, registered_perform, List.pairwise_append] at hdistinct
  exact hdistinct.2.2 p hp q hnew

/-- As long as the client is open, whoever still waits when the writing of the
request is over has had the request written. -/
theorem written_of_waiting (codec : κ) (deeds : List (Deed ω))
    (few : (run codec deeds).registered.length < 2 ^ 64)
    (hopen : (run codec deeds).session.client.isOver = false) :
    ∀ entry ∈ (run codec deeds).session.client.table, ∀ d ∈ dispatched codec deeds,
      d.parcel = entry.2.parcel → d.result = .ok () := by
  induction deeds using List.reverseRecOn with
  | nil => simp
  | append_singleton deeds d ih =>
      have hearlier := open_of_later hopen
      have hbooks := books_run codec (deeds ++ [d]) few
      have hchange := Session.change_of_perform (isHonest_run codec deeds) d
      intro entry hentry done hdone hparcel
      rw [dispatched_append_singleton] at hdone
      rcases List.mem_append.mp hdone with hold | hnew
      · rw [run_append_singleton] at hentry
        rcases hchange.mem_table hentry with hwaited | hnew
        · exact ih (few_of_later few) hearlier entry hwaited done hold hparcel
        · obtain ⟨p, hp, hsame⟩ := List.mem_map.mp ((entrusted_run codec deeds).2 done hold)
          exact absurd (by rw [hsame, hparcel]) (seq_ne_of_new few hp hnew)
      · obtain ⟨hcurrent, hending⟩ := mem_of_dispatch hnew
        cases hresult : done.result with
        | ok => rfl
        | error error =>
            rw [hresult] at hending
            obtain ⟨seq, now, rfl⟩ : ∃ seq now, d = .task (.writer seq) now := by
              by_contra hd
              have hnone := (run codec deeds).session.currentEnding_beside
                fun seq now heq => hd ⟨seq, now, heq⟩
              rw [hnone] at hending
              cases hending
            obtain ⟨p, hp, hseq⟩ := Session.current_of_ending hending
            obtain rfl : p = done.parcel := Option.some.inj (hp.symm.trans hcurrent)
            have hkeyed := hbooks.keyed entry hentry
            have hregistered := hbooks.numbered.seq_eq
              (hbooks.mem_registered (List.mem_append_left _ (List.mem_map_of_mem hentry)))
            rw [run_append_singleton] at hentry
            change entry ∈ ((run codec deeds).session.stepWriter seq now).2.client.table at hentry
            rw [Session.client_of_currentEnding hearlier hending] at hentry
            refine absurd ?_ (Client.mem_writeFailed hentry).2
            rw [hkeyed, ← hparcel, hseq] at hregistered
            exact Option.some.inj hregistered

end Waiting

end History

/-! ## What was taken -/

namespace Framed

/-- What was taken stays taken. -/
theorem taken_write (r : Wire.Request) (args : Wire.Value) (now : Nat) (f : Framed Script) :
    f.link.taken <+: (f.write r args now).2.link.taken := by
  have hstep := f.writeStep_write r args now
  generalize f.write r args now = written at hstep ⊢
  obtain ⟨poll, f'⟩ := written
  cases hstep with
  | begun | refused => exact List.prefix_rfl
  | shipped _ hships =>
      cases hships with
      | going _ _ _ htakes => exact ⟨_, htakes.taken.symm⟩
      | finished => exact List.prefix_rfl
      | failed _ _ _ htakes => exact ⟨_, htakes.taken.symm⟩

end Framed

namespace Session

theorem taken_prefix_perform {s : Session (Framed Script)} {d : Deed Script.Twist}
    (hquiet : d.IsQuiet) : s.codec.link.taken <+: (s.perform d).codec.link.taken := by
  have htraffic := traffic_perform d s
  generalize (s.perform d).client.closing = closing at htraffic
  generalize (s.perform d).lock = lock at htraffic
  generalize (s.perform d).codec = codec at htraffic ⊢
  cases htraffic with
  | idle | asked | refused | cancelled => exact List.prefix_rfl
  | read _ hreading =>
      obtain ⟨_, _, _, hlink⟩ := Framed.sameOutbound_of_reading hreading
      rw [hlink]
  | @writing w now | @written w now => exact s.codec.taken_write w.request w.args now
  | closed | hungUp => exact hquiet.elim
  | outside twist => cases twist <;> exact List.prefix_rfl

theorem closing_of_quiet {s : Session (Framed Script)} {d : Deed Script.Twist}
    (hquiet : d.IsQuiet) : (s.perform d).client.closing = s.client.closing := by
  have htraffic := traffic_perform d s
  generalize (s.perform d).client.closing = closing at htraffic ⊢
  generalize (s.perform d).lock = lock at htraffic
  generalize (s.perform d).codec = codec at htraffic
  cases htraffic with
  | closed => exact hquiet.elim
  | _ => rfl

/-- A client that is open takes every call. -/
theorem notices_of_open {ω κ : Type} [Codec κ] [Surroundings ω κ] {s : Session κ}
    (hopen : s.client.isOver = false) (d : Deed ω) :
    (s.notices d).filterMap Notice.refused? = [] ∧
      (s.notices d).filterMap Notice.turnedAway? = [] := by
  cases d with
  | go a => simp [notices, noteCall, hopen]
  | goWith a mailbox =>
      by_cases hmailbox : mailbox < s.client.mailboxes.length <;>
        simp [notices, noteCall, hmailbox, hopen]
  | task t now =>
      cases t with
      | receiver => cases hread : s.readEnding now <;> simp [notices, noteStep, hread]
      | writer seq => cases hwrite : s.writeFailure seq now <;> simp [notices, noteStep, hwrite]
      | caller place =>
          simp only [notices, noteStep]
          split
          · simp [noteCall, hopen]
          · simp
  | call | completion | take | dropHandle | deafen | close | hangUp | outside => simp [notices]

end Session

/-! ## Quiet lives -/

/-- What a client of a new connection starts with: how much the connection takes
at first, how long payloads may be and how much time there is for operations, in
either direction. -/
structure Opening where
  credit : Option Nat := none
  readLimit : Nat := maxPayload
  readPatience : Option Nat := none
  writeLimit : Nat := maxPayload
  writePatience : Option Nat := none

def Opening.codec (o : Opening) : Framed Script where
  link := { credit := o.credit }
  inbound := { limit := o.readLimit, patience := o.readPatience }
  outbound := { limit := o.writeLimit, patience := o.writePatience }

namespace History

/-- Nobody closes, nothing fails, no writing takes too long, and the numbers of
the calls last. -/
structure Quiet (o : Opening) (deeds : List (Deed Script.Twist)) : Prop where
  quiet : ∀ d ∈ deeds, d.IsQuiet
  isOpen : (run o.codec deeds).session.client.isOver = false
  inTime : (run o.codec deeds).WritesInTime
  few : (run o.codec deeds).registered.length < 2 ^ 64

theorem data_of_quiet {deeds : List (Deed Script.Twist)} (h : ∀ d ∈ deeds, d.IsQuiet) :
    ∀ event ∈ arrivals deeds, ∃ front, event = .data front := by
  intro event hevent
  obtain ⟨d, hd, hmem⟩ := List.mem_flatMap.mp hevent
  have hquiet := h d hd
  cases d with
  | outside twist =>
      cases twist with
      | arrive more => exact hquiet event hmem
      | accept | plan => cases hmem
  | go | goWith | call | completion | take | dropHandle | deafen | task | close | hangUp =>
      cases hmem

theorem unclosed_of_quiet (codec : Framed Script) {deeds : List (Deed Script.Twist)}
    (h : ∀ d ∈ deeds, d.IsQuiet) : (run codec deeds).session.client.closing = false := by
  induction deeds using List.reverseRecOn with
  | nil => rfl
  | append_singleton deeds d ih =>
      rw [run_append_singleton]
      have hd := h d (List.mem_append_right _ (List.mem_singleton_self d))
      exact (Session.closing_of_quiet hd).trans
        (ih fun d hd => h d (List.mem_append_left _ hd))

/-- Nothing was taken before. -/
theorem laid_opening (o : Opening) (deeds : List (Deed Script.Twist)) :
    ∃ pieces part, Laid o.writeLimit [] (run o.codec deeds).session (dispatched o.codec deeds)
      pieces part :=
  laid_run o.codec.link o.codec.inbound o.writeLimit o.writePatience deeds

namespace Quiet

variable {o : Opening} {deeds : List (Deed Script.Twist)} {d : Deed Script.Twist}

theorem earlier (h : Quiet o (deeds ++ [d])) : Quiet o deeds where
  quiet d hd := h.quiet d (List.mem_append_left _ hd)
  isOpen := open_of_later h.isOpen
  inTime seq hmem := by
    refine h.inTime seq ?_
    rw [run_append_singleton]
    exact List.mem_append_left _ hmem
  few := few_of_later h.few

theorem smooth (h : Quiet o deeds) :
    (run o.codec deeds).session.IsSmooth o.writeLimit ∧
      ∀ d ∈ dispatched o.codec deeds, d.result = d.parcel.verdict o.writeLimit :=
  smooth_run _ _ o.writeLimit o.writePatience ⟨rfl, rfl, rfl, by simp⟩ deeds h.quiet h.isOpen
    h.inTime

/-- Only requests that cannot be sent are given up, and nothing was laid down of
them. -/
theorem not_isCut (h : Quiet o deeds) : ∀ d ∈ dispatched o.codec deeds, ¬ d.IsCut := by
  rintro d hd ⟨error, herror, hown⟩
  have hverdict := h.smooth.2 d hd
  rw [herror, Parcel.verdict] at hverdict
  cases hunit : d.parcel.unit o.writeLimit with
  | ok payloads =>
      rw [hunit] at hverdict
      cases hverdict
  | error refusal =>
      rw [hunit] at hverdict
      exact hown refusal (Parcel.refuses_of_unit hunit).1 (Except.error.inj hverdict)

theorem upright (h : Quiet o deeds) :
    (run o.codec deeds).session.codec.outbound.aborted = false := by
  have hleaving := isLeaving_run Framed.counts_aborted o.codec rfl deeds
  unfold Session.IsLeaving at hleaving
  rw [(Bool.or_eq_false_iff.mp h.isOpen).2] at hleaving
  simpa using hleaving.of_open.2

/-- The requests whose writing is over or under way stand one behind the other, the
last of them perhaps in part; what of them is not on the wire is in the buffer. -/
theorem laid (h : Quiet o deeds) :
    ∃ part, part <+: (run o.codec deeds).session.current.toList.flatMap (·.octets o.writeLimit) ∧
      (run o.codec deeds).session.codec.link.taken ++
          (run o.codec deeds).session.codec.outbound.unsent =
        (dispatched o.codec deeds).flatMap (·.parcel.octets o.writeLimit) ++ part := by
  obtain ⟨pieces, part, hlaid⟩ := laid_opening o deeds
  refine ⟨part, ?_, ?_⟩
  · have hpart := hlaid.underWay
    cases hcurrent : (run o.codec deeds).session.current with
    | none =>
        rw [hcurrent] at hpart
        rw [show part = [] from hpart]
        exact List.nil_prefix
    | some p =>
        rw [hcurrent] at hpart
        rw [Option.toList_some, List.flatMap_singleton]
        exact hpart.front
  · rw [← flatten_of_whole hlaid.finished h.not_isCut]
    exact hlaid.buffered h.upright

/-- Whatever is written, or was, is the request of a registered call, each once. -/
theorem subperm (h : Quiet o deeds) :
    ((dispatched o.codec deeds).map (·.parcel) ++
      (run o.codec deeds).session.current.toList).Subperm
        ((run o.codec deeds).registered.map Pending.parcel) := by
  refine .trans ?_ (conserved_run o.codec deeds h.few h.isOpen).symm.subperm
  refine (List.subperm_append_left _).mpr ?_
  cases hcurrent : (run o.codec deeds).session.current with
  | none => exact List.nil_subperm
  | some p => exact List.singleton_subperm_iff.mpr (mem_of_current hcurrent)

/-- Requests that cannot be sent leave nothing. -/
theorem flatMap_sendable (limit : Nat) (parcels : List Parcel) :
    (parcels.filter fun p => (p.query limit).isSome).flatMap (·.octets limit) =
      parcels.flatMap (·.octets limit) := by
  induction parcels with
  | nil => rfl
  | cons p parcels ih =>
      rw [List.flatMap_cons]
      cases hquery : p.query limit with
      | some q => rw [List.filter_cons_of_pos (by simp [hquery]), List.flatMap_cons, ih]
      | none =>
          obtain ⟨error, hunit⟩ := Parcel.query_eq_none hquery
          rw [List.filter_cons_of_neg (by simp [hquery]), ih, (Parcel.refuses_of_unit hunit).2,
            List.nil_append]

/-- What the connection has taken is the beginning of requests of registered calls
that can be sent, each once, one behind the other. -/
theorem stream (h : Quiet o deeds) :
    ∃ parcels : List Parcel,
      parcels.Subperm (((run o.codec deeds).registered.map Pending.parcel).filter fun p =>
        (p.query o.writeLimit).isSome) ∧
      (run o.codec deeds).session.codec.link.taken <+:
        parcels.flatMap (·.octets o.writeLimit) := by
  obtain ⟨part, hpart, htaken⟩ := h.laid
  refine ⟨_, h.subperm.filter _, ?_⟩
  rw [flatMap_sendable, List.flatMap_append, List.flatMap_map]
  refine List.IsPrefix.trans ⟨_, htaken⟩ ?_
  exact (List.prefix_append_right_inj _).mpr hpart

/-- The other side hears requests of registered calls, each at most once. -/
theorem heard (h : Quiet o deeds) :
    (queries (run o.codec deeds).session.codec.link.taken).Subperm
      ((run o.codec deeds).registered.filterMap (·.parcel.query o.writeLimit)) := by
  obtain ⟨parcels, hparcels, htaken⟩ := h.stream
  have hprefix := queries_mono htaken
  rw [queries_of_parcels] at hprefix
  obtain ⟨calls, hperm, hsublist⟩ := hparcels.trans List.filter_sublist.subperm
  have hcalls := hsublist.filterMap (Parcel.query o.writeLimit)
  rw [List.filterMap_map] at hcalls
  exact hprefix.sublist.subperm.trans ⟨_, hperm.filterMap _, hcalls⟩

theorem numbered (h : Quiet o deeds) : Numbered (run o.codec deeds).registered :=
  (books_run o.codec deeds h.few).numbered

/-- Whatever is heard, a registered call asks it. -/
theorem asker (h : Quiet o deeds) {q : Query}
    (hq : q ∈ queries (run o.codec deeds).session.codec.link.taken) :
    ∃ p ∈ (run o.codec deeds).registered, p.parcel.query o.writeLimit = some q :=
  List.mem_filterMap.mp (h.heard.subset hq)

theorem heard_nodup (h : Quiet o deeds) :
    (queries (run o.codec deeds).session.codec.link.taken).Nodup := by
  obtain ⟨calls, hperm, hsublist⟩ := h.heard
  refine hperm.nodup_iff.mp (List.Nodup.sublist hsublist ?_)
  refine (h.numbered.distinct (Nat.le_of_lt h.few)).filterMap _ ?_
  rintro p p' hne q hq _ hq' rfl
  obtain ⟨_, _, hrequest⟩ := Parcel.query_eq_some hq
  obtain ⟨_, _, hrequest'⟩ := Parcel.query_eq_some hq'
  exact hne (by rw [← hrequest, hrequest'])

/-- The call that asks something is the only one. -/
theorem asker_unique (h : Quiet o deeds) {p p' : Pending} {q : Query}
    (hp : p ∈ (run o.codec deeds).registered) (hp' : p' ∈ (run o.codec deeds).registered)
    (hq : p.parcel.query o.writeLimit = some q) (hq' : p'.parcel.query o.writeLimit = some q) :
    p = p' := by
  obtain ⟨_, _, hrequest⟩ := Parcel.query_eq_some hq
  obtain ⟨_, _, hrequest'⟩ := Parcel.query_eq_some hq'
  exact h.numbered.eq_of_seq (Nat.le_of_lt h.few) hp hp' (by rw [← hrequest, hrequest'])

/-- What one attempt to write the request under way comes to. -/
theorem goes (h : Quiet o deeds) {p : Parcel}
    (hcurrent : (run o.codec deeds).session.current = some p) (now : Nat) :
    (run o.codec deeds).session.codec.Goes p
      ((run o.codec deeds).session.codec.write p.request p.args now).1
      ((run o.codec deeds).session.codec.write p.request p.args now).2 := by
  obtain ⟨_, _, hlaid⟩ := laid_opening o deeds
  refine Framed.goes_write h.smooth.1.codec h.upright ?_ now
  rw [hlaid.bound]
  exact h.smooth.1.begun p hcurrent

/-- A call that is told that its request was not written is told why it cannot be
sent. -/
theorem unsent (h : Quiet o (deeds ++ [d])) {seq : UInt64} {error : CallError}
    (hmem : .unsent seq error ∈ (run o.codec deeds).session.notices d) :
    ∃ p ∈ (run o.codec deeds).registered, p.parcel.request.seq = seq ∧
      p.parcel.verdict o.writeLimit = .error error := by
  obtain ⟨now, rfl, _⟩ := Session.exists_writer_of_unsent hmem
  rw [notices_writer h.earlier.isOpen] at hmem
  have hending : (run o.codec deeds).session.currentEnding
      (.task (.writer seq) now : Deed Script.Twist) = some (.error error) := by
    cases hending : (run o.codec deeds).session.currentEnding
        (.task (.writer seq) now : Deed Script.Twist) with
    | none => simp [hending] at hmem
    | some result => cases result <;> simp_all [Session.failureOf]
  obtain ⟨parcel, hcurrent, hseq⟩ := Session.current_of_ending hending
  have hdispatched : ⟨parcel, .error error⟩ ∈
      dispatched o.codec (deeds ++ [(.task (.writer seq) now : Deed Script.Twist)]) := by
    rw [dispatched_append_singleton, dispatch, hcurrent, hending]
    exact List.mem_append_right _ (List.mem_singleton_self _)
  have hverdict := h.smooth.2 _ hdispatched
  obtain ⟨p, hp, rfl⟩ := List.mem_map.mp
    ((entrusted_run o.codec deeds).1 parcel (mem_of_current hcurrent))
  exact ⟨p, hp, hseq, hverdict.symm⟩

/-- Nobody was sent away. -/
theorem all_taken (h : Quiet o deeds) :
    (run o.codec deeds).refused = [] ∧ (run o.codec deeds).turnedAway = [] := by
  induction deeds using List.reverseRecOn with
  | nil => exact ⟨rfl, rfl⟩
  | append_singleton deeds d ih =>
      obtain ⟨hrefused, hturned⟩ := ih h.earlier
      obtain ⟨hnone, hnobody⟩ := Session.notices_of_open h.earlier.isOpen d
      rw [run_append_singleton, refused_perform, turnedAway_perform, hrefused, hturned, hnone,
        hnobody]
      exact ⟨rfl, rfl⟩

/-! ## Rest -/

/-- With credit, somebody who writes gets somewhere as long as anybody is left. -/
theorem no_writers (h : Quiet o deeds) {now : Nat}
    (hblocked : ∀ w ∈ (run o.codec deeds).session.writers,
      ((run o.codec deeds).session.stepWriter w.request.seq now).1 = .blocked)
    (hcredit : (run o.codec deeds).session.codec.link.credit ≠ some 0) :
    (run o.codec deeds).session.writers = [] := by
  have horderly := orderly_run o.codec deeds h.few
  have hleaving := isLeaving_run Framed.counts_aborted o.codec rfl deeds
  have hclosing := (Bool.or_eq_false_iff.mp h.isOpen).2
  unfold Session.IsLeaving at hleaving
  rw [hclosing] at hleaving
  have hholder : (run o.codec deeds).session.lock.holder = none := by
    cases hholder : (run o.codec deeds).session.lock.holder with
    | none => rfl
    | some party =>
        cases party with
        | closer => exact absurd (by simp [Lock.queue, hholder]) hleaving.of_open.1
        | writer seq =>
            obtain ⟨w, hw, rfl, hqueued⟩ :=
              (horderly.queued seq).mp (by simp [Lock.queue, hholder])
            have hfind := horderly.find hw
            have hstuck := hblocked w hw
            cases hbegun : w.begun with
            | false => simp [Session.stepWriter, hfind, hqueued, hholder, hbegun, h.isOpen] at hstuck
            | true =>
                have hcurrent : (run o.codec deeds).session.current = some w.parcel :=
                  Session.current_of_begun hholder hfind hbegun
                have hgoes := h.goes hcurrent now
                rw [Session.poll_stepWriter hfind hqueued hholder hbegun hclosing,
                  Poll.map_eq_blocked_iff] at hstuck
                rw [show ((run o.codec deeds).session.codec.write w.parcel.request w.parcel.args
                  now).1 = .blocked from hstuck] at hgoes
                cases hgoes with
                | blocked _ _ _ hnone => exact absurd hnone hcredit
  have hwaiting := horderly.free hholder
  refine List.eq_nil_iff_forall_not_mem.mpr fun w hw => ?_
  -- Whoever has not asked for the lock yet can do so.
  have hqueued : w.queued = false := by
    by_contra hqueued
    have hmem := (horderly.queued w.request.seq).mpr ⟨w, hw, rfl, by simpa using hqueued⟩
    simp [Lock.queue, hholder, hwaiting] at hmem
  have hstuck := hblocked w hw
  simp [Session.stepWriter, horderly.find hw, hqueued] at hstuck

/-- When nobody writes any more, all that can be sent of the registered calls is on
the wire. -/
theorem emptied (h : Quiet o deeds) (hwriters : (run o.codec deeds).session.writers = []) :
    ((run o.codec deeds).registered.map Pending.parcel).Perm
        ((dispatched o.codec deeds).map (·.parcel)) ∧
      (run o.codec deeds).session.codec.link.taken =
        ((dispatched o.codec deeds).map (·.parcel)).flatMap (·.octets o.writeLimit) := by
  have hconserved := conserved_run o.codec deeds h.few h.isOpen
  rw [hwriters, List.map_nil, List.append_nil] at hconserved
  refine ⟨hconserved, ?_⟩
  have hcurrent : (run o.codec deeds).session.current = none := by
    rw [Session.current, hwriters]
    exact turnOf_of_idle (by simp) _
  obtain ⟨_, _, hlaid⟩ := laid_opening o deeds
  have hidle := hlaid.idle hcurrent
  obtain ⟨part, hpart, htaken⟩ := h.laid
  rw [hcurrent] at hpart
  obtain rfl := List.prefix_nil.mp hpart
  have hbuffer : (run o.codec deeds).session.codec.outbound.unsent = [] := by
    rcases h.smooth.1.codec.flushes with hlast | ⟨_, hnil⟩
    · rw [Outbound.pending, hidle] at hlast
      cases hlast
    · exact Outbound.unsent_of_empty hnil
  rw [hbuffer, List.append_nil, List.append_nil] at htaken
  rw [htaken, List.flatMap_map]

end Quiet

end History

end Switchboard
