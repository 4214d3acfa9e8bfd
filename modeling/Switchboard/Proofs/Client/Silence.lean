import Switchboard.Proofs.Client.Position
import Switchboard.Proofs.Client.Refusal
import Switchboard.Proofs.Client.Traffic
import Switchboard.Proofs.Client.Watch
import Switchboard.Proofs.Frame.Departure

/-!
# Silence after closing

Once the owner has closed, nothing is asked of the writing half of the codec any
more but to close, and that only once, by the owner, when the lock has come to
them. Whoever has the lock before is told that the client is shut down and gives
it up without writing. Over frames this means that what the connection has taken
when the owner closes is all that it will ever take: what is buffered is dropped
and the connection is shut.
-/

namespace Switchboard

open Session (Deed Notice)

/-! ## The way to the end -/

/-- The owner asks for the end once, then waits for the lock, then closes once:
`closes` counts how often the codec was closed. -/
structure Farewell (closing : Bool) (lock : Lock) (closes : Nat) : Prop where
  free : lock.holder = none → lock.waiting = []
  once : lock.queue.count .closer + closes = closing.toNat

namespace Farewell

variable {closing : Bool} {lock : Lock} {closes : Nat}

theorem start : Farewell false {} 0 := ⟨fun _ => rfl, rfl⟩

theorem ask (h : Farewell closing lock closes) (seq : UInt64) :
    Farewell closing (lock.ask (.writer seq)) closes := by
  refine ⟨Lock.free_ask _ _, ?_⟩
  rw [Lock.queue_ask h.free, List.count_append]
  exact h.once

theorem release (h : Farewell closing lock closes) {seq : UInt64}
    (hholder : lock.holder = some (.writer seq)) : Farewell closing lock.release closes := by
  refine ⟨Lock.free_release lock, ?_⟩
  have honce := h.once
  rw [Lock.queue_release hholder, List.count_cons_of_ne (by simp)] at honce
  exact honce

/-- Before the owner closes they do not wait for the lock, and nothing is closed. -/
theorem of_open (h : Farewell false lock closes) :
    .closer ∉ lock.queue ∧ closes = 0 := by
  have honce : lock.queue.count .closer + closes = 0 := h.once
  exact ⟨List.count_eq_zero.mp (by omega), by omega⟩

theorem close (h : Farewell false lock closes) : Farewell true (lock.ask .closer) closes := by
  refine ⟨Lock.free_ask _ _, ?_⟩
  obtain ⟨habsent, rfl⟩ := h.of_open
  rw [Lock.queue_ask h.free, List.count_append, List.count_eq_zero_of_not_mem habsent]
  rfl

/-- The owner has the lock, so nothing is closed yet. -/
theorem of_holder (h : Farewell closing lock closes) (hholder : lock.holder = some .closer) :
    closes = 0 ∧ lock.release.queue.count .closer = 0 ∧ closing = true := by
  have honce := h.once
  rw [Lock.queue_release hholder, List.count_cons_self] at honce
  cases closing with
  | false => simp at honce
  | true =>
      rw [Bool.toNat_true] at honce
      exact ⟨by omega, by omega, rfl⟩

theorem hangUp (h : Farewell closing lock closes) (hholder : lock.holder = some .closer) :
    Farewell closing lock.release 1 := by
  obtain ⟨_, habsent, rfl⟩ := h.of_holder hholder
  exact ⟨Lock.free_release lock, by rw [habsent]; rfl⟩

end Farewell

variable {ω κ : Type} [Codec κ] [Surroundings ω κ]

/-- One can see how often a codec was closed, at least for the first time. -/
structure Codec.Counts (ω : Type) [Surroundings ω κ] (closes : κ → Nat) : Prop where
  reading : ∀ {k k' : κ}, Codec.Reading k k' → closes k' = closes k
  write : ∀ request args now (k : κ), closes (Codec.write request args now k).2 = closes k
  cancelWrite : ∀ k : κ, closes (Codec.cancelWrite k) = closes k
  close : ∀ k : κ, closes k = 0 → closes (Codec.close k).2 = 1
  act : ∀ (event : ω) (k : κ), closes (Surroundings.act event k) = closes k

namespace Session

def IsLeaving (closes : κ → Nat) (s : Session κ) : Prop :=
  Farewell s.client.closing s.lock (closes s.codec)

theorem isLeaving_perform {closes : κ → Nat} (hcounts : Codec.Counts ω closes) {s : Session κ}
    (h : s.IsLeaving closes) (d : Deed ω) : (s.perform d).IsLeaving closes := by
  have htraffic := traffic_perform d s
  unfold IsLeaving at h ⊢
  generalize (s.perform d).client.closing = closing at htraffic ⊢
  generalize (s.perform d).lock = lock at htraffic ⊢
  generalize (s.perform d).codec = codec at htraffic ⊢
  cases htraffic with
  | idle => exact h
  | read _ hreading =>
      rw [hcounts.reading hreading]
      exact h
  | asked seq => exact h.ask seq
  | refused seq _ hholder => exact h.release hholder
  | cancelled seq _ hholder =>
      rw [hcounts.cancelWrite]
      exact h.release hholder
  | writing =>
      rw [hcounts.write]
      exact h
  | written _ hholder =>
      rw [hcounts.write]
      exact h.release hholder
  | closed hopen =>
      have hclosing : s.client.closing = false := (Bool.or_eq_false_iff.mp hopen).2
      rw [hclosing] at h
      exact h.close
  | hungUp hholder =>
      rw [hcounts.close _ (h.of_holder hholder).1]
      exact h.hangUp hholder
  | outside event =>
      rw [hcounts.act]
      exact h

/-- Whoever has the lock after the owner has closed gives it up, told that the
client is shut down; what was being written is left. -/
theorem stepWriter_of_closing {s : Session κ} (h : s.client.closing = true) {seq : UInt64}
    {w : Writer} (hfind : s.writers.find? (·.request.seq = seq) = some w)
    (hqueued : w.queued = true) (hholder : s.lock.holder = some (.writer seq)) (now : Nat) :
    s.writeFailure seq now = some .shutdown ∧
      s.stepWriter seq now = (.done (), { s with
        codec := if w.begun then Codec.cancelWrite s.codec else s.codec
        lock := s.lock.release
        writers := s.writers.filter (·.request.seq != seq)
        client := s.client.writeFailed seq .shutdown }) := by
  have hover : s.client.isOver = true := by rw [Client.isOver, h, Bool.or_true]
  cases hbegun : w.begun with
  | false => simp [writeFailure, stepWriter, hfind, hqueued, hholder, hbegun, hover, endWriter]
  | true => simp [writeFailure, stepWriter, hfind, hqueued, hholder, hbegun, h, endWriter]

end Session

/-! ## What is asked of a codec -/

namespace Watched

theorem touches_of_reading {w w' : Watched κ} (h : Codec.Reading w w') :
    w'.touches = w.touches := by
  induction h with
  | header | body | discarded | cancelled => rfl
  | dropped _ ih => exact ih

theorem counts_closes : Codec.Counts ω fun w : Watched κ => w.touches.count .close where
  reading h := by rw [touches_of_reading h]
  write request args now w := by simp [Codec.write, note]
  cancelWrite _ := rfl
  close w h := by simpa [Codec.close, note] using h
  act _ _ := rfl

variable {s : Session (Watched κ)}

/-- After the owner has closed, the one thing that can still be asked is to
close, by whoever has the lock to do so. -/
theorem touches_perform (h : s.client.closing = true) (d : Deed ω) :
    (s.perform d).codec.touches = s.codec.touches ∨
      (d = .hangUp ∧ s.lock.holder = some .closer) ∧
        (s.perform d).codec.touches = s.codec.touches ++ [.close] := by
  have htraffic := Session.traffic_perform d s
  generalize (s.perform d).client.closing = closing at htraffic
  generalize (s.perform d).lock = lock at htraffic
  generalize (s.perform d).codec = codec at htraffic ⊢
  cases htraffic with
  | idle | asked | refused | cancelled | closed | outside => exact .inl rfl
  | read _ hreading => exact .inl (touches_of_reading hreading)
  | writing _ _ hclosing | written _ _ hclosing =>
      rw [h] at hclosing
      cases hclosing
  | hungUp hholder => exact .inr ⟨⟨rfl, hholder⟩, rfl⟩

end Watched

/-! ## What a connection has taken -/

namespace Framed

theorem sameOutbound_of_reading {f f' : Framed Script} (h : Codec.Reading f f') :
    f.SameOutbound f' := by
  induction h with
  | header now => exact f.sameOutbound_receive _ _ now
  | body shape now => exact f.sameOutbound_receive _ _ now
  | discarded now => exact f.sameOutbound_receive _ _ now
  | cancelled => exact .refl f
  | dropped _ ih => exact ih.trans ⟨rfl, _, _, rfl⟩

theorem aborted_write (r : Wire.Request) (args : Wire.Value) (now : Nat) (f : Framed Script) :
    (f.write r args now).2.outbound.aborted = f.outbound.aborted := by
  have hstep := f.writeStep_write r args now
  generalize f.write r args now = written at hstep ⊢
  obtain ⟨poll, f'⟩ := written
  cases hstep with
  | begun _ hbegins =>
      cases hbegins
      rfl
  | refused => rfl
  | shipped _ hships =>
      cases hships with
      | going _ _ halike => exact halike.aborted
      | finished => rfl
      | failed _ _ halike => exact halike.aborted

theorem counts_aborted :
    Codec.Counts Script.Twist fun f : Framed Script => f.outbound.aborted.toNat where
  reading h := by rw [(sameOutbound_of_reading h).1]
  write request args now f := congrArg Bool.toNat (f.aborted_write request args now)
  cancelWrite _ := rfl
  close f h := by
    have haborted : f.outbound.aborted = false := by simpa using h
    show f.close.2.outbound.aborted.toNat = 1
    rw [f.close_eq haborted]
    rfl
  act _ _ := rfl

/-- When the writing was given up, nothing is left of it. -/
def IsGone (f : Framed Script) : Prop :=
  f.outbound.aborted = true → f.outbound.buffer = [] ∧ f.outbound.writing = none ∧
    f.link.shut = true ∧ f.link.writerGone = true

theorem IsGone.of_same {f f' : Framed Script} (h : f.IsGone) (hsame : f.SameOutbound f') :
    f'.IsGone := by
  obtain ⟨houtbound, _, _, hlink⟩ := hsame
  rw [IsGone, houtbound, hlink]
  exact h

variable {s : Session (Framed Script)}

theorem isGone_perform (h : s.codec.IsGone) (hleaving : s.IsLeaving (·.outbound.aborted.toNat))
    (d : Deed Script.Twist) : (s.perform d).codec.IsGone := by
  have htraffic := Session.traffic_perform d s
  generalize (s.perform d).client.closing = closing at htraffic
  generalize (s.perform d).lock = lock at htraffic
  generalize (s.perform d).codec = codec at htraffic ⊢
  cases htraffic with
  | idle | asked | refused | closed => exact h
  | read _ hreading => exact h.of_same (sameOutbound_of_reading hreading)
  | cancelled =>
      intro haborted
      obtain ⟨hbuffer, _, hlink⟩ := h haborted
      exact ⟨hbuffer, rfl, hlink⟩
  | @writing w now _ hclosing | @written w now _ hclosing =>
      -- Whoever writes does so before the owner closes, so nothing is given up yet.
      unfold Session.IsLeaving at hleaving
      rw [hclosing] at hleaving
      have hnot : s.codec.outbound.aborted = false := by simpa using hleaving.of_open.2
      intro haborted
      rw [show (Codec.write w.request w.args now s.codec).2.outbound.aborted = _ from
        s.codec.aborted_write w.request w.args now, hnot] at haborted
      cases haborted
  | hungUp hholder =>
      have hnot : s.codec.outbound.aborted = false := by
        simpa using (hleaving.of_holder hholder).1
      intro _
      rw [show (Codec.close s.codec).2 = _ from s.codec.close_eq hnot]
      exact ⟨rfl, rfl, rfl, rfl⟩
  | outside twist => cases twist <;> exact h

/-- After the owner has closed, the connection takes nothing. -/
theorem taken_perform (h : s.client.closing = true)
    (hleaving : s.IsLeaving (·.outbound.aborted.toNat)) (d : Deed Script.Twist) :
    (s.perform d).codec.link.taken = s.codec.link.taken := by
  have htraffic := Session.traffic_perform d s
  generalize (s.perform d).client.closing = closing at htraffic
  generalize (s.perform d).lock = lock at htraffic
  generalize (s.perform d).codec = codec at htraffic ⊢
  cases htraffic with
  | idle | asked | refused | cancelled | closed => rfl
  | read _ hreading =>
      obtain ⟨_, _, _, hlink⟩ := sameOutbound_of_reading hreading
      rw [hlink]
  | writing _ _ hclosing | written _ _ hclosing =>
      rw [h] at hclosing
      cases hclosing
  | hungUp hholder =>
      have hnot : s.codec.outbound.aborted = false := by
        simpa using (hleaving.of_holder hholder).1
      rw [show (Codec.close s.codec).2 = _ from s.codec.close_eq hnot]
  | outside twist => cases twist <;> rfl

end Framed

/-! ## Every life -/

namespace History

theorem isLeaving_run {closes : κ → Nat} (hcounts : Codec.Counts ω closes) (codec : κ)
    (hcodec : closes codec = 0) (deeds : List (Deed ω)) :
    (run codec deeds).session.IsLeaving closes := by
  induction deeds using List.reverseRecOn with
  | nil =>
      show Farewell false {} (closes codec)
      rw [hcodec]
      exact .start
  | append_singleton deeds d ih =>
      rw [run_append_singleton]
      exact Session.isLeaving_perform hcounts ih d

theorem touches_run (codec : κ) (deeds more : List (Deed ω))
    (hclosing : (run ({ codec } : Watched κ) deeds).session.client.closing = true) :
    ∃ count, (run ({ codec } : Watched κ) (deeds ++ more)).session.codec.touches =
      (run ({ codec } : Watched κ) deeds).session.codec.touches ++
        List.replicate count .close := by
  induction more using List.reverseRecOn with
  | nil => exact ⟨0, by simp⟩
  | append_singleton more d ih =>
      obtain ⟨count, htouches⟩ := ih
      have hstill := (onward_run ({ codec } : Watched κ) deeds more).closing hclosing
      rw [← List.append_assoc, run_append_singleton]
      rcases Watched.touches_perform hstill d with hsame | ⟨_, hmore⟩
      · exact ⟨count, hsame.trans htouches⟩
      · refine ⟨count + 1, hmore.trans ?_⟩
        rw [htouches, List.append_assoc, List.replicate_succ']

/-- What holds of a client at some moment, and from then on to a later one, about
what is asked of the writing half of its codec. -/
structure Silent (ω : Type) [Surroundings ω κ] (h later : History (Watched κ)) : Prop where
  /-- The codec is closed at most once, and only after the owner asked for it. -/
  once : later.session.codec.touches.count .close ≤ 1
  notYet : later.session.client.closing = false → .close ∉ later.session.codec.touches
  /-- After that nothing else is asked of it: no request is begun or gone on
  with. -/
  silent : h.session.client.closing = true →
    later.session.codec.touches = h.session.codec.touches ∨
      later.session.codec.touches = h.session.codec.touches ++ [.close]
  /-- Whoever has the lock to write is told so and gives it up. -/
  yields : h.session.client.closing = true → ∀ (seq : UInt64) (w : Writer) (now : Nat),
    later.session.writers.find? (·.request.seq = seq) = some w → w.queued = true →
      later.session.lock.holder = some (.writer seq) →
        later.session.writeFailure seq now = some .shutdown ∧
          later.session.stepWriter seq now = (.done (), { later.session with
            codec := if w.begun then Codec.cancelWrite later.session.codec
              else later.session.codec
            lock := later.session.lock.release
            writers := later.session.writers.filter (·.request.seq != seq)
            client := later.session.client.writeFailed seq .shutdown })
  /-- The owner waits for the lock or has closed, and closes when they have it. -/
  waits : later.session.client.closing = true →
    (.closer ∈ later.session.lock.queue ↔ .close ∉ later.session.codec.touches)
  closes : later.session.client.closing = true → ∀ d : Deed ω,
    (later.session.perform d).codec.touches = later.session.codec.touches ++ [.close] ↔
      d = .hangUp ∧ later.session.lock.holder = some .closer
  /-- Anybody else who wants to close is told that the client is shut down. -/
  refuses : h.session.client.isOver = true →
    later.session.beginClose = .error .shutdown ∧
      later.session.perform (.close : Deed ω) = later.session

/-- What a connection has taken when the owner closes is all that it takes, and
when the owner has had the lock nothing is left to be sent. -/
structure LastWords (h later : History (Framed Script)) : Prop where
  taken : h.session.client.closing = true →
    later.session.codec.link.taken = h.session.codec.link.taken
  dropped : later.session.client.closing = true → .closer ∉ later.session.lock.queue →
    later.session.codec.outbound.aborted = true ∧ later.session.codec.outbound.buffer = [] ∧
      later.session.codec.outbound.writing = none ∧ later.session.codec.link.shut = true

theorem silent_watched (codec : κ) (deeds more : List (Deed ω)) :
    Silent ω (run ({ codec } : Watched κ) deeds) (run ({ codec } : Watched κ) (deeds ++ more)) := by
  have hleaving := isLeaving_run Watched.counts_closes { codec } rfl (deeds ++ more)
  have honward := onward_run ({ codec } : Watched κ) deeds more
  have honce : (run ({ codec } : Watched κ) (deeds ++ more)).session.lock.queue.count .closer +
      (run ({ codec } : Watched κ) (deeds ++ more)).session.codec.touches.count .close =
        (run ({ codec } : Watched κ) (deeds ++ more)).session.client.closing.toNat :=
    hleaving.once
  have hle := Bool.toNat_le (run ({ codec } : Watched κ) (deeds ++ more)).session.client.closing
  refine ⟨by omega, ?_, ?_, ?_, ?_, ?_, ?_⟩
  · intro hopen
    rw [hopen, Bool.toNat_false] at honce
    exact List.count_eq_zero.mp (by omega)
  · intro hclosing
    obtain ⟨count, htouches⟩ := touches_run codec deeds more hclosing
    rw [htouches, List.count_append, List.count_replicate_self] at honce
    have hcount : count = 0 ∨ count = 1 := by omega
    rcases hcount with rfl | rfl
    · exact .inl (by rw [htouches, List.replicate_zero, List.append_nil])
    · exact .inr (by rw [htouches, List.replicate_one])
  · intro hclosing seq w now hfind hqueued hholder
    exact Session.stepWriter_of_closing (honward.closing hclosing) hfind hqueued hholder now
  · intro hclosing
    rw [hclosing, Bool.toNat_true] at honce
    rw [← List.count_pos_iff, ← List.count_eq_zero]
    omega
  · intro hclosing d
    constructor
    · intro htouches
      rcases Watched.touches_perform hclosing d with hsame | ⟨hd, _⟩
      · rw [hsame] at htouches
        simp at htouches
      · exact hd
    · rintro ⟨rfl, hholder⟩
      simp [Session.perform, Session.stepClose, hholder, Codec.close, Watched.note]
  · intro hover
    have hlater := honward.isOver hover
    constructor
    · simp [Session.beginClose, Client.beginClose, hlater]
    · simp [Session.perform, Session.beginClose, Client.beginClose, hlater]

theorem lastWords_framed (codec : Framed Script) (hcodec : codec.outbound.aborted = false)
    (deeds more : List (Deed Script.Twist)) :
    LastWords (run codec deeds) (run codec (deeds ++ more)) := by
  have hleaving := isLeaving_run Framed.counts_aborted codec (by rw [hcodec]; rfl)
  have hgone (deeds : List (Deed Script.Twist)) : (run codec deeds).session.codec.IsGone := by
    induction deeds using List.reverseRecOn with
    | nil =>
        intro haborted
        rw [show (run codec ([] : List (Deed Script.Twist))).session.codec = codec from rfl,
          hcodec] at haborted
        cases haborted
    | append_singleton deeds d ih =>
        rw [run_append_singleton]
        exact Framed.isGone_perform ih (hleaving deeds) d
  constructor
  · intro hclosing
    induction more using List.reverseRecOn with
    | nil => rw [List.append_nil]
    | append_singleton more d ih =>
        have hstill := (onward_run codec deeds more).closing hclosing
        rw [← List.append_assoc, run_append_singleton, ← ih]
        exact Framed.taken_perform hstill (hleaving _) d
  · intro hclosing habsent
    have honce := (hleaving (deeds ++ more)).once
    rw [hclosing, List.count_eq_zero_of_not_mem habsent, Nat.zero_add, Bool.toNat_true] at honce
    have haborted : (run codec (deeds ++ more)).session.codec.outbound.aborted = true := by
      simpa using honce
    obtain ⟨hbuffer, hwriting, hshut, _⟩ := hgone _ haborted
    exact ⟨haborted, hbuffer, hwriting, hshut⟩

/-- However the deeds of a client follow each other and whatever codec it
speaks, nothing is written after its owner has closed, and the codec is closed
once, with the lock. Whether one watches it or not makes no difference. Over
frames, nothing more is taken and what is buffered is dropped. -/
theorem silent_run (codec : κ) (deeds more : List (Deed ω)) (link : Script) (inbound : Inbound)
    (limit : Nat) (patience : Option Nat) (life rest : List (Deed Script.Twist)) :
    (run ({ codec } : Watched κ) (deeds ++ more)).unwatched = run codec (deeds ++ more) ∧
      Silent ω (run ({ codec } : Watched κ) deeds) (run ({ codec } : Watched κ) (deeds ++ more)) ∧
      LastWords (run (⟨link, inbound, { limit, patience }⟩ : Framed Script) life)
        (run (⟨link, inbound, { limit, patience }⟩ : Framed Script) (life ++ rest)) :=
  ⟨unwatched_run codec (deeds ++ more), silent_watched codec deeds more,
    lastWords_framed _ rfl life rest⟩

/-- Two calls. The request of the first is being written, and that of the second
waits for the lock, when the owner closes. -/
def interrupted (ω : Type) : List (Deed ω) :=
  let ask : Ask := ⟨0, "Arith.Multiply", .unit, .unit⟩
  [.go ask, .go ask] ++ List.replicate 14 (.task (.writer 0) 0) ++ [.task (.writer 1) 0, .close]

/-- Then somebody else wants to close, the lock goes from hand to hand, and the
owner has the last word. -/
def lastSteps (ω : Type) : List (Deed ω) :=
  [.close, .task (.writer 0) 0, .task (.writer 1) 0, .hangUp, .task (.writer 1) 0, .hangUp]

/-- A codec that does not get done with the first request. -/
def stallingCodec : Rehearsal := { stalls := [0] }

/-- A connection that takes ten octets and no more. -/
def tightLink : Script := { credit := some 10 }

theorem silent_of_interrupted :
    (run ({ codec := stallingCodec } : Watched Rehearsal)
        (interrupted (List Cue) ++ lastSteps (List Cue))).session.codec.touches =
      List.replicate 12 (.write 0) ++ [.close] ∧
    (run (⟨tightLink, {}, {}⟩ : Framed Script)
        (interrupted Script.Twist)).session.codec.link.taken.length = 10 ∧
    LastWords (run (⟨tightLink, {}, {}⟩ : Framed Script) (interrupted Script.Twist))
      (run (⟨tightLink, {}, {}⟩ : Framed Script)
        (interrupted Script.Twist ++ lastSteps Script.Twist)) := by
  refine ⟨by rfl, by rfl, ?_⟩
  have hrun := silent_run stallingCodec (interrupted (List Cue)) (lastSteps (List Cue)) tightLink {}
    maxPayload none (interrupted Script.Twist) (lastSteps Script.Twist)
  exact hrun.2.2

end History

end Switchboard
