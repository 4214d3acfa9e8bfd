import Mathlib.Data.List.Nodup
import Switchboard.Proofs.Client.Accounting

/-!
# The queue for the write lock

Whoever has the write lock, or waits for it, is somebody who will give it back:
the owner who closes, or the writer of a request that is not finished. This is
what `Orderly` says, and every deed preserves it. A lock that nobody has is a
lock that nobody waits for, so the queue never stands still by itself.
-/

namespace Switchboard

open Session (Deed)

namespace Lock

/-- Everybody who asked for the lock and did not give it back, in the order in
which they asked. -/
def queue (l : Lock) : List Party := l.holder.toList ++ l.waiting

theorem queue_ask {l : Lock} (free : l.holder = none → l.waiting = []) (p : Party) :
    (l.ask p).queue = l.queue ++ [p] := by
  obtain ⟨holder, waiting⟩ := l
  cases holder with
  | none =>
      have hwaiting : waiting = [] := free rfl
      simp [ask, queue, hwaiting]
  | some q => simp [ask, queue]

theorem free_ask (p : Party) (l : Lock) :
    (l.ask p).holder = none → (l.ask p).waiting = [] := by
  unfold ask
  split
  · intro h
    cases h
  · rename_i hholder
    intro h
    cases hholder.symm.trans h

theorem queue_release {l : Lock} {p : Party} (h : l.holder = some p) :
    l.queue = p :: l.release.queue := by
  obtain ⟨holder, waiting⟩ := l
  obtain rfl : holder = some p := h
  cases waiting <;> rfl

theorem free_release (l : Lock) : l.release.holder = none → l.release.waiting = [] := by
  obtain ⟨holder, waiting⟩ := l
  cases waiting with
  | nil => exact fun _ => rfl
  | cons => exact fun h => nomatch h

end Lock

/-! ## The invariant -/

/-- The writers and the lock fit together, for a client whose next call has the
number `next`. -/
structure Orderly (next : UInt64) (writers : List Writer) (lock : Lock) : Prop where
  free : lock.holder = none → lock.waiting = []
  known : ∀ w ∈ writers, w.request.seq < next
  distinct : (writers.map (·.request.seq)).Nodup
  once : ∀ seq, lock.queue.count (.writer seq) ≤ 1
  queued : ∀ seq, .writer seq ∈ lock.queue ↔
    ∃ w ∈ writers, w.request.seq = seq ∧ w.queued = true

namespace Orderly

variable {next : UInt64} {writers : List Writer} {lock : Lock}

theorem start : Orderly 0 [] {} := ⟨fun _ => rfl, by simp, by simp, by simp [Lock.queue],
  by simp [Lock.queue]⟩

/-- A writer has a number of its own. -/
theorem eq_of_seq (h : Orderly next writers lock) {v w : Writer} (hv : v ∈ writers)
    (hw : w ∈ writers) (hseq : v.request.seq = w.request.seq) : v = w :=
  List.inj_on_of_nodup_map h.distinct hv hw hseq

theorem find (h : Orderly next writers lock) {w : Writer} (hw : w ∈ writers) :
    writers.find? (·.request.seq = w.request.seq) = some w := by
  cases hfind : writers.find? (·.request.seq = w.request.seq) with
  | none =>
      have hnone := List.find?_eq_none.mp hfind w hw
      simp at hnone
  | some v =>
      have hseq : v.request.seq = w.request.seq := by simpa using List.find?_some hfind
      rw [h.eq_of_seq (List.mem_of_find?_eq_some hfind) hw hseq]

theorem add (h : Orderly next writers lock) (few : next.toNat + 1 < 2 ^ 64) {w : Writer}
    (hseq : w.request.seq = next) (hqueued : w.queued = false) :
    Orderly (next + 1) (writers ++ [w]) lock := by
  have hnext : (next + 1).toNat = next.toNat + 1 := by
    simp [UInt64.toNat_add] at few ⊢
    omega
  refine ⟨h.free, ?_, ?_, h.once, ?_⟩
  · intro v hv
    rw [UInt64.lt_iff_toNat_lt, hnext]
    rcases List.mem_append.mp hv with hold | hnew
    · have hlt := UInt64.lt_iff_toNat_lt.mp (h.known v hold)
      omega
    · rw [List.mem_singleton.mp hnew, hseq]
      omega
  · rw [List.map_append, List.map_singleton, hseq, List.nodup_append]
    -- All numbers in use are smaller than the new one.
    refine ⟨h.distinct, List.nodup_singleton _, ?_⟩
    intro seq hold other hother heq
    obtain ⟨v, hv, rfl⟩ := List.mem_map.mp hold
    rw [List.mem_singleton.mp hother] at heq
    exact UInt64.lt_irrefl next (heq ▸ h.known v hv)
  · intro seq
    rw [h.queued]
    simp [or_and_right, exists_or, hqueued]

/-- Something is done to one writer, which keeps its number. -/
theorem update (h : Orderly next writers lock) {lock' : Lock} (seq : UInt64)
    {f : Writer → Writer} (hf : ∀ w, (f w).request.seq = w.request.seq)
    (hfree : lock'.holder = none → lock'.waiting = [])
    (honce : ∀ seq, lock'.queue.count (.writer seq) ≤ 1)
    (hqueued : ∀ other, .writer other ∈ lock'.queue ↔
      ∃ w ∈ writers, w.request.seq = other ∧ (if w.request.seq = seq then f w else w).queued) :
    Orderly next (writers.map fun w => if w.request.seq = seq then f w else w) lock' := by
  have hseq (w : Writer) : (if w.request.seq = seq then f w else w).request.seq =
      w.request.seq := by
    split
    · exact hf w
    · rfl
  refine ⟨hfree, ?_, ?_, honce, ?_⟩
  · intro v hv
    obtain ⟨w, hw, rfl⟩ := List.mem_map.mp hv
    rw [hseq]
    exact h.known w hw
  · simpa [Function.comp_def, hseq] using h.distinct
  · intro other
    rw [hqueued]
    simp [hseq]

theorem begin (h : Orderly next writers lock) (seq : UInt64) :
    Orderly next (writers.map fun w => if w.request.seq = seq then { w with begun := true } else w)
      lock := by
  refine h.update seq (f := ({ · with begun := true })) (fun _ => rfl) h.free h.once ?_
  intro other
  have hsame (w : Writer) :
      (if w.request.seq = seq then { w with begun := true } else w).queued = w.queued := by
    split <;> rfl
  simpa [hsame] using h.queued other

theorem ask (h : Orderly next writers lock) {w : Writer} (hw : w ∈ writers)
    (hqueued : w.queued = false) :
    Orderly next
      (writers.map fun v => if v.request.seq = w.request.seq then { v with queued := true } else v)
      (lock.ask (.writer w.request.seq)) := by
  -- Nobody else has the number, so nobody has asked under it.
  have habsent : Party.writer w.request.seq ∉ lock.queue := by
    intro hmem
    obtain ⟨v, hv, hseq, hvqueued⟩ := (h.queued _).mp hmem
    rw [h.eq_of_seq hv hw hseq, hqueued] at hvqueued
    cases hvqueued
  refine h.update _ (f := ({ · with queued := true })) (fun _ => rfl) (Lock.free_ask _ _) ?_ ?_
  · intro other
    rw [Lock.queue_ask h.free, List.count_append]
    by_cases hother : other = w.request.seq
    · rw [hother, List.count_eq_zero_of_not_mem habsent]
      simp
    · simpa [List.count_cons, Ne.symm hother] using h.once other
  · intro other
    rw [Lock.queue_ask h.free, List.mem_append, List.mem_singleton, h.queued]
    constructor
    · rintro (⟨v, hv, hseq, hvqueued⟩ | heq)
      · refine ⟨v, hv, hseq, ?_⟩
        split
        · rfl
        · exact hvqueued
      · cases heq
        exact ⟨w, hw, rfl, by simp⟩
    · rintro ⟨v, hv, hseq, hvqueued⟩
      by_cases hvw : v.request.seq = w.request.seq
      · exact .inr (by rw [← hseq, hvw])
      · rw [if_neg hvw] at hvqueued
        exact .inl ⟨v, hv, hseq, hvqueued⟩

/-- The owner asks for the lock. -/
theorem askCloser (h : Orderly next writers lock) :
    Orderly next writers (lock.ask .closer) := by
  refine ⟨Lock.free_ask _ _, h.known, h.distinct, ?_, ?_⟩
  · intro seq
    simpa [Lock.queue_ask h.free, List.count_cons] using h.once seq
  · intro seq
    simpa [Lock.queue_ask h.free] using h.queued seq

/-- A writer that has the lock is done. -/
theorem leave (h : Orderly next writers lock) {seq : UInt64}
    (hholder : lock.holder = some (.writer seq)) :
    Orderly next (writers.filter (·.request.seq != seq)) lock.release := by
  have hqueue := Lock.queue_release hholder
  refine ⟨Lock.free_release lock, ?_, ?_, ?_, ?_⟩
  · intro w hw
    exact h.known w (List.mem_filter.mp hw).1
  · exact h.distinct.sublist (List.filter_sublist.map _)
  · intro other
    have honce := h.once other
    rw [hqueue, List.count_cons] at honce
    omega
  · intro other
    have hother := h.queued other
    have honce := h.once seq
    rw [hqueue, List.mem_cons] at hother
    rw [hqueue, List.count_cons_self] at honce
    -- The lock was asked for once, so with the lock the place in the queue is gone.
    have habsent : Party.writer seq ∉ lock.release.queue :=
      List.count_eq_zero.mp (by omega)
    by_cases heq : other = seq
    · subst heq
      simp only [habsent, false_iff, not_exists, not_and]
      intro w hw hseq
      have hkept := (List.mem_filter.mp hw).2
      simp [hseq] at hkept
    · simp only [Party.writer.injEq, heq, false_or] at hother
      rw [hother]
      constructor
      · rintro ⟨w, hw, hseq, hqueued⟩
        exact ⟨w, List.mem_filter.mpr ⟨hw, by simpa [hseq] using heq⟩, hseq, hqueued⟩
      · rintro ⟨w, hw, hseq, hqueued⟩
        exact ⟨w, (List.mem_filter.mp hw).1, hseq, hqueued⟩

/-- The owner has closed the connection. -/
theorem leaveCloser (h : Orderly next writers lock) (hholder : lock.holder = some .closer) :
    Orderly next writers lock.release := by
  have hqueue := Lock.queue_release hholder
  refine ⟨Lock.free_release lock, h.known, h.distinct, ?_, ?_⟩
  · intro seq
    simpa [hqueue, List.count_cons] using h.once seq
  · intro seq
    simpa [hqueue] using h.queued seq

end Orderly

/-! ## Every life -/

namespace Client

theorem nextSeq_remove {seq : UInt64} {p : Pending} {c c' : Client}
    (h : c.remove seq = some (p, c')) : c'.nextSeq = c.nextSeq := by
  obtain ⟨_, rfl⟩ := remove_eq_some_iff.mp h
  rfl

end Client

namespace Session

variable {ω κ : Type} [Codec κ] [Surroundings ω κ]

def IsOrderly (s : Session κ) : Prop := Orderly s.client.nextSeq s.writers s.lock

omit [Codec κ] in
theorem orderly_issue {s : Session κ} (h : s.IsOrderly) (call : Call) (shape : Wire.Shape)
    (mailbox : Nat) (few : s.client.isOver = false → s.client.nextSeq.toNat + 1 < 2 ^ 64) :
    (s.issue call shape mailbox).IsOrderly := by
  have hrequest := s.client.issue_request call shape mailbox
  cases hover : s.client.isOver with
  | true =>
      have hclient := s.client.issue_over hover call shape mailbox
      simp only [hover, if_true] at hrequest
      simp only [IsOrderly, issue, hrequest, hclient]
      simpa [IsOrderly, Client.updateMailbox] using h
  | false =>
      have hclient := s.client.issue_open hover call shape mailbox
      simp only [hover, Bool.false_eq_true, if_false] at hrequest
      simp only [IsOrderly, issue, hrequest, hclient]
      exact h.add (few hover) rfl rfl

theorem orderly_stepReceiver {s : Session κ} (h : s.IsOrderly) (now : Nat) :
    (s.stepReceiver now).2.IsOrderly := by
  have hstep := s.stepReceiver_cases now
  generalize s.readEnding now = failure at hstep
  generalize (s.stepReceiver now).2 = s' at hstep ⊢
  cases hstep with
  | @header response =>
      simp only [route]
      split
      · exact h
      · rename_i hremove
        have hnext := Client.nextSeq_remove hremove
        split <;> simpa [IsOrderly, hnext] using h
  | cancelled | noHeader | notPassed | body | refuted | refutedLast =>
      simpa [IsOrderly, endReceiver] using h
  | ended | headerAwaited | bodyAwaited | discardAwaited | passed => exact h

omit [Codec κ] in
theorem orderly_endWriter {s : Session κ} (h : s.IsOrderly) {seq : UInt64}
    (hholder : s.lock.holder = some (.writer seq)) (result : Except CallError Unit) :
    (s.endWriter seq result).2.IsOrderly := by
  have hleft := h.leave hholder
  cases result with
  | ok => exact hleft
  | error error => simpa [IsOrderly, endWriter] using hleft

theorem orderly_stepWriter {s : Session κ} (h : s.IsOrderly) (seq : UInt64) (now : Nat) :
    (s.stepWriter seq now).2.IsOrderly := by
  have hstep := s.stepWriter_cases seq now
  generalize s.writeFailure seq now = failure at hstep
  generalize (s.stepWriter seq now).2 = s' at hstep ⊢
  cases hstep with
  | @asked w hfind hqueued =>
      have hseq : w.request.seq = seq := by simpa using List.find?_some hfind
      subst hseq
      exact h.ask (List.mem_of_find?_eq_some hfind) hqueued
  | begun => exact h.begin seq
  | refused _ _ hholder => exact orderly_endWriter h hholder _
  | cancelled _ _ hholder =>
      exact orderly_endWriter (s := { s with codec := Codec.cancelWrite s.codec }) h hholder _
  | @written _ result codec _ _ hholder =>
      exact orderly_endWriter (s := { s with codec }) h hholder result
  | absent | queued | awaited => exact h

theorem orderly_stepCaller {s : Session κ} (h : s.IsOrderly) (place now : Nat)
    (few : s.client.nextSeq.toNat +
      ((s.noteStep now (.caller place)).filterMap Notice.registered?).length < 2 ^ 64) :
    (s.stepCaller place).2.IsOrderly := by
  have hstep := s.stepCaller_cases place
  generalize (s.stepCaller place).2 = s' at hstep ⊢
  cases hstep with
  | @made call shape hcaller hopen =>
      refine orderly_issue
        (s := { s with client := (s.client.addMailbox { capacity := 1, handles := 0 }).2 })
        h call shape s.client.mailboxes.length fun _ => ?_
      simpa [noteStep, noteCall, hcaller, hopen, Client.addMailbox] using few
  | taken _ htake =>
      rw [IsOrderly] at h ⊢
      rwa [(Client.Alike.takeCall htake).nextSeq]
  | absent | turnedAway | bereft | awaited | finished => exact h

theorem orderly_perform {s : Session κ} (h : s.IsOrderly) (d : Deed ω)
    (few : s.client.nextSeq.toNat + ((s.notices d).filterMap Notice.registered?).length
      < 2 ^ 64) : (s.perform d).IsOrderly := by
  cases d with
  | go a =>
      refine orderly_issue
        (s := { s with
          client := (s.client.addMailbox { capacity := defaultCapacity, handles := 0 }).2 })
        h a.call a.shape s.client.mailboxes.length ?_
      intro hopen
      have hnote : s.client.isOver = false := hopen
      simpa [notices, noteCall, hnote, Client.addMailbox] using few
  | goWith a mailbox =>
      simp only [perform]
      split
      · rename_i hmailbox
        refine orderly_issue h _ _ _ ?_
        intro hopen
        simpa [notices, noteCall, hmailbox, hopen] using few
      · exact h
  | task t now =>
      cases t with
      | receiver => exact orderly_stepReceiver h now
      | writer seq => exact orderly_stepWriter h seq now
      | caller place => exact orderly_stepCaller h place now few
  | completion capacity =>
      cases hopened : s.client.completion capacity with
      | error error => simpa [perform, hopened] using h
      | ok opened =>
          simp only [perform, hopened, IsOrderly, (Client.Alike.completion hopened).nextSeq]
          exact h
  | take mailbox =>
      cases htaken : s.client.takeCall mailbox with
      | none => simpa [perform, htaken] using h
      | some taken =>
          simp only [perform, htaken, IsOrderly, (Client.Alike.takeCall htaken).nextSeq]
          exact h
  | close =>
      cases hover : s.client.isOver with
      | true => simpa [perform, beginClose, Client.beginClose, hover] using h
      | false => simpa [perform, beginClose, Client.beginClose, hover, IsOrderly] using h.askCloser
  | hangUp =>
      simp only [perform, stepClose]
      split
      · exact h
      · rename_i hholder
        exact h.leaveCloser (not_not.mp hholder)
  | call | dropHandle | deafen | outside => exact h

end Session

namespace History

variable {ω κ : Type} [Codec κ] [Surroundings ω κ]

theorem orderly_run (codec : κ) (deeds : List (Deed ω))
    (few : (run codec deeds).registered.length < 2 ^ 64) :
    (run codec deeds).session.IsOrderly := by
  induction deeds using List.reverseRecOn with
  | nil => exact .start
  | append_singleton deeds d ih =>
      have hfewer := few_of_later few
      rw [run_append_singleton, registered_perform, List.length_append] at few
      rw [run_append_singleton]
      have hbooks := books_run codec deeds hfewer
      exact Session.orderly_perform (ih hfewer) d (by rw [hbooks.counted]; exact few)

end History

end Switchboard
