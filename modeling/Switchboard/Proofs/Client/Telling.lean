import Switchboard.Proofs.Client.Change

/-!
# Telling calls

Nobody who is told is told twice at once, and nothing that was signalled is
taken back: what an operation signals comes behind what was signalled before.
`Tells` says which calls were told what. It needs that whoever waits can be told
at all and was told nothing yet (`Sound`), which every deed preserves.
-/

namespace Switchboard

open Session (Deed Notice)

namespace Client

/-- From one moment to the other these calls were told these outcomes, in this
order. -/
def Tells (told : List (Pending × Except CallError Wire.Value)) (c c' : Client) : Prop :=
  c'.signals = c.signals ++ told.map fun t => t.1.signal t.2

theorem Tells.trans {first second : List (Pending × Except CallError Wire.Value)}
    {c c' c'' : Client} (h : c.Tells first c') (h' : c'.Tells second c'') :
    c.Tells (first ++ second) c'' := by
  rw [Tells, h', h, List.map_append, List.append_assoc]

/-- A registered call that can be told its outcome and was not. -/
structure Awaits (c : Client) (p : Pending) : Prop where
  fresh : p.call.IsOpen
  housed : p.mailbox < c.mailboxes.length
  numbered : p.call.seq.isSome = true

theorem Awaits.mono {c c' : Client} {p : Pending} (h : c.Awaits p)
    (hmailboxes : c.mailboxes.length ≤ c'.mailboxes.length) : c'.Awaits p :=
  ⟨h.fresh, Nat.lt_of_lt_of_le h.housed hmailboxes, h.numbered⟩

/-- Whoever waits in the table, under the own number, or is in hand, can be
told. -/
structure Sound (held : List Pending) (c : Client) : Prop where
  waiting : ∀ entry ∈ c.table, c.Awaits entry.2
  keyed : ∀ entry ∈ c.table, entry.2.call.seq = some entry.1
  inHand : ∀ p ∈ held, c.Awaits p

namespace Sound

variable {held : List Pending} {c c' : Client}

/-- Nobody came in, and the mailboxes are still there. -/
theorem congr (h : Sound held c) (htable : c'.table ⊆ c.table)
    (hmailboxes : c.mailboxes.length ≤ c'.mailboxes.length) : Sound held c' where
  waiting entry hentry := (h.waiting entry (htable hentry)).mono hmailboxes
  keyed entry hentry := h.keyed entry (htable hentry)
  inHand p hp := (h.inHand p hp).mono hmailboxes

theorem alike (h : Sound held c) (hc : c.Alike c') : Sound held c' :=
  h.congr (by rw [hc.table]; exact List.Subset.refl _) hc.mailboxes

theorem register (h : Sound held c) {p : Pending} (hopen : p.call.IsOpen)
    (hmailbox : p.mailbox < c.mailboxes.length) (hover : c.isOver = false) :
    Sound held (c.issue p.call p.shape p.mailbox).2 ∧
      c.Tells [] (c.issue p.call p.shape p.mailbox).2 := by
  rw [issue_open hover]
  have hlength : (c.updateMailbox p.mailbox (·.addHandle)).mailboxes.length =
      c.mailboxes.length := by simp [updateMailbox]
  refine ⟨⟨?_, ?_, ?_⟩, (List.append_nil _).symm⟩
  · intro entry hentry
    rcases List.mem_append.mp hentry with hold | hnew
    · exact (h.waiting entry hold).mono (Nat.le_of_eq hlength.symm)
    · rw [List.mem_singleton.mp hnew]
      exact ⟨hopen, by rw [hlength]; exact hmailbox, rfl⟩
  · intro entry hentry
    rcases List.mem_append.mp hentry with hold | hnew
    · exact h.keyed entry hold
    · rw [List.mem_singleton.mp hnew]
  · intro q hq
    exact (h.inHand q hq).mono (Nat.le_of_eq hlength.symm)

theorem refuse (h : Sound held c) {p : Pending} (hmailbox : p.mailbox < c.mailboxes.length)
    (hover : c.isOver = true) :
    Sound held (c.issue p.call p.shape p.mailbox).2 ∧
      c.Tells [(p, .error .shutdown)] (c.issue p.call p.shape p.mailbox).2 := by
  rw [issue_over hover]
  refine ⟨h.congr ?_ ?_, ?_⟩
  · simp [updateMailbox]
  · simp [updateMailbox]
  · rw [Tells, signals_finish _ (by simpa [updateMailbox] using hmailbox)]
    rfl

theorem remove (h : Sound held c) {seq : UInt64} {p : Pending}
    (hp : c.remove seq = some (p, c')) : Sound (p :: held) c' ∧ c.Tells [] c' := by
  obtain ⟨hlookup, rfl⟩ := remove_eq_some_iff.mp hp
  obtain ⟨before, after, htable, _⟩ := List.lookup_eq_some_iff.mp hlookup
  have hmem : (seq, p) ∈ c.table := by simp [htable]
  refine ⟨⟨?_, ?_, ?_⟩, (List.append_nil _).symm⟩
  · intro entry hentry
    exact (h.waiting entry (List.mem_filter.mp hentry).1).mono (Nat.le_refl _)
  · intro entry hentry
    exact h.keyed entry (List.mem_filter.mp hentry).1
  · intro q hq
    rcases List.mem_cons.mp hq with rfl | hq
    · exact (h.waiting (seq, q) hmem).mono (Nat.le_refl _)
    · exact (h.inHand q hq).mono (Nat.le_refl _)

theorem finish {p : Pending} (h : Sound (p :: held) c) (outcome : Except CallError Wire.Value) :
    Sound held (c.finish p outcome) ∧ c.Tells [(p, outcome)] (c.finish p outcome) := by
  have hheld : Sound held c :=
    ⟨h.waiting, h.keyed, fun q hq => h.inHand q (List.mem_cons_of_mem _ hq)⟩
  refine ⟨hheld.congr (by simp) (by simp), ?_⟩
  exact signals_finish outcome (h.inHand p List.mem_cons_self).housed

theorem writeFailed (h : Sound held c) (seq : UInt64) (error : CallError) :
    Sound held (c.writeFailed seq error) ∧
      c.Tells ((c.table.lookup seq).toList.map fun p => (p, .error error))
        (c.writeFailed seq error) := by
  rcases c.writeFailed_cases seq error with ⟨hlookup, heq⟩ | ⟨p, hlookup, heq⟩
  · rw [heq, hlookup]
    exact ⟨h, (List.append_nil _).symm⟩
  · rw [heq, hlookup]
    have hremove := remove_eq_some_iff.mpr ⟨hlookup, rfl⟩
    obtain ⟨hremoved, hsame⟩ := h.remove hremove
    obtain ⟨hfinished, htold⟩ := hremoved.finish (.error error)
    refine ⟨hfinished, ?_⟩
    -- Taking the call out signals nothing, so what follows starts from the same log.
    rw [Tells, List.map_nil, List.append_nil] at hsame
    rw [Tells, ← hsame]
    exact htold

theorem stop (h : Sound held c) (error : CallError) :
    Sound held (c.stop error) ∧
      c.Tells (c.table.map fun entry => (entry.2, .error (verdict c.closing error)))
        (c.stop error) := by
  refine ⟨h.congr (by simp) (by simp), ?_⟩
  rw [Tells, signals_stop error fun entry hentry => (h.waiting entry hentry).housed,
    List.map_map]
  rfl

theorem change {ns : List Notice} {r r' : Receiver} (h : Sound r.held c)
    (hchange : Session.Change ns (c, r) (c', r')) :
    Sound r'.held c' ∧ ∃ told, c.Tells told c' := by
  cases hchange with
  | mailboxes _ halike =>
      exact ⟨h.alike halike, [], halike.signals.trans (List.append_nil _).symm⟩
  | turnedAway => exact ⟨h, [], (List.append_nil _).symm⟩
  | @issued _ client _ p halike hopen hseq hmailbox =>
      have hclient := h.alike halike
      cases hover : client.isOver with
      | true =>
          obtain ⟨hsound, htold⟩ := hclient.refuse hmailbox hover
          exact ⟨hsound, _, by rw [Tells, ← halike.signals]; exact htold⟩
      | false =>
          obtain ⟨hsound, htold⟩ := hclient.register hopen hmailbox hover
          exact ⟨hsound, _, by rw [Tells, ← halike.signals]; exact htold⟩
  | unsent _ _ seq error =>
      obtain ⟨hsound, htold⟩ := h.writeFailed seq error
      exact ⟨hsound, _, htold⟩
  | closed => exact ⟨h.congr (List.Subset.refl _) (Nat.le_refl _), [], (List.append_nil _).symm⟩
  | cancelled =>
      obtain ⟨hsound, htold⟩ := h.stop .eof
      exact ⟨hsound, _, htold⟩
  | noHeader error =>
      obtain ⟨hsound, htold⟩ := h.stop error
      exact ⟨hsound, _, htold⟩
  | unmatched response =>
      have halike := Alike.log (e := .unknownResponse response.seq) rfl c
      exact ⟨h.alike halike, [], halike.signals.trans (List.append_nil _).symm⟩
  | matched response p _ hsome =>
      obtain ⟨hsound, htold⟩ := h.remove hsome
      rw [Receiver.held_answering]
      exact ⟨hsound, _, htold⟩
  | replied p result =>
      obtain ⟨hsound, htold⟩ := h.finish (result.mapError .readingBody)
      exact ⟨hsound, _, htold⟩
  | passed => exact ⟨h, [], (List.append_nil _).symm⟩
  | notPassed _ error =>
      obtain ⟨hsound, htold⟩ := h.stop error
      exact ⟨hsound, _, htold⟩
  | refuted _ p text =>
      obtain ⟨hsound, htold⟩ := h.finish (.error (.server text))
      exact ⟨hsound, _, htold⟩
  | refutedLast _ p text error =>
      obtain ⟨hfinished, htold⟩ := h.finish (.error (.server text))
      obtain ⟨hsound, hdrained⟩ := hfinished.stop (.readingErrorBody error)
      exact ⟨hsound, _, htold.trans hdrained⟩

end Sound

end Client

namespace History

variable {ω κ : Type} [Codec κ] [Surroundings ω κ]

theorem sound_run (codec : κ) (deeds : List (Deed ω)) :
    (run codec deeds).session.client.Sound (run codec deeds).session.receiver.held := by
  induction deeds using List.reverseRecOn with
  | nil => exact ⟨by simp, by simp, by simp [Receiver.held]⟩
  | append_singleton deeds d ih =>
      rw [run_append_singleton]
      exact (ih.change (Session.change_of_perform (isHonest_run codec deeds) d)).1

/-- What was signalled stays. -/
theorem mem_signals_of_earlier {codec : κ} {earlier deeds : List (Deed ω)}
    (h : earlier <+: deeds) {signal : Nat × Call}
    (hsignal : signal ∈ (run codec earlier).session.client.signals) :
    signal ∈ (run codec deeds).session.client.signals := by
  obtain ⟨later, rfl⟩ := h
  induction later using List.reverseRecOn with
  | nil => rwa [List.append_nil]
  | append_singleton later d ih =>
      have hchange := Session.change_of_perform (isHonest_run codec (earlier ++ later)) d
      obtain ⟨_, told, htold⟩ := (sound_run codec (earlier ++ later)).change hchange
      rw [← List.append_assoc, run_append_singleton]
      change signal ∈ ((run codec (earlier ++ later)).session.perform d).client.signals
      rw [htold]
      exact List.mem_append_left _ ih

end History

end Switchboard
