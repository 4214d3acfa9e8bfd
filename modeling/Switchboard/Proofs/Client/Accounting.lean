import Switchboard.Proofs.Client.Change

/-!
# Every call is accounted for

Four parties can finish a call: the receiver with its answer, its writer with a
failure, the end of reading, and the client itself when it is over. They all
work on one table. The invariant that keeps them apart is `Books`: the calls in
the table, the one in the receiver's hands and the ones that were signalled are
together a rearrangement of the calls that were registered. Finishing moves a
call from the first two to the third, so nobody can be told twice, and nobody
gets lost.

The numbers of the calls are their places in the order of registration. They
tell the calls apart as long as they do not run out.
-/

namespace Switchboard

open Session (Deed)

/-! ## Numbers -/

/-- Every call has its place as its number. -/
def Numbered (calls : List Pending) : Prop :=
  ∀ n p, calls[n]? = some p → p.call.seq = some (UInt64.ofNat n)

theorem Numbered.append_singleton {calls : List Pending} (h : Numbered calls) {p : Pending}
    (hp : p.call.seq = some (UInt64.ofNat calls.length)) : Numbered (calls ++ [p]) := by
  intro n q hq
  rcases Nat.lt_trichotomy n calls.length with hlt | rfl | hgt
  · rw [List.getElem?_append_left hlt] at hq
    exact h n q hq
  · rw [List.getElem?_concat_length] at hq
    cases hq
    exact hp
  · rw [List.getElem?_eq_none (by simp; omega)] at hq
    cases hq

/-- While the numbers last, a number finds the call at its place and no other. -/
theorem Numbered.filter {calls : List Pending} (h : Numbered calls)
    (few : calls.length ≤ 2 ^ 64) (seq : UInt64) :
    calls.filter (·.call.seq = some seq) = calls[seq.toNat]?.toList := by
  induction calls using List.reverseRecOn with
  | nil => rfl
  | append_singleton calls p ih =>
      have hlength : calls.length < 2 ^ 64 := by
        rw [List.length_append, List.length_singleton] at few
        exact few
      have hcalls : Numbered calls := by
        intro n q hq
        obtain ⟨hlt, _⟩ := List.getElem?_eq_some_iff.mp hq
        exact h n q (by rw [List.getElem?_append_left hlt, hq])
      have hp : p.call.seq = some (UInt64.ofNat calls.length) :=
        h calls.length p List.getElem?_concat_length
      have hplace : UInt64.ofNat calls.length = seq ↔ seq.toNat = calls.length := by
        rw [← UInt64.toNat_inj, UInt64.toNat_ofNat_of_lt' hlength]
        exact eq_comm
      rw [List.filter_append, ih hcalls (Nat.le_of_lt hlength)]
      -- The number is that of an older call, of this one, or of none so far.
      rcases Nat.lt_trichotomy seq.toNat calls.length with hlt | heq | hgt
      · simp [hp, hplace, Nat.ne_of_lt hlt, List.getElem?_append_left hlt]
      · simp [hp, hplace, heq]
      · have hnone : (calls ++ [p])[seq.toNat]? = none := List.getElem?_eq_none (by simp; omega)
        simp [hp, hplace, Nat.ne_of_gt hgt, hnone, Nat.le_of_lt hgt]

namespace Client

/-! ## The invariant -/

/-- The books of a client agree with what was noted down of the calls. -/
structure Books (held registered refused : List Pending) (c : Client) : Prop where
  counted : c.nextSeq.toNat = registered.length
  numbered : Numbered registered
  unnumbered : ∀ p ∈ refused, p.call.seq = none
  fresh : ∀ p ∈ registered ++ refused, p.call.IsOpen
  housed : ∀ p ∈ registered, p.mailbox < c.mailboxes.length
  keyed : ∀ entry ∈ c.table, entry.2.call.seq = some entry.1
  told : ∃ told : List (Pending × Except CallError Wire.Value),
    c.numberedSignals = told.map (fun t => t.1.signal t.2) ∧
      (c.table.map Prod.snd ++ held ++ told.map Prod.fst).Perm registered
  rejected : c.signalsOf none = refused.map (·.signal (.error .shutdown))

namespace Books

variable {held registered refused : List Pending} {c c' : Client}

theorem start : Books [] [] [] {} where
  counted := rfl
  numbered := by
    intro n p h
    cases h
  unnumbered := by simp
  fresh := by simp
  housed := by simp
  keyed := by simp
  told := ⟨[], rfl, .refl _⟩
  rejected := rfl

/-- The books see only the table, the next number and the signals. -/
theorem congr (h : Books held registered refused c) (htable : c'.table = c.table)
    (hnext : c'.nextSeq = c.nextSeq) (hsignals : c'.signals = c.signals)
    (hmailboxes : c.mailboxes.length ≤ c'.mailboxes.length) :
    Books held registered refused c' where
  counted := by rw [hnext, h.counted]
  numbered := h.numbered
  unnumbered := h.unnumbered
  fresh := h.fresh
  housed p hp := Nat.lt_of_lt_of_le (h.housed p hp) hmailboxes
  keyed := by
    rw [htable]
    exact h.keyed
  told := by
    rw [numberedSignals, htable, hsignals]
    exact h.told
  rejected := by
    rw [signalsOf, hsignals]
    exact h.rejected

theorem alike (h : Books held registered refused c) (hc : c.Alike c') :
    Books held registered refused c' :=
  h.congr hc.table hc.nextSeq hc.signals hc.mailboxes

/-- Every call that waits is a registered one. -/
theorem mem_registered (h : Books held registered refused c) {p : Pending}
    (hp : p ∈ c.table.map Prod.snd ++ held) : p ∈ registered := by
  obtain ⟨told, _, hperm⟩ := h.told
  exact hperm.subset (List.mem_append_left _ hp)

theorem isSome_seq (h : Books held registered refused c) {p : Pending} (hp : p ∈ registered) :
    p.call.seq.isSome = true := by
  obtain ⟨n, hn⟩ := List.mem_iff_getElem?.mp hp
  simp [h.numbered n p hn]

theorem seq_lt (h : Books held registered refused c) {p : Pending} (hp : p ∈ registered)
    {seq : UInt64} (hseq : p.call.seq = some seq) : seq < c.nextSeq := by
  obtain ⟨n, hn⟩ := List.mem_iff_getElem?.mp hp
  obtain ⟨hlt, _⟩ := List.getElem?_eq_some_iff.mp hn
  obtain rfl : UInt64.ofNat n = seq := Option.some.inj ((h.numbered n p hn).symm.trans hseq)
  rw [UInt64.lt_iff_toNat_lt, h.counted, UInt64.toNat_ofNat']
  exact Nat.lt_of_le_of_lt (Nat.mod_le _ _) hlt

/-- Every signal finishes a call that was noted down. -/
theorem mem_signals (h : Books held registered refused c) {signal : Nat × Call}
    (hsignal : signal ∈ c.signals) :
    ∃ p ∈ registered ++ refused, ∃ outcome, signal = p.signal outcome ∧
      (p.call.seq.isSome = true → p ∈ registered) := by
  cases hseq : signal.2.seq with
  | some seq =>
      obtain ⟨told, htold, hperm⟩ := h.told
      have hmem : signal ∈ told.map fun t => t.1.signal t.2 := by
        rw [← htold, numberedSignals]
        simpa [hseq] using hsignal
      obtain ⟨⟨p, outcome⟩, ht, rfl⟩ := List.mem_map.mp hmem
      have hp : p ∈ registered :=
        hperm.subset (List.mem_append_right _ (List.mem_map_of_mem ht))
      exact ⟨p, List.mem_append_left _ hp, outcome, rfl, fun _ => hp⟩
  | none =>
      have hmem : signal ∈ refused.map (·.signal (.error .shutdown)) := by
        rw [← h.rejected, signalsOf]
        simpa [hseq] using hsignal
      obtain ⟨p, hp, rfl⟩ := List.mem_map.mp hmem
      refine ⟨p, List.mem_append_right _ hp, _, rfl, ?_⟩
      simp [h.unnumbered p hp]

/-! ## Registering -/

theorem register (h : Books held registered refused c) (few : registered.length + 1 < 2 ^ 64)
    {p : Pending} (hopen : p.call.IsOpen) (hmailbox : p.mailbox < c.mailboxes.length)
    (hover : c.isOver = false) :
    Books held (registered ++ [{ p with call := { p.call with seq := some c.nextSeq } }]) refused
      (c.issue p.call p.shape p.mailbox).2 := by
  have hnext : c.nextSeq = UInt64.ofNat registered.length := by
    rw [← h.counted, UInt64.ofNat_toNat]
  rw [issue_open hover]
  refine ⟨?_, ?_, h.unnumbered, ?_, ?_, ?_, ?_, h.rejected⟩
  · have hlt : c.nextSeq.toNat + 1 < 2 ^ 64 := by rw [h.counted]; exact few
    simp [UInt64.toNat_add, h.counted] at hlt ⊢
    omega
  · exact h.numbered.append_singleton (by simp [hnext])
  · intro q hq
    rw [List.append_assoc, List.mem_append, List.mem_append, List.mem_singleton] at hq
    rcases hq with hq | rfl | hq
    · exact h.fresh q (List.mem_append_left _ hq)
    · exact hopen
    · exact h.fresh q (List.mem_append_right _ hq)
  · intro q hq
    rw [List.mem_append, List.mem_singleton] at hq
    rcases hq with hq | rfl
    · simpa [updateMailbox] using h.housed q hq
    · simpa [updateMailbox] using hmailbox
  · intro entry hentry
    rcases List.mem_append.mp hentry with hold | hnew
    · exact h.keyed entry hold
    · rw [List.mem_singleton.mp hnew]
  · -- The new call is in the table and the others are where they were.
    obtain ⟨told, hsignals, hperm⟩ := h.told
    refine ⟨told, hsignals, ?_⟩
    simp only [List.map_append, List.map_cons, List.map_nil, List.append_assoc]
    refine (List.perm_middle.trans (.cons _ ?_)).trans (List.perm_append_singleton _ _).symm
    simpa using hperm

theorem refuse (h : Books held registered refused c) {p : Pending} (hopen : p.call.IsOpen)
    (hseq : p.call.seq = none) (hmailbox : p.mailbox < c.mailboxes.length)
    (hover : c.isOver = true) :
    Books held registered (refused ++ [p]) (c.issue p.call p.shape p.mailbox).2 := by
  have hsignals : (c.issue p.call p.shape p.mailbox).2.signals =
      c.signals ++ [p.signal (.error .shutdown)] := by
    rw [issue_over hover, signals_finish _ (by simpa [updateMailbox] using hmailbox)]
    rfl
  refine ⟨?_, h.numbered, ?_, ?_, ?_, ?_, ?_, ?_⟩
  · simpa [issue_over hover, updateMailbox] using h.counted
  · simpa [or_imp, forall_and, hseq] using h.unnumbered
  · intro q hq
    rw [← List.append_assoc, List.mem_append, List.mem_singleton] at hq
    rcases hq with hq | rfl
    · exact h.fresh q hq
    · exact hopen
  · simpa [issue_over hover, updateMailbox] using h.housed
  · simpa [issue_over hover, updateMailbox] using h.keyed
  · obtain ⟨told, htold, hperm⟩ := h.told
    rw [numberedSignals] at htold
    refine ⟨told, ?_, ?_⟩
    · rw [numberedSignals, hsignals, List.filter_append, htold]
      simp [hseq]
    · simpa [issue_over hover, updateMailbox] using hperm
  · have hold := h.rejected
    rw [signalsOf] at hold ⊢
    rw [hsignals, List.filter_append, hold]
    simp [hseq]

/-! ## Finishing -/

/-- A number belongs to a call in one of the three places, or to no call yet. -/
theorem places (h : Books held registered refused c) (few : registered.length ≤ 2 ^ 64)
    (seq : UInt64) :
    ∃ told : List (Pending × Except CallError Wire.Value),
      c.signalsOf (some seq) = told.map (fun t => t.1.signal t.2) ∧
      (c.table.filter (·.1 = seq)).map Prod.snd ++ held.filter (·.call.seq = some seq) ++
        told.map Prod.fst = registered[seq.toNat]?.toList := by
  obtain ⟨told, hsignals, hperm⟩ := h.told
  refine ⟨told.filter (·.1.call.seq = some seq), signalsOf_of_numbered hsignals seq, ?_⟩
  · have htable : (c.table.map Prod.snd).filter (·.call.seq = some seq) =
        (c.table.filter (·.1 = seq)).map Prod.snd := by
      rw [List.filter_map]
      refine congrArg _ (List.filter_congr fun entry hentry => ?_)
      simp [h.keyed entry hentry]
    -- Under one number the rearrangement has at most one call left to move.
    have hfiltered := hperm.filter (·.call.seq = some seq)
    rw [List.filter_append, List.filter_append, htable, h.numbered.filter few seq,
      List.filter_map] at hfiltered
    cases hplace : registered[seq.toNat]? with
    | none =>
        rw [hplace] at hfiltered
        exact List.perm_nil.mp hfiltered
    | some p =>
        rw [hplace] at hfiltered
        exact List.perm_singleton.mp hfiltered

theorem filter_table (h : Books held registered refused c) (few : registered.length ≤ 2 ^ 64)
    {seq : UInt64} {p : Pending} (hp : c.table.lookup seq = some p) :
    c.table.filter (·.1 = seq) = [(seq, p)] := by
  obtain ⟨before, after, htable, _⟩ := List.lookup_eq_some_iff.mp hp
  have hmem : (seq, p) ∈ c.table.filter (·.1 = seq) := by simp [htable]
  obtain ⟨told, _, hplaces⟩ := h.places few seq
  have hlength : (c.table.filter (·.1 = seq)).length ≤ 1 := by
    have hsum := congrArg List.length hplaces
    have hone := Option.length_toList_le (o := registered[seq.toNat]?)
    simp only [List.length_append, List.length_map] at hsum
    omega
  obtain ⟨entry, hentry⟩ := List.length_eq_one_iff.mp
    (Nat.le_antisymm hlength (List.length_pos_of_mem hmem))
  rw [hentry] at hmem ⊢
  rw [List.mem_singleton.mp hmem]

/-- Whoever takes a call out of the table has it in hand. -/
theorem remove (h : Books held registered refused c) (few : registered.length ≤ 2 ^ 64)
    {seq : UInt64} {p : Pending} (hp : c.remove seq = some (p, c')) :
    Books (p :: held) registered refused c' := by
  obtain ⟨hlookup, rfl⟩ := remove_eq_some_iff.mp hp
  refine ⟨h.counted, h.numbered, h.unnumbered, h.fresh, h.housed, ?_, ?_, h.rejected⟩
  · intro entry hentry
    exact h.keyed entry (List.mem_filter.mp hentry).1
  · -- It moves from the table to the hands.
    obtain ⟨told, hsignals, hperm⟩ := h.told
    refine ⟨told, hsignals, .trans ?_ hperm⟩
    have hsplit := List.filter_append_perm (fun e : UInt64 × Pending => e.1 = seq) c.table
    rw [h.filter_table few hlookup] at hsplit
    have hsame : c.table.filter (·.1 != seq) = c.table.filter (fun e => !decide (e.1 = seq)) :=
      List.filter_congr fun e _ => by by_cases he : e.1 = seq <;> simp [he]
    rw [hsame]
    refine .append_right _ (List.perm_middle.trans ?_)
    exact (hsplit.map Prod.snd).append_right held

/-- A call in hand is finished by telling it. -/
theorem finish {p : Pending} (h : Books (p :: held) registered refused c)
    (outcome : Except CallError Wire.Value) :
    Books held registered refused (c.finish p outcome) := by
  have hp : p ∈ registered := h.mem_registered (by simp)
  have hseq := h.isSome_seq hp
  have hsignals := signals_finish outcome (h.housed p hp)
  refine ⟨?_, h.numbered, h.unnumbered, h.fresh, ?_, ?_, ?_, ?_⟩
  · simpa using h.counted
  · simpa using h.housed
  · simpa using h.keyed
  · -- It moves from the hands to the signals.
    obtain ⟨told, htold, hperm⟩ := h.told
    rw [numberedSignals] at htold
    refine ⟨told ++ [(p, outcome)], ?_, .trans ?_ hperm⟩
    · rw [numberedSignals, hsignals, List.filter_append, htold]
      simp [hseq]
    · simp only [frame_finish, List.map_append, List.map_cons, List.map_nil]
      rw [← List.append_assoc]
      refine (List.perm_append_singleton _ _).trans ?_
      rw [List.append_assoc, List.append_assoc]
      exact List.perm_middle.symm
  · have hnone : p.call.seq ≠ none := Option.isSome_iff_ne_none.mp hseq
    have hold := h.rejected
    rw [signalsOf] at hold ⊢
    rw [hsignals, List.filter_append, hold]
    simp [hnone]

theorem writeFailed (h : Books held registered refused c) (few : registered.length ≤ 2 ^ 64)
    (seq : UInt64) (error : CallError) :
    Books held registered refused (c.writeFailed seq error) := by
  unfold Client.writeFailed
  cases hp : c.remove seq with
  | none => exact h
  | some found => exact (h.remove few hp).finish _

/-- Reading ends: every call that waits is told, whoever has one in hand. -/
theorem stop (h : Books held registered refused c) (error : CallError) :
    Books held registered refused (c.stop error) := by
  have hhoused : ∀ entry ∈ c.table, entry.2.mailbox < c.mailboxes.length := fun entry hentry =>
    h.housed _ (h.mem_registered (List.mem_append_left _ (List.mem_map_of_mem hentry)))
  have hnumbers : ∀ entry ∈ c.table, entry.2.call.seq.isSome = true := fun entry hentry => by
    rw [h.keyed entry hentry]
    rfl
  have hsignals := signals_stop error hhoused
  refine ⟨?_, h.numbered, h.unnumbered, h.fresh, ?_, ?_, ?_, ?_⟩
  · simpa using h.counted
  · simpa using h.housed
  · simp
  · -- The whole table moves to the signals.
    obtain ⟨told, htold, hperm⟩ := h.told
    rw [numberedSignals] at htold
    refine ⟨told ++ c.table.map fun e => (e.2, .error (verdict c.closing error)), ?_, ?_⟩
    · rw [numberedSignals, hsignals, List.filter_append, htold, List.map_append, List.map_map]
      refine congrArg _ (List.filter_eq_self.mpr ?_)
      intro signal hsignal
      obtain ⟨entry, hentry, rfl⟩ := List.mem_map.mp hsignal
      simpa using hnumbers entry hentry
    · refine .trans ?_ hperm
      simp only [frame_stop, List.map_nil, List.nil_append, List.map_append, List.map_map]
      rw [← List.append_assoc, List.append_assoc _ held]
      exact List.perm_append_comm
  · -- All of them have numbers, so the calls without one are not concerned.
    have hold := h.rejected
    rw [signalsOf] at hold ⊢
    rw [hsignals, List.filter_append, hold, List.append_right_eq_self, List.filter_eq_nil_iff]
    intro signal hsignal
    obtain ⟨entry, hentry, rfl⟩ := List.mem_map.mp hsignal
    have hsome := Option.isSome_iff_ne_none.mp (hnumbers entry hentry)
    simpa using hsome

theorem change {ns : List Session.Notice} {r r' : Receiver}
    (h : Books r.held registered refused c) (hchange : Session.Change ns (c, r) (c', r'))
    (few : (registered ++ ns.filterMap Session.Notice.registered?).length < 2 ^ 64) :
    Books r'.held (registered ++ ns.filterMap Session.Notice.registered?)
      (refused ++ ns.filterMap Session.Notice.refused?) c' := by
  have fewer : registered.length ≤ 2 ^ 64 := by
    rw [List.length_append] at few
    omega
  cases hchange with
  | mailboxes _ halike => simpa using h.alike halike
  | turnedAway => simpa [List.filterMap_cons] using h
  | issued _ p halike hopen hseq hmailbox =>
      have hclient := h.alike halike
      cases hover : c.isOver with
      | true =>
          simpa [List.filterMap_cons, Session.noteCall, hover] using
            hclient.refuse hopen hseq hmailbox (halike.isOver.trans hover)
      | false =>
          have hregistered := hclient.register
            (by simpa [List.filterMap_cons, Session.noteCall, hover] using few)
            hopen hmailbox (halike.isOver.trans hover)
          simpa [List.filterMap_cons, Session.noteCall, hover, halike.nextSeq] using hregistered
  | unsent _ _ seq error =>
      simpa [List.filterMap_cons] using h.writeFailed fewer seq error
  | closed =>
      have hclosed : Books r.held registered refused { c with closing := true } :=
        h.congr rfl rfl rfl (Nat.le_refl _)
      simpa using hclosed
  | cancelled => simpa using Books.stop h .eof
  | noHeader error => simpa [List.filterMap_cons] using Books.stop h error
  | unmatched response =>
      simpa [List.filterMap_cons] using h.alike (.log (e := .unknownResponse response.seq) rfl c)
  | matched response p _ hsome =>
      rw [Receiver.held_answering]
      simpa [List.filterMap_cons] using Books.remove h fewer hsome
  | replied p result => simpa [List.filterMap_cons] using Books.finish h (result.mapError _)
  | passed => simpa [List.filterMap_cons] using h
  | notPassed _ error => simpa [List.filterMap_cons] using Books.stop h error
  | refuted _ p text => simpa [List.filterMap_cons] using Books.finish h (.error (.server text))
  | refutedLast _ p text error =>
      simpa [List.filterMap_cons] using
        (Books.finish h (.error (.server text))).stop (.readingErrorBody error)

end Books

end Client

/-! ## Every life -/

/-- Where a registered call is: the table under its number, the hands of the
receiver, and the signals with its number. -/
inductive Whereabouts (p : Pending) (seq : UInt64) :
    List (UInt64 × Pending) → List Pending → List (Nat × Call) → Prop where
  | waiting : Whereabouts p seq [(seq, p)] [] []
  | inHand : Whereabouts p seq [] [p] []
  | completed (outcome : Except CallError Wire.Value) :
      Whereabouts p seq [] [] [p.signal outcome]

/-- The books tell where a call is. -/
theorem Client.Books.whereabouts {held registered refused : List Pending} {c : Client}
    (h : c.Books held registered refused) (few : registered.length ≤ 2 ^ 64) {seq : UInt64}
    {p : Pending} (hp : registered[seq.toNat]? = some p) :
    Whereabouts p seq (c.table.filter (·.1 = seq)) (held.filter (·.call.seq = some seq))
      (c.signalsOf (some seq)) := by
  obtain ⟨told, hsignals, hplaces⟩ := h.places few seq
  rw [hp, Option.toList_some, List.append_assoc, List.append_eq_singleton_iff] at hplaces
  rw [hsignals]
  rcases hplaces with ⟨htable, hrest⟩ | ⟨htable, hrest⟩
  · rw [List.map_eq_nil_iff] at htable
    rcases List.append_eq_singleton_iff.mp hrest with ⟨hheld, htold⟩ | ⟨hheld, htold⟩
    · obtain ⟨⟨_, outcome⟩, rfl, rfl⟩ := List.map_eq_singleton_iff.mp htold
      rw [htable, hheld]
      exact .completed outcome
    · rw [htable, hheld, List.map_eq_nil_iff.mp htold]
      exact .inHand
  · obtain ⟨hheld, htold⟩ := List.append_eq_nil_iff.mp hrest
    obtain ⟨⟨key, q⟩, hentry, hq⟩ := List.map_eq_singleton_iff.mp htable
    obtain rfl : q = p := hq
    have hkey : key = seq := by
      have hmem : (key, q) ∈ c.table.filter (·.1 = seq) := hentry ▸ List.mem_singleton_self _
      simpa using (List.mem_filter.mp hmem).2
    rw [hentry, hkey, hheld, List.map_eq_nil_iff.mp htold]
    exact .waiting

namespace History

variable {ω κ : Type} [Codec κ] [Surroundings ω κ]

theorem books_run (codec : κ) (deeds : List (Deed ω))
    (few : (run codec deeds).registered.length < 2 ^ 64) :
    (run codec deeds).session.client.Books (run codec deeds).session.receiver.held
      (run codec deeds).registered (run codec deeds).refused := by
  induction deeds using List.reverseRecOn with
  | nil => exact .start
  | append_singleton deeds d ih =>
      have hchange := Session.change_of_perform (isHonest_run codec deeds) d
      have hbooks := ih (few_of_later few)
      rw [run_append_singleton] at few ⊢
      rw [registered_perform, refused_perform]
      rw [registered_perform] at few
      exact hbooks.change hchange few

/-- What holds of the calls of a client at every moment of its life. -/
structure Accounted (h : History κ) : Prop where
  /-- The numbers below the next one belong to the registered calls, to each its
  place. -/
  counted : h.session.client.nextSeq.toNat = h.registered.length
  numbered : Numbered h.registered
  /-- Each is in one place only, and signalled once when it is finished. -/
  placed : ∀ seq p, h.registered[seq.toNat]? = some p →
    Whereabouts p seq (h.session.client.table.filter (·.1 = seq))
      (h.session.receiver.held.filter (·.call.seq = some seq))
      (h.session.client.signalsOf (some seq))
  /-- No number is used that was not given out. -/
  bounded : (∀ entry ∈ h.session.client.table, entry.1 < h.session.client.nextSeq) ∧
    ∀ signal ∈ h.session.client.signals, ∀ seq, signal.2.seq = some seq →
      seq < h.session.client.nextSeq
  /-- Every signal has a reply or an error, and not both. -/
  settled : ∀ signal ∈ h.session.client.signals,
    signal.2.reply.isSome = !signal.2.error.isSome
  /-- A call that came too late has no number and was told so once. -/
  rejected : (∀ p ∈ h.refused, p.call.seq = none) ∧
    h.session.client.signalsOf none = h.refused.map (·.signal (.error .shutdown))
  turnedAway : ∀ place ∈ h.turnedAway,
    h.session.callers[place]? = some (.finished (.error .shutdown))

/-- However the deeds of a client follow each other and whatever codec it
speaks, every call is in one place and is told exactly once what became of it. -/
theorem accounted_run (codec : κ) (deeds : List (Deed ω))
    (few : (run codec deeds).registered.length < 2 ^ 64) : (run codec deeds).Accounted := by
  have hbooks := books_run codec deeds few
  refine ⟨hbooks.counted, hbooks.numbered, ?_, ?_, ?_, ⟨hbooks.unnumbered, hbooks.rejected⟩,
    turnedAway_run codec deeds⟩
  · intro seq p hp
    exact hbooks.whereabouts (Nat.le_of_lt few) hp
  · refine ⟨?_, ?_⟩
    · intro entry hentry
      refine hbooks.seq_lt (hbooks.mem_registered ?_) (hbooks.keyed entry hentry)
      exact List.mem_append_left _ (List.mem_map_of_mem hentry)
    · intro signal hsignal seq hseq
      obtain ⟨p, _, outcome, rfl, hp⟩ := hbooks.mem_signals hsignal
      rw [Pending.seq_signal] at hseq
      exact hbooks.seq_lt (hp (by simp [hseq])) hseq
  · intro signal hsignal
    obtain ⟨p, hp, outcome, rfl, _⟩ := hbooks.mem_signals hsignal
    exact (hbooks.fresh p hp).finish outcome

/-- Two calls, of which the receiver has the second in hand when the owner
closes; a third comes too late. -/
theorem accounted_of_three_calls :
    let ask : Ask := ⟨0, "Arith.Multiply", .unit, .unit⟩
    let deeds : List (Deed (List Cue)) :=
      [.go ask, .go ask, .outside [.header ⟨"Arith.Multiply", 1, ""⟩], .task .receiver 0, .close,
        .go ask]
    (run ({} : Rehearsal) deeds).registered.length = 2 ∧
      (run ({} : Rehearsal) deeds).refused.length = 1 ∧
      (run ({} : Rehearsal) deeds).Accounted := by
  intro ask deeds
  have few : (run ({} : Rehearsal) deeds).registered.length < 2 ^ 64 := by decide
  exact ⟨rfl, rfl, accounted_run _ deeds few⟩

end History

end Switchboard
