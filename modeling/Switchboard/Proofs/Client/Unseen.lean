import Switchboard.Proofs.Client.Refusal
import Switchboard.Proofs.Client.Sharing

/-!
# What is not seen

The tasks that use the connection, the owner of the client and what happens outside do
not look into the mailboxes: with the same table, the same flags and the same connection
they do the same (`Session.perform_of_bare`). Of a client that is over, those who make
calls and receive them change nothing else (`Session.bare_perform_of_over`). And what a
caller is doing is seen by nothing but its own steps (`Session.perform_withCaller`).
-/

namespace Switchboard

/-! ## What is left without mailboxes -/

namespace Client

/-- A client without its mailboxes and its reports. -/
def bare (c : Client) : Client := { c with mailboxes := [], events := [] }

variable (c : Client)

@[simp] theorem bare_log (e : Event) : (c.log e).bare = c.bare := rfl

@[simp] theorem bare_updateMailbox (place : Nat) (f : Mailbox → Mailbox) :
    (c.updateMailbox place f).bare = c.bare := rfl

@[simp] theorem bare_finish (p : Pending) (outcome : Except CallError Wire.Value) :
    (c.finish p outcome).bare = c.bare := by
  simp [bare]

@[simp] theorem bare_stop (error : CallError) :
    (c.stop error).bare = { c.bare with shutdown := true, table := [] } := by
  simp [bare]

variable {c} {c' : Client}

theorem bare_issue (hover : c.isOver = true) (call : Call) (shape : Wire.Shape) (mailbox : Nat) :
    (c.issue call shape mailbox).2.bare = c.bare := by
  rw [issue_over hover, bare_finish, bare_updateMailbox]

theorem Alike.bare (h : c.Alike c') : c'.bare = c.bare := by
  simp [Client.bare, h.table, h.nextSeq, h.shutdown, h.closing]

theorem closing_of_bare (h : c.bare = c'.bare) : c'.closing = c.closing :=
  (congrArg closing h).symm

theorem isOver_of_bare (h : c.bare = c'.bare) : c'.isOver = c.isOver := (congrArg isOver h).symm

/-- The same call is taken out of two tables that are the same. -/
theorem remove_of_bare (h : c.bare = c'.bare) (seq : UInt64) :
    (c.remove seq = none ∧ c'.remove seq = none) ∨
      ∃ p d d', c.remove seq = some (p, d) ∧ c'.remove seq = some (p, d') ∧ d.bare = d'.bare := by
  have htable : c'.table = c.table := (congrArg table h).symm
  have hrest : { c with table := c.table.filter (·.1 != seq) }.bare =
      { c' with table := c'.table.filter (·.1 != seq) }.bare :=
    congrArg (fun b : Client => { b with table := b.table.filter (·.1 != seq) }) h
  rw [remove, remove, htable]
  rw [htable] at hrest
  cases c.table.lookup seq with
  | none => exact .inl ⟨rfl, rfl⟩
  | some p => exact .inr ⟨p, _, _, rfl, rfl, hrest⟩

theorem writeFailed_of_bare (h : c.bare = c'.bare) (seq : UInt64) (error : CallError) :
    (c.writeFailed seq error).bare = (c'.writeFailed seq error).bare := by
  unfold writeFailed
  rcases remove_of_bare h seq with ⟨hnone, hnone'⟩ | ⟨p, d, d', hsome, hsome', hd⟩
  · rw [hnone, hnone']
    exact h
  · rw [hsome, hsome']
    dsimp only
    rw [bare_finish, bare_finish, hd]

theorem stop_of_bare (h : c.bare = c'.bare) (error : CallError) :
    (c.stop error).bare = (c'.stop error).bare := by
  rw [bare_stop, bare_stop, h]

theorem finish_of_bare (h : c.bare = c'.bare) (p : Pending)
    (outcome : Except CallError Wire.Value) :
    (c.finish p outcome).bare = (c'.finish p outcome).bare := by
  rw [bare_finish, bare_finish, h]

end Client

namespace Session

variable {ω κ : Type}

/-- A session without mailboxes, reports and callers: the table, the next number and
the flags, what is read and what is written. -/
def bare (s : Session κ) : Session κ := { s with client := s.client.bare, callers := [] }

/-- Whether a deed is only the concern of those who make calls and own mailboxes. -/
def Deed.isAside : Deed ω → Bool
  | .go _ | .goWith _ _ | .call _ | .completion _ | .take _ | .dropHandle _ | .deafen _
  | .task (.caller _) _ => true
  | .task .receiver _ | .task (.writer _) _ | .close | .hangUp | .outside _ => false

variable {s s' : Session κ}

theorem Beyond.bare {place : Nat} {owner : Option Nat} (h : s.Beyond place owner s') :
    s.bare = s'.bare := by
  obtain ⟨c', callers', rfl⟩ := h.exists_eq
  simp [Session.bare, Client.bare, h.client.table, h.client.nextSeq, h.client.shutdown,
    h.client.closing]

theorem goOn_of_bare {c c' : Client} (h : c.bare = c'.bare) (codec : κ) (receiver : Receiver)
    (writers : List Writer) (lock : Lock) (callers callers' : List Caller) :
    (Session.mk c codec receiver writers lock callers).bare =
      (Session.mk c' codec receiver writers lock callers').bare := by
  simp [bare, h]

theorem exists_of_bare (h : s.bare = s'.bare) : s.client.bare = s'.client.bare ∧
    ∃ c' callers', s' = ⟨c', s.codec, s.receiver, s.writers, s.lock, callers'⟩ := by
  obtain ⟨client, codec, receiver, writers, lock, callers⟩ := s
  obtain ⟨client', codec', receiver', writers', lock', callers'⟩ := s'
  simp only [bare, mk.injEq, and_true] at h
  obtain ⟨hclient, rfl, rfl, rfl, rfl⟩ := h
  exact ⟨hclient, _, _, rfl⟩

theorem route_of_bare (h : s.bare = s'.bare) (response : Wire.Response) :
    (s.route response).bare = (s'.route response).bare := by
  obtain ⟨hclient, c', callers', rfl⟩ := exists_of_bare h
  unfold route
  rcases Client.remove_of_bare hclient response.seq with
    ⟨hnone, hnone'⟩ | ⟨p, d, d', hsome, hsome', hd⟩
  · have hlogged : (s.client.log (.unknownResponse response.seq)).bare =
        (c'.log (.unknownResponse response.seq)).bare := hclient
    dsimp only at hnone' ⊢
    rw [hnone, hnone']
    exact goOn_of_bare hlogged _ _ _ _ _ _
  · dsimp only at hsome' ⊢
    rw [hsome, hsome']
    dsimp only
    split <;> exact goOn_of_bare hd _ _ _ _ _ _

theorem endWriter_of_bare (h : s.bare = s'.bare) (seq : UInt64) (result : Except CallError Unit) :
    (s.endWriter seq result).2.bare = (s'.endWriter seq result).2.bare := by
  obtain ⟨hclient, c', callers', rfl⟩ := exists_of_bare h
  rcases result with error | _
  · exact goOn_of_bare (Client.writeFailed_of_bare hclient seq error) _ _ _ _ _ _
  · exact goOn_of_bare hclient _ _ _ _ _ _

variable [Codec κ]

theorem endReceiver_of_bare (h : s.bare = s'.bare) (error : CallError) :
    (s.endReceiver error).2.bare = (s'.endReceiver error).2.bare := by
  obtain ⟨hclient, c', callers', rfl⟩ := exists_of_bare h
  exact goOn_of_bare (Client.stop_of_bare hclient error) _ _ _ _ _ _

theorem stepReceiver_of_bare (h : s.bare = s'.bare) (now : Nat) :
    (s.stepReceiver now).2.bare = (s'.stepReceiver now).2.bare := by
  obtain ⟨hclient, c', callers', rfl⟩ := exists_of_bare h
  obtain ⟨client, codec, receiver, writers, lock, callers⟩ := s
  have hcodec (codec : κ) (receiver : Receiver) :=
    goOn_of_bare hclient codec receiver writers lock callers callers'
  have hfinish (codec : κ) (p : Pending) (outcome : Except CallError Wire.Value)
      (receiver : Receiver) :=
    goOn_of_bare (Client.finish_of_bare hclient p outcome) codec receiver writers lock callers
      callers'
  cases receiver with
  | ended => exact h
  | header =>
      have hclosing : c'.closing = client.closing := Client.closing_of_bare hclient
      simp only [stepReceiver, hclosing]
      split
      · exact endReceiver_of_bare (hcodec _ _) .eof
      · rcases Codec.readHeader now codec with ⟨_ | _ | error | response, codec'⟩
        · exact hcodec _ _
        · exact hcodec _ _
        · exact endReceiver_of_bare (hcodec _ _) error
        · exact route_of_bare (hcodec _ _) response
  | body p =>
      simp only [stepReceiver]
      rcases Codec.readBody p.shape now codec with ⟨_ | _ | result, codec'⟩
      · exact hcodec _ _
      · exact hcodec _ _
      · exact hfinish _ _ _ _
  | unknown =>
      simp only [stepReceiver]
      rcases Codec.discardBody now codec with ⟨_ | _ | error | _, codec'⟩
      · exact hcodec _ _
      · exact hcodec _ _
      · exact endReceiver_of_bare (hcodec _ _) error
      · exact hcodec _ _
  | errorBody p text =>
      simp only [stepReceiver]
      rcases Codec.discardBody now codec with ⟨_ | _ | error | _, codec'⟩
      · exact hcodec _ _
      · exact hcodec _ _
      · exact endReceiver_of_bare (hfinish _ _ _ _) _
      · exact hfinish _ _ _ _

theorem stepWriter_of_bare (h : s.bare = s'.bare) (seq : UInt64) (now : Nat) :
    (s.stepWriter seq now).2.bare = (s'.stepWriter seq now).2.bare := by
  obtain ⟨hclient, c', callers', rfl⟩ := exists_of_bare h
  obtain ⟨client, codec, receiver, writers, lock, callers⟩ := s
  have hsame (codec : κ) (writers : List Writer) (lock : Lock) :=
    goOn_of_bare hclient codec receiver writers lock callers callers'
  have hclosing : c'.closing = client.closing := Client.closing_of_bare hclient
  have hover : c'.isOver = client.isOver := Client.isOver_of_bare hclient
  simp only [stepWriter, hclosing, hover]
  split
  · exact h
  · split_ifs
    · exact hsame _ _ _
    · exact h
    · exact endWriter_of_bare h seq _
    · exact hsame _ _ _
    · exact endWriter_of_bare (hsame _ _ _) seq _
    · rename_i w _ _ _ _ _
      rcases Codec.write w.request w.args now codec with ⟨_ | _ | result, codec'⟩
      · exact hsame _ _ _
      · exact hsame _ _ _
      · exact endWriter_of_bare (hsame _ _ _) seq result

variable [Surroundings ω κ] {d : Deed ω}

/-- The tasks that use the connection, its owner and its surroundings do not see the
mailboxes. -/
theorem perform_of_bare (h : s.bare = s'.bare) (hd : d.isAside = false) :
    (s.perform d).bare = (s'.perform d).bare := by
  obtain ⟨hclient, c', callers', rfl⟩ := exists_of_bare h
  cases d with
  | go | goWith | call | completion | take | dropHandle | deafen => cases hd
  | task t now =>
      cases t with
      | receiver => exact stepReceiver_of_bare h now
      | writer seq => exact stepWriter_of_bare h seq now
      | caller => cases hd
  | close =>
      have hover : c'.isOver = s.client.isOver := Client.isOver_of_bare hclient
      simp only [perform, beginClose, Client.beginClose, hover]
      cases s.client.isOver with
      | true => exact h
      | false =>
          have hclosing : { s.client with closing := true }.bare =
              { c' with closing := true }.bare :=
            congrArg (fun b : Client => { b with closing := true }) hclient
          exact goOn_of_bare hclosing _ _ _ _ _ _
  | hangUp =>
      simp only [perform, stepClose]
      split_ifs
      · exact h
      · exact goOn_of_bare hclient _ _ _ _ _ _
  | outside event => exact goOn_of_bare hclient _ _ _ _ _ _

/-- When the client is over, those who make calls and own mailboxes leave all the rest
alone. -/
theorem bare_perform_of_over (hover : s.client.isOver = true) (hd : d.isAside = true) :
    (s.perform d).bare = s.bare := by
  have hissue (c : Client) (hc : s.client.Alike c) (call : Call) (shape : Wire.Shape)
      (mailbox : Nat) : ({ s with client := c }.issue call shape mailbox).bare = s.bare := by
    have hlater : c.isOver = true := hc.isOver.trans hover
    rw [issue_of_over (s := { s with client := c }) hlater]
    simp [bare, Client.bare_issue hlater, hc.bare]
  cases d with
  | go a => exact hissue _ (.addMailbox _ _) _ _ _
  | goWith a mailbox =>
      simp only [perform]
      split
      · exact hissue _ (.refl _) _ _ _
      · rfl
  | call | dropHandle | deafen => rfl
  | completion capacity =>
      simp only [perform, Client.completion]
      split_ifs <;> rfl
  | take mailbox =>
      simp only [perform]
      cases htake : s.client.takeCall mailbox with
      | none => rfl
      | some taken => simp [bare, (Client.Alike.takeCall htake).bare]
  | task t now =>
      cases t with
      | receiver | writer => cases hd
      | caller i =>
          have hstep := s.stepCaller_cases i
          simp only [perform, step]
          generalize (s.stepCaller i).2 = s' at hstep ⊢
          cases hstep with
          | absent | awaited | finished | turnedAway | bereft => rfl
          | made _ hopen =>
              rw [hover] at hopen
              cases hopen
          | taken _ htake => simp [bare, (Client.Alike.takeCall htake).bare]
  | close | hangUp | outside => cases hd

/-! ## What does not see a caller -/

/-- The session with another caller at a place. -/
def withCaller (i : Nat) (caller : Caller) (s : Session κ) : Session κ :=
  { s with callers := s.callers.set i caller }

section Frame

variable (i : Nat) (caller : Caller) (s : Session κ)

omit [Codec κ] [Surroundings ω κ] in
theorem issue_withCaller (call : Call) (shape : Wire.Shape) (mailbox : Nat) :
    (s.withCaller i caller).issue call shape mailbox =
      (s.issue call shape mailbox).withCaller i caller := by
  unfold issue withCaller
  dsimp only
  split <;> rfl

omit [Surroundings ω κ] in
theorem stepReceiver_withCaller (now : Nat) :
    ((s.withCaller i caller).stepReceiver now).2 =
      (s.stepReceiver now).2.withCaller i caller := by
  obtain ⟨client, codec, receiver, writers, lock, callers⟩ := s
  unfold withCaller
  cases receiver with
  | ended => rfl
  | header =>
      simp only [stepReceiver]
      split
      · rfl
      · rcases Codec.readHeader now codec with ⟨_ | _ | error | response, codec'⟩
        · rfl
        · rfl
        · rfl
        · simp only [route]
          split
          · rfl
          · split <;> rfl
  | body p =>
      simp only [stepReceiver]
      rcases Codec.readBody p.shape now codec with ⟨_ | _ | result, codec'⟩ <;> rfl
  | unknown =>
      simp only [stepReceiver]
      rcases Codec.discardBody now codec with ⟨_ | _ | error | _, codec'⟩ <;> rfl
  | errorBody p text =>
      simp only [stepReceiver]
      rcases Codec.discardBody now codec with ⟨_ | _ | error | _, codec'⟩ <;> rfl

omit [Surroundings ω κ] in
theorem stepWriter_withCaller (seq : UInt64) (now : Nat) :
    ((s.withCaller i caller).stepWriter seq now).2 =
      (s.stepWriter seq now).2.withCaller i caller := by
  unfold withCaller
  simp only [stepWriter]
  split
  · rfl
  · split_ifs
    · rfl
    · rfl
    · rfl
    · rfl
    · rfl
    · rename_i w _ _ _ _ _
      rcases Codec.write w.request w.args now s.codec with ⟨_ | _ | _ | _, codec'⟩ <;> rfl

variable {i}

omit [Codec κ] [Surroundings ω κ] in
theorem stepCaller_withCaller {j : Nat} (hj : i ≠ j) :
    ((s.withCaller i caller).stepCaller j).2 = (s.stepCaller j).2.withCaller i caller := by
  have hother : (s.callers.set i caller)[j]? = s.callers[j]? := List.getElem?_set_ne hj
  have hset (new : Caller) : (s.callers.set i caller).set j new =
      (s.callers.set j new).set i caller := List.set_comm caller new hj
  have hstep := s.stepCaller_cases j
  generalize (s.stepCaller j).2 = s' at hstep ⊢
  unfold withCaller
  cases hstep with
  | absent hcaller | finished hcaller => simp [stepCaller, hother, hcaller]
  | turnedAway hcaller hover => simp [stepCaller, hother, hcaller, hover, hset]
  | @made call shape hcaller hopen =>
      have hwriters := congrArg Session.writers (issue_withCaller i caller
        { s with client := (s.client.addMailbox { capacity := 1, handles := 0 }).2 } call shape
        s.client.mailboxes.length)
      simpa [stepCaller, hother, hcaller, hopen, hset, Client.addMailbox, withCaller] using hwriters
  | taken hcaller htake => simp [stepCaller, hother, hcaller, htake, hset]
  | bereft hcaller htake hclosed => simp [stepCaller, hother, hcaller, htake, hclosed, hset]
  | awaited hcaller htake hclosed => simp [stepCaller, hother, hcaller, htake, hclosed]

end Frame

/-- Nothing but its own steps sees what a caller is doing. -/
theorem perform_withCaller {i : Nat} (hi : i < s.callers.length) (caller : Caller)
    (hd : ∀ now, d ≠ .task (.caller i) now) :
    (s.withCaller i caller).perform d = (s.perform d).withCaller i caller := by
  cases d with
  | go a => exact issue_withCaller i caller { s with client := _ } _ _ _
  | goWith a mailbox =>
      by_cases hmailbox : mailbox < s.client.mailboxes.length
      · simpa [perform, withCaller, hmailbox] using issue_withCaller i caller s _ _ _
      · simp [perform, withCaller, hmailbox]
  | call a => simp [perform, addCaller, withCaller, List.set_append_left _ _ hi]
  | completion capacity =>
      simp only [perform, withCaller]
      split <;> rfl
  | take mailbox =>
      simp only [perform, withCaller]
      split <;> rfl
  | dropHandle | deafen | outside => rfl
  | task t now =>
      cases t with
      | receiver => exact stepReceiver_withCaller i caller s now
      | writer seq => exact stepWriter_withCaller i caller s seq now
      | caller j =>
          refine stepCaller_withCaller caller s ?_
          rintro rfl
          exact hd now rfl
  | close =>
      cases hover : s.client.isOver <;>
        simp [perform, beginClose, Client.beginClose, withCaller, hover]
  | hangUp =>
      by_cases hholder : s.lock.holder = some .closer <;>
        simp [perform, stepClose, withCaller, hholder]

/-- A caller changes by its own steps only. -/
theorem caller_perform {i : Nat} (hi : i < s.callers.length)
    (hd : ∀ now, d ≠ .task (.caller i) now) : (s.perform d).callers[i]? = s.callers[i]? := by
  have hsame : s.withCaller i s.callers[i] = s := by simp [withCaller]
  have hperform := perform_withCaller hi s.callers[i] hd
  rw [hsame] at hperform
  have hlater : i < (s.perform d).callers.length := by
    rcases s.callers_perform d with heq | ⟨a, heq⟩ | ⟨place, new, heq, _⟩ <;> rw [heq] <;>
      simp [hi, Nat.lt_succ_of_lt hi]
  rw [hperform, withCaller, List.getElem?_set_self hlater, List.getElem?_eq_getElem hi]

end Session

end Switchboard
