import Switchboard.Proofs.Client.Consumer
import Switchboard.Proofs.Client.Change

/-!
# A consumer that is slow or gone

What the owner of a mailbox does with it is nobody else's concern. `Session.Beyond`
holds of two sessions that are the same beyond one mailbox, and beyond the caller who
waits at it if it belongs to one. A deed of anybody else that is done on both sides preserves this
(`Session.Beyond.perform`), and a deed of the owner preserves it when it is done on one side alone
(`Session.Beyond.consume`). So two lives in which the owner takes calls at other moments, or lets
the mailbox go, or made it larger, are the same beyond it (`undisturbed_run`).
-/

namespace Switchboard

open Session (Deed Notice)

/-- A caller who made its call through the mailbox at a place. -/
def Caller.IsServedAt (place : Nat) : Caller → Prop
  | .fresh .. => False
  | .waiting mailbox => mailbox = place
  | .finished _ => True

namespace Session

variable {ω κ : Type}

/-- What only the owner of a mailbox does, or the caller who waits at it: to take a
call from it, and to let its receiving end go. -/
def Deed.consumes (place : Nat) (owner : Option Nat) : Deed ω → Bool
  | .take mailbox | .deafen mailbox => mailbox = place
  | .task (.caller i) _ => owner = some i
  | _ => false

/-- If the mailbox belongs to a caller, this caller has made its call. -/
def Serves (place : Nat) (owner : Option Nat) (callers : List Caller) : Prop :=
  ∀ i, owner = some i → ∃ caller, callers[i]? = some caller ∧ caller.IsServedAt place

namespace Serves

variable {place i : Nat} {owner : Option Nat} {callers : List Caller}

theorem nobody (place : Nat) (callers : List Caller) : Serves place none callers := by
  intro i hi
  cases hi

theorem set_other (h : Serves place owner callers) (hi : owner ≠ some i) (caller : Caller) :
    Serves place owner (callers.set i caller) := by
  intro j hj
  have hne : i ≠ j := by
    rintro rfl
    exact hi hj
  rw [List.getElem?_set_ne hne]
  exact h j hj

theorem set_owner (h : Serves place owner callers) (hi : owner = some i)
    (result : Except CallError Wire.Value) :
    Serves place owner (callers.set i (.finished result)) := by
  intro j hj
  obtain rfl : i = j := Option.some.inj (hi.symm.trans hj)
  obtain ⟨_, hcaller, _⟩ := h i hi
  exact ⟨_, List.getElem?_set_self (List.getElem?_eq_some_iff.mp hcaller).1, trivial⟩

theorem append (h : Serves place owner callers) (more : List Caller) :
    Serves place owner (callers ++ more) := by
  intro j hj
  obtain ⟨caller, hcaller, hserved⟩ := h j hj
  have hlt := (List.getElem?_eq_some_iff.mp hcaller).1
  exact ⟨caller, (List.getElem?_append_left hlt).trans hcaller, hserved⟩

end Serves

/-- Two sessions that are the same beyond one mailbox, and beyond the caller who
waits at it if it belongs to one. -/
structure Beyond (place : Nat) (owner : Option Nat) (s s' : Session κ) : Prop where
  client : s.client.Beyond place s'.client
  codec : s.codec = s'.codec
  receiver : s.receiver = s'.receiver
  writers : s.writers = s'.writers
  lock : s.lock = s'.lock
  callers : ∀ i, owner ≠ some i → s.callers[i]? = s'.callers[i]?
  length : s.callers.length = s'.callers.length
  /-- Nobody else waits at the mailbox. -/
  elsewhere : ∀ i, owner ≠ some i → s.callers[i]? ≠ some (.waiting place)
  served : Serves place owner s.callers
  served' : Serves place owner s'.callers

namespace Beyond

variable {place : Nat} {owner : Option Nat} {s s' : Session κ}

theorem symm (h : Beyond place owner s s') : Beyond place owner s' s where
  client := h.client.symm
  codec := h.codec.symm
  receiver := h.receiver.symm
  writers := h.writers.symm
  lock := h.lock.symm
  callers i hi := (h.callers i hi).symm
  length := h.length.symm
  elsewhere i hi := h.callers i hi ▸ h.elsewhere i hi
  served := h.served'
  served' := h.served

theorem refl (hplace : place < s.client.mailboxes.length)
    (helsewhere : ∀ i, owner ≠ some i → s.callers[i]? ≠ some (.waiting place))
    (hserved : Serves place owner s.callers) : Beyond place owner s s :=
  ⟨.refl hplace, rfl, rfl, rfl, rfl, fun _ _ => rfl, rfl, helsewhere, hserved, hserved⟩

theorem exists_eq (h : Beyond place owner s s') : ∃ c' callers',
    s' = ⟨c', s.codec, s.receiver, s.writers, s.lock, callers'⟩ := by
  refine ⟨s'.client, s'.callers, ?_⟩
  rw [h.codec, h.receiver, h.writers, h.lock]

/-- Everything but the callers goes on alike. -/
theorem goOn (h : Beyond place owner s s') {c c' : Client} (hc : c.Beyond place c') (codec : κ)
    (receiver : Receiver) (writers : List Writer) (lock : Lock) :
    Beyond place owner ⟨c, codec, receiver, writers, lock, s.callers⟩
      ⟨c', codec, receiver, writers, lock, s'.callers⟩ :=
  { h with client := hc, codec := rfl, receiver := rfl, writers := rfl, lock := rfl }

/-- Any other caller goes on alike. -/
theorem setCaller (h : Beyond place owner s s') {i : Nat} (hi : owner ≠ some i) {caller : Caller}
    (hcaller : caller ≠ .waiting place) :
    Beyond place owner { s with callers := s.callers.set i caller }
      { s' with callers := s'.callers.set i caller } := by
  refine { h with callers := fun j hj => ?_, length := ?_, elsewhere := fun j hj => ?_,
                  served := h.served.set_other hi caller
                  served' := h.served'.set_other hi caller }
  · simp only [List.getElem?_set, h.length, h.callers j hj]
  · simp only [List.length_set, h.length]
  · simp only [List.getElem?_set]
    split_ifs
    · exact fun heq => hcaller (Option.some.inj heq)
    · exact fun heq => (nomatch heq)
    · exact h.elsewhere j hj

/-- The caller who waits at the mailbox is finished, on one side. -/
theorem setOwner (h : Beyond place owner s s') {i : Nat} (hi : owner = some i)
    (result : Except CallError Wire.Value) :
    Beyond place owner { s with callers := s.callers.set i (.finished result) } s' := by
  have hne (j : Nat) (hj : owner ≠ some j) : i ≠ j := by
    rintro rfl
    exact hj hi
  refine { h with callers := fun j hj => ?_, length := ?_, elsewhere := fun j hj => ?_,
                  served := h.served.set_owner hi result }
  · rw [List.getElem?_set_ne (hne j hj)]
    exact h.callers j hj
  · rw [List.length_set, h.length]
  · rw [List.getElem?_set_ne (hne j hj)]
    exact h.elsewhere j hj

theorem addCaller (h : Beyond place owner s s') (call : Call) (shape : Wire.Shape) :
    Beyond place owner (s.addCaller call shape).2 (s'.addCaller call shape).2 := by
  refine { h with callers := fun j hj => ?_, length := ?_, elsewhere := fun j hj => ?_,
                  served := h.served.append _, served' := h.served'.append _ }
  · simp only [Session.addCaller, List.getElem?_append, h.length, h.callers j hj]
  · simp only [Session.addCaller, List.length_append, h.length]
  · simp only [Session.addCaller, List.getElem?_append]
    split
    · exact h.elsewhere j hj
    · intro heq
      have hmem := List.mem_of_getElem? heq
      simp at hmem

theorem issue (h : Beyond place owner s s') (call : Call) (shape : Wire.Shape) (mailbox : Nat) :
    Beyond place owner (s.issue call shape mailbox) (s'.issue call shape mailbox) := by
  obtain ⟨c', callers', rfl⟩ := h.exists_eq
  obtain ⟨hrequest, hclient⟩ := h.client.issue call shape mailbox
  unfold Session.issue
  dsimp only at hrequest ⊢
  rw [hrequest]
  split
  · exact h.goOn hclient _ _ _ _
  · exact h.goOn hclient _ _ _ _

theorem route (h : Beyond place owner s s') (response : Wire.Response) :
    Beyond place owner (s.route response) (s'.route response) := by
  obtain ⟨c', callers', rfl⟩ := h.exists_eq
  unfold Session.route
  dsimp only
  cases hremove : s.client.remove response.seq with
  | none =>
      rw [h.client.remove_none hremove]
      exact h.goOn (h.client.log _) _ _ _ _
  | some found =>
      obtain ⟨p, d⟩ := found
      obtain ⟨d', hremove', hd⟩ := h.client.remove_some hremove
      rw [hremove']
      dsimp only
      split
      · exact h.goOn hd _ _ _ _
      · exact h.goOn hd _ _ _ _

theorem endWriter (h : Beyond place owner s s') (seq : UInt64) (result : Except CallError Unit) :
    Beyond place owner (s.endWriter seq result).2 (s'.endWriter seq result).2 := by
  obtain ⟨c', callers', rfl⟩ := h.exists_eq
  rcases result with error | _
  · exact h.goOn (h.client.writeFailed seq error) _ _ _ _
  · exact h.goOn h.client _ _ _ _

section Steps

variable [Codec κ]

theorem endReceiver (h : Beyond place owner s s') (error : CallError) :
    Beyond place owner (s.endReceiver error).2 (s'.endReceiver error).2 := by
  obtain ⟨c', callers', rfl⟩ := h.exists_eq
  exact h.goOn (h.client.stop error) _ _ _ _

theorem readEnding (h : Beyond place owner s s') (now : Nat) :
    s.readEnding now = s'.readEnding now := by
  rw [Session.readEnding, Session.readEnding, h.receiver, h.codec, h.client.closing]

theorem stepReceiver (h : Beyond place owner s s') (now : Nat) :
    Beyond place owner (s.stepReceiver now).2 (s'.stepReceiver now).2 := by
  obtain ⟨c', callers', rfl⟩ := h.exists_eq
  obtain ⟨client, codec, receiver, writers, lock, callers⟩ := s
  have hcodec (codec : κ) (receiver : Receiver) := h.goOn h.client codec receiver writers lock
  have hfinish (codec : κ) (p : Pending) (outcome : Except CallError Wire.Value)
      (receiver : Receiver) := h.goOn (h.client.finish p outcome) codec receiver writers lock
  cases receiver with
  | ended => exact h
  | header =>
      have hclosing : c'.closing = client.closing := h.client.closing.symm
      simp only [Session.stepReceiver, hclosing]
      split
      · exact (hcodec _ _).endReceiver .eof
      · rcases Codec.readHeader now codec with ⟨_ | _ | error | response, codec'⟩
        · exact hcodec _ _
        · exact hcodec _ _
        · exact (hcodec _ _).endReceiver error
        · exact (hcodec _ _).route response
  | body p =>
      simp only [Session.stepReceiver]
      rcases Codec.readBody p.shape now codec with ⟨_ | _ | result, codec'⟩
      · exact hcodec _ _
      · exact hcodec _ _
      · exact hfinish _ _ _ _
  | unknown =>
      simp only [Session.stepReceiver]
      rcases Codec.discardBody now codec with ⟨_ | _ | error | _, codec'⟩
      · exact hcodec _ _
      · exact hcodec _ _
      · exact (hcodec _ _).endReceiver error
      · exact hcodec _ _
  | errorBody p text =>
      simp only [Session.stepReceiver]
      rcases Codec.discardBody now codec with ⟨_ | _ | error | _, codec'⟩
      · exact hcodec _ _
      · exact hcodec _ _
      · exact (hfinish _ _ _ _).endReceiver _
      · exact hfinish _ _ _ _

theorem writeFailure (h : Beyond place owner s s') (seq : UInt64) (now : Nat) :
    s.writeFailure seq now = s'.writeFailure seq now := by
  rw [Session.writeFailure, Session.writeFailure, h.writers, h.lock, h.codec, h.client.closing,
    h.client.isOver]

theorem stepWriter (h : Beyond place owner s s') (seq : UInt64) (now : Nat) :
    Beyond place owner (s.stepWriter seq now).2 (s'.stepWriter seq now).2 := by
  obtain ⟨c', callers', rfl⟩ := h.exists_eq
  obtain ⟨client, codec, receiver, writers, lock, callers⟩ := s
  have hsame (codec : κ) (writers : List Writer) (lock : Lock) :=
    h.goOn h.client codec receiver writers lock
  have hclosing : c'.closing = client.closing := h.client.closing.symm
  have hover : c'.isOver = client.isOver := h.client.isOver.symm
  simp only [Session.stepWriter, hclosing, hover]
  split
  · exact h
  · split_ifs
    · exact hsame _ _ _
    · exact h
    · exact h.endWriter seq _
    · exact hsame _ _ _
    · exact (hsame _ _ _).endWriter seq _
    · rename_i w _ _ _ _ _
      rcases Codec.write w.request w.args now codec with ⟨_ | _ | result, codec'⟩
      · exact hsame _ _ _
      · exact hsame _ _ _
      · exact (hsame _ _ _).endWriter seq result

end Steps

/-- A step of any caller but the one who waits at the mailbox. -/
theorem stepCaller (h : Beyond place owner s s') {i : Nat} (hi : owner ≠ some i) :
    Beyond place owner (s.stepCaller i).2 (s'.stepCaller i).2 := by
  obtain ⟨c', callers', rfl⟩ := h.exists_eq
  have hcaller : callers'[i]? = s.callers[i]? := (h.callers i hi).symm
  have hover : c'.isOver = s.client.isOver := h.client.isOver.symm
  have hfinished (result : Except CallError Wire.Value) : Caller.finished result ≠ .waiting place :=
    nofun
  simp only [Session.stepCaller, hcaller, hover]
  cases hbefore : s.callers[i]? with
  | none => exact h
  | some caller =>
      rcases caller with ⟨call, shape⟩ | mailbox | result
      · dsimp only
        split
        · exact h.setCaller hi (hfinished _)
        · have hlength : c'.mailboxes.length = s.client.mailboxes.length := h.client.length.symm
          have hnew : Caller.waiting s.client.mailboxes.length ≠ .waiting place := by
            intro heq
            have hlt := h.client.lt
            cases heq
            exact Nat.lt_irrefl _ hlt
          have hopened := h.goOn (h.client.addMailbox { capacity := 1, handles := 0 })
            s.codec s.receiver s.writers s.lock
          have hissued := hopened.issue call shape s.client.mailboxes.length
          simp only [Client.addMailbox, hlength] at hissued ⊢
          exact hissued.setCaller hi hnew
      · have hm : mailbox ≠ place := by
          rintro rfl
          exact h.elsewhere i hi hbefore
        have hclosed : c'.isClosed mailbox = s.client.isClosed mailbox :=
          (h.client.isClosed hm).symm
        dsimp only
        cases htake : s.client.takeCall mailbox with
        | none =>
            have htake' : c'.takeCall mailbox = none := h.client.takeCall_none hm htake
            rw [htake', hclosed]
            dsimp only
            split
            · exact h.setCaller hi (hfinished _)
            · exact h
        | some taken =>
            obtain ⟨call, d⟩ := taken
            obtain ⟨d', htake', hd⟩ := h.client.takeCall_some hm htake
            dsimp only at htake'
            rw [htake']
            exact (h.goOn hd s.codec s.receiver s.writers s.lock).setCaller hi (hfinished _)
      · exact h

/-- A step of the caller who waits at the mailbox, on one side. -/
theorem stepOwner (h : Beyond place owner s s') {i : Nat} (hi : owner = some i) :
    Beyond place owner (s.stepCaller i).2 s' := by
  obtain ⟨caller, hcaller, hserved⟩ := h.served i hi
  have hstep := s.stepCaller_cases i
  generalize (s.stepCaller i).2 = t at hstep
  cases hstep with
  | absent => exact h
  | turnedAway hfresh =>
      rw [hfresh] at hcaller
      cases hcaller
      exact hserved.elim
  | made hfresh =>
      rw [hfresh] at hcaller
      cases hcaller
      exact hserved.elim
  | @taken mailbox call client hwaiting htake =>
      rw [hwaiting] at hcaller
      cases hcaller
      obtain rfl : mailbox = place := hserved
      have htaken : Beyond mailbox owner { s with client } s' :=
        { h with client := h.client.takeOwn htake }
      exact htaken.setOwner hi call.result
  | bereft => exact h.setOwner hi _
  | awaited => exact h
  | finished => exact h

section Deeds

variable [Codec κ] [Surroundings ω κ] {d : Deed ω}

omit [Codec κ] [Surroundings ω κ] in
theorem noteCall (h : Beyond place owner s s') (p : Pending) :
    Session.noteCall p s.client = Session.noteCall p s'.client := by
  rw [Session.noteCall, Session.noteCall, h.client.isOver, h.client.nextSeq]

omit [Surroundings ω κ] in
theorem notices (h : Beyond place owner s s') (hd : d.consumes place owner = false) :
    s.notices d = s'.notices d := by
  have hlength := h.client.length
  cases d with
  | go a => simp only [Session.notices, hlength, h.noteCall]
  | goWith a mailbox => simp only [Session.notices, hlength, h.noteCall]
  | task t now =>
      cases t with
      | receiver => simp only [Session.notices, noteStep, h.readEnding]
      | writer seq => simp only [Session.notices, noteStep, h.writeFailure]
      | caller i =>
          have hi : owner ≠ some i := of_decide_eq_false hd
          simp only [Session.notices, noteStep, h.callers i hi, hlength, h.noteCall,
            h.client.isOver]
  | call | completion | take | dropHandle | deafen | close | hangUp | outside => rfl

/-- A deed that is not the owner's is done on both sides. -/
theorem perform (h : Beyond place owner s s') (hd : d.consumes place owner = false) :
    Beyond place owner (s.perform d) (s'.perform d) := by
  obtain ⟨c', callers', rfl⟩ := h.exists_eq
  have hclient {c d : Client} (hc : c.Beyond place d) :=
    h.goOn hc s.codec s.receiver s.writers s.lock
  cases d with
  | go a =>
      have hlength : c'.mailboxes.length = s.client.mailboxes.length := h.client.length.symm
      have hopened := hclient (h.client.addMailbox { capacity := defaultCapacity, handles := 0 })
      have hissued := hopened.issue a.call a.shape s.client.mailboxes.length
      simp only [Session.perform, go, Client.addMailbox, hlength] at hissued ⊢
      exact hissued
  | goWith a mailbox =>
      have hlength : c'.mailboxes.length = s.client.mailboxes.length := h.client.length.symm
      simp only [Session.perform, hlength]
      split
      · exact h.issue a.call a.shape mailbox
      · exact h
  | call a => exact h.addCaller a.call a.shape
  | completion capacity =>
      simp only [Session.perform, Client.completion]
      split_ifs
      · exact h
      · exact hclient (h.client.addMailbox _)
  | take mailbox =>
      have hm : mailbox ≠ place := of_decide_eq_false hd
      simp only [Session.perform]
      cases htake : s.client.takeCall mailbox with
      | none =>
          have htake' : c'.takeCall mailbox = none := h.client.takeCall_none hm htake
          rw [htake']
          exact h
      | some taken =>
          obtain ⟨call, d⟩ := taken
          obtain ⟨d', htake', hd⟩ := h.client.takeCall_some hm htake
          dsimp only at htake'
          rw [htake']
          exact hclient hd
  | dropHandle mailbox =>
      exact hclient (h.client.updateMailbox mailbox fun b b' hb => congrArg (· - 1) hb)
  | deafen mailbox => exact hclient (h.client.updateMailbox mailbox fun b b' hb => hb)
  | task t now =>
      cases t with
      | receiver => exact h.stepReceiver now
      | writer seq => exact h.stepWriter seq now
      | caller i => exact h.stepCaller (of_decide_eq_false hd)
  | close =>
      have hover : c'.isOver = s.client.isOver := h.client.isOver.symm
      simp only [Session.perform, Session.beginClose, Client.beginClose, hover]
      cases s.client.isOver with
      | true => exact h
      | false =>
          have hclosing : Client.Beyond place { s.client with closing := true }
              { c' with closing := true } := { h.client with closing := rfl }
          exact h.goOn hclosing _ _ _ _
  | hangUp =>
      simp only [Session.perform, stepClose]
      split_ifs
      · exact h
      · exact h.goOn h.client _ _ _ _
  | outside event => exact h.goOn h.client _ _ _ _

/-- A deed of the owner is done on one side. -/
theorem consume (h : Beyond place owner s s') (hd : d.consumes place owner = true) :
    Beyond place owner (s.perform d) s' ∧ s.notices d = [] := by
  cases d with
  | take mailbox =>
      obtain rfl : mailbox = place := of_decide_eq_true hd
      refine ⟨?_, rfl⟩
      simp only [Session.perform]
      cases htake : s.client.takeCall mailbox with
      | none => exact h
      | some taken => exact { h with client := h.client.takeOwn htake }
  | deafen mailbox =>
      obtain rfl : mailbox = place := of_decide_eq_true hd
      exact ⟨{ h with client := h.client.deafenOwn }, rfl⟩
  | task t now =>
      cases t with
      | caller i =>
          have hi : owner = some i := of_decide_eq_true hd
          refine ⟨h.stepOwner hi, ?_⟩
          obtain ⟨caller, hcaller, hserved⟩ := h.served i hi
          simp only [Session.notices, noteStep, hcaller]
          cases caller with
          | fresh => exact hserved.elim
          | waiting | finished => rfl
      | receiver | writer => cases hd
  | go | goWith | call | completion | dropHandle | close | hangUp | outside => cases hd

end Deeds

end Beyond

end Session

namespace History

variable {ω κ : Type} [Codec κ] [Surroundings ω κ]

/-- Two lives that are the same beyond one mailbox. -/
structure Undisturbed (place : Nat) (owner : Option Nat) (h h' : History κ) : Prop where
  session : h.session.Beyond place owner h'.session
  notices : h.notices = h'.notices

namespace Undisturbed

variable {place : Nat} {owner : Option Nat} {h h' : History κ} {d : Deed ω}

omit [Codec κ] in
theorem symm (hsame : Undisturbed place owner h h') : Undisturbed place owner h' h :=
  ⟨hsame.session.symm, hsame.notices.symm⟩

theorem perform (hsame : Undisturbed place owner h h') (hd : d.consumes place owner = false) :
    Undisturbed place owner (h.perform d) (h'.perform d) where
  session := hsame.session.perform hd
  notices := by
    simp only [History.perform, hsame.notices, hsame.session.notices hd]

theorem consume (hsame : Undisturbed place owner h h') (hd : d.consumes place owner = true) :
    Undisturbed place owner (h.perform d) h' where
  session := (hsame.session.consume hd).1
  notices := by
    simp only [History.perform, (hsame.session.consume hd).2, List.append_nil, hsame.notices]

theorem consumeAll (hsame : Undisturbed place owner h h') {deeds : List (Deed ω)}
    (hdeeds : ∀ d ∈ deeds, d.consumes place owner = true) :
    Undisturbed place owner (deeds.foldl History.perform h) h' := by
  induction deeds generalizing h with
  | nil => exact hsame
  | cons d deeds ih =>
      obtain ⟨hd, hdeeds⟩ := List.forall_mem_cons.mp hdeeds
      exact ih (hsame.consume hd) hdeeds

/-- Whatever the owner of the mailbox does in between. -/
theorem foldl (hsame : Undisturbed place owner h h') {deeds deeds' : List (Deed ω)}
    (heq : deeds.filter (!·.consumes place owner) = deeds'.filter (!·.consumes place owner)) :
    Undisturbed place owner (deeds.foldl History.perform h) (deeds'.foldl History.perform h') := by
  induction deeds generalizing h h' deeds' with
  | nil =>
      have hall : ∀ d ∈ deeds', d.consumes place owner = true := by
        simpa using List.filter_eq_nil_iff.mp heq.symm
      exact (hsame.symm.consumeAll hall).symm
  | cons d deeds ih =>
      cases hd : d.consumes place owner with
      | true =>
          rw [List.filter_cons_of_neg (by simp [hd])] at heq
          exact ih (hsame.consume hd) heq
      | false =>
          rw [List.filter_cons_of_pos (by simp [hd])] at heq
          -- What the owner does before the same deed comes on the other side.
          obtain ⟨front, back, rfl, hfront, _, hback⟩ := List.filter_eq_cons_iff.mp heq.symm
          have hall : ∀ d ∈ front, d.consumes place owner = true := by
            simpa using hfront
          have hready := (hsame.symm.consumeAll hall).symm
          rw [List.foldl_append]
          exact ih (hready.perform hd) hback.symm

end Undisturbed

/-- How a new mailbox is made on the two sides, and the caller who will wait at it if
it is made for one. -/
inductive Opens (s : Session κ) : Deed ω → Deed ω → Option Nat → Prop
  /-- A mailbox for many calls, which may hold more on one side than on the other. -/
  | completion {capacity capacity' : Nat} (h : capacity ≠ 0) (h' : capacity' ≠ 0) :
      Opens s (.completion capacity) (.completion capacity') none
  | go (a : Ask) : Opens s (.go a) (.go a) none
  | call {i : Nat} {call : Call} {shape : Wire.Shape} (now : Nat)
      (hcaller : s.callers[i]? = some (.fresh call shape)) (hopen : s.client.isOver = false) :
      Opens s (.task (.caller i) now) (.task (.caller i) now) (some i)

/-- Mailboxes stay. -/
theorem mailboxes_le {ns : List Notice} {c c' : Client} {r r' : Receiver}
    (h : Session.Change ns (c, r) (c', r')) : c.mailboxes.length ≤ c'.mailboxes.length := by
  cases h with
  | mailboxes _ halike => exact halike.mailboxes
  | issued _ p halike =>
      rw [Client.length_issue]
      exact halike.mailboxes
  | unsent _ _ seq error => exact (Client.frame_writeFailed seq error c).2.2.2.2.ge
  | matched _ _ _ hsome =>
      obtain ⟨_, rfl⟩ := Client.remove_eq_some_iff.mp hsome
      exact Nat.le_refl _
  | turnedAway | closed | unmatched | passed => exact Nat.le_refl _
  | cancelled | noHeader | replied | notPassed | refuted | refutedLast => simp

/-- Whoever waits does so at a mailbox there is. -/
theorem waiting_lt_run (codec : κ) (deeds : List (Deed ω)) :
    ∀ mailbox, .waiting mailbox ∈ (run codec deeds).session.callers →
      mailbox < (run codec deeds).session.client.mailboxes.length := by
  induction deeds using List.reverseRecOn with
  | nil =>
      intro mailbox hmailbox
      cases hmailbox
  | append_singleton deeds d ih =>
      intro mailbox hmailbox
      have hhonest := isHonest_run codec deeds
      rw [run_append_singleton] at hmailbox ⊢
      generalize run codec deeds = h at ih hhonest hmailbox ⊢
      have hmore := mailboxes_le (Session.change_of_perform hhonest d)
      have hmailbox : .waiting mailbox ∈ (h.session.perform d).callers := hmailbox
      rcases h.session.callers_perform d with heq | ⟨a, heq⟩ | ⟨place, new, heq, _, hnew, _⟩
      · rw [heq] at hmailbox
        exact Nat.lt_of_lt_of_le (ih mailbox hmailbox) hmore
      · rw [heq, List.mem_append, List.mem_singleton] at hmailbox
        rcases hmailbox with hold | hfresh
        · exact Nat.lt_of_lt_of_le (ih mailbox hold) hmore
        · cases hfresh
      · rw [heq] at hmailbox
        rcases List.mem_or_eq_of_mem_set hmailbox with hold | rfl
        · exact Nat.lt_of_lt_of_le (ih mailbox hold) hmore
        · exact (hnew mailbox rfl).2

theorem Opens.beyond {s : Session κ} {d d' : Deed ω} {owner : Option Nat}
    (hopens : Opens s d d' owner)
    (hwaiting : ∀ mailbox, .waiting mailbox ∈ s.callers → mailbox < s.client.mailboxes.length) :
    (s.perform d).Beyond s.client.mailboxes.length owner (s.perform d') ∧
      s.notices d = s.notices d' := by
  have hnobody (i : Nat) : s.callers[i]? ≠ some (.waiting s.client.mailboxes.length) := by
    intro heq
    exact Nat.lt_irrefl _ (hwaiting _ (List.mem_of_getElem? heq))
  cases hopens with
  | completion h h' =>
      refine ⟨?_, rfl⟩
      simp only [Session.perform, Client.completion, if_neg h, if_neg h']
      exact ⟨.opened s.client _ _ rfl, rfl, rfl, rfl, rfl, fun _ _ => rfl, rfl,
        fun i _ => hnobody i, .nobody _ _, .nobody _ _⟩
  | go a =>
      refine ⟨.refl ?_ (fun i _ => ?_) (.nobody _ _), rfl⟩
      · simp [Session.perform, Session.go, Client.length_issue, Client.addMailbox]
      · simp only [Session.perform, Session.go, Session.frame_issue]
        exact hnobody i
  | @call i call shape now hcaller hopen =>
      have hlt := (List.getElem?_eq_some_iff.mp hcaller).1
      have hstep : s.perform (.task (.caller i) now : Deed ω) =
          { { s with client := (s.client.addMailbox { capacity := 1, handles := 0 }).2 }.issue
              call shape s.client.mailboxes.length with
            callers := s.callers.set i (.waiting s.client.mailboxes.length) } := by
        simp [Session.perform, Session.step, Session.stepCaller, hcaller, hopen, Client.addMailbox]
      rw [hstep]
      refine ⟨.refl ?_ (fun j hj => ?_) ?_, rfl⟩
      · simp [Client.length_issue, Client.addMailbox]
      · have hne : i ≠ j := by
          rintro rfl
          exact hj rfl
        rw [List.getElem?_set_ne hne]
        exact hnobody j
      · rintro _ ⟨⟩
        exact ⟨_, List.getElem?_set_self hlt, rfl⟩

/-- A consumer that is slow or gone affects nobody else. Two lives may differ in how much
one mailbox can hold, in when its owner takes calls from it and in whether the owner
lets it go; the owner may also be a caller who comes late, or never, for the outcome
of its call. Then at every moment all the rest is the same: the table of waiting
calls, the number of the next call and the flags, what the codec has read and
written, what was told to all other callers, and what is in all other mailboxes. -/
theorem undisturbed_run (codec : κ) (before : List (Deed ω)) {d d' : Deed ω} {owner : Option Nat}
    (hopens : Opens (run codec before).session d d' owner) {deeds deeds' : List (Deed ω)} :
    let place := (run codec before).session.client.mailboxes.length
    let others := List.filter fun d : Deed ω => !d.consumes place owner
    others deeds = others deeds' →
      Undisturbed place owner (run codec (before ++ d :: deeds))
        (run codec (before ++ d' :: deeds')) ∧
      ∀ front, front <+: deeds → ∃ front', front' <+: deeds' ∧ others front = others front' ∧
        Undisturbed place owner (run codec (before ++ d :: front))
          (run codec (before ++ d' :: front')) := by
  intro place others heq
  obtain ⟨hsession, hnotices⟩ := hopens.beyond (waiting_lt_run codec before)
  have hopened : Undisturbed place owner ((run codec before).perform d)
      ((run codec before).perform d') :=
    ⟨hsession, congrArg ((run codec before).notices ++ ·) hnotices⟩
  have hrun (ds ds' : List (Deed ω)) (h : others ds = others ds') :
      Undisturbed place owner (run codec (before ++ d :: ds)) (run codec (before ++ d' :: ds')) := by
    have hlater := hopened.foldl h
    simpa only [run, List.foldl_append, List.foldl_cons] using hlater
  refine ⟨hrun deeds deeds' heq, fun front hfront => ?_⟩
  have hprefix : others front <+: others deeds' := heq ▸ hfront.filter _
  obtain ⟨front', hfront', hothers⟩ := List.prefix_filter_iff.mp hprefix
  exact ⟨front', hfront', hothers, hrun front front' hothers⟩

/-- Two calls are answered. Once the mailbox holds one call, and it is emptied in between;
once it holds three, and nobody ever takes any. -/
theorem undisturbed_by_slow_consumer :
    let ask : Ask := ⟨0, "Arith.Multiply", .unit, .unit⟩
    let answers : List (Deed (List Cue)) :=
      [.goWith ask 0, .goWith ask 0,
        .outside [.header ⟨"Arith.Multiply", 0, ""⟩, .body .unit,
          .header ⟨"Arith.Multiply", 1, ""⟩, .body .unit],
        .task .receiver 0, .task .receiver 0]
    let deeds := answers ++ [.take 0, .task .receiver 0, .task .receiver 0]
    let deeds' := answers ++ [.task .receiver 0, .task .receiver 0, .deafen 0]
    let h := run ({} : Rehearsal) (.completion 1 :: deeds)
    let h' := run ({} : Rehearsal) (.completion 3 :: deeds')
    (h.session.client.mailboxes[0]?.map (·.held.length) = some 1 ∧
        h'.session.client.mailboxes[0]?.map (·.held.length) = some 0) ∧
      Undisturbed 0 none h h' := by
  intro ask answers deeds deeds' h h'
  have hopens : Opens (run ({} : Rehearsal) ([] : List (Deed (List Cue)))).session
      (.completion 1 : Deed (List Cue)) (.completion 3) none := .completion (by decide) (by decide)
  have hothers : deeds.filter (!·.consumes 0 none) = deeds'.filter (!·.consumes 0 none) := rfl
  have hsame := (undisturbed_run ({} : Rehearsal) [] hopens hothers).1
  exact ⟨by decide +kernel, hsame⟩

end History

end Switchboard
