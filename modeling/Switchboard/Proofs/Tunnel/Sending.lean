import Switchboard.Proofs.Frame.Headway
import Switchboard.Proofs.Tunnel.Contacts

/-!
# Sending the request

Over any connection, the octets of a request go out in order, all that is left of them
being offered each time, and then they are flushed (`Outbound.Posting`). An attempt gets on
with that, or waits, or fails for what the connection answered or because the time is over
(`Outbound.Posts.step`), and there is nothing else that it can come to.
-/

namespace Switchboard

/-- The octets of a request for a tunnel. -/
def Tunnel.requestOctets (path : String) : Octets := (request path).toByteArray.octets

namespace Outbound

/-! ## The writing half on its way -/

/-- The writing half when it has begun to send these octets. -/
def carrying (octets : Octets) (o : Outbound) : Outbound :=
  { o with writing := some { later := Sending.parts (.raw octets) } }

theorem burden_carrying (octets : Octets) (o : Outbound) :
    (o.carrying octets).burden = 2 * octets.length + o.unsent.length + 4 := by
  have hunput : (o.carrying octets).unput = octets := by
    simp [unput, pending, carrying, Sending.parts, Act.octets]
  rw [burden_of_some (o := o.carrying octets) rfl, hunput]
  rfl

/-- Not given up, or given up, as the other is, and with the same settings. -/
structure Resembles (start o : Outbound) : Prop where
  aborted : o.aborted = start.aborted
  limit : o.limit = start.limit
  patience : o.patience = start.patience

theorem Resembles.step {L : Type} [Link L] {side : Side} {now : Nat} {start o o' : Outbound}
    {w : Writing} {link link' : L} {poll : Poll (Except LinkError Unit)} (h : start.Resembles o)
    (hstep : WriteStep side now o w link poll o' link') : start.Resembles o' := by
  obtain ⟨haborted, hlimit, hpatience⟩ := hstep.settings
  exact ⟨haborted.trans h.aborted, hlimit.trans h.limit, hpatience.trans h.patience⟩

/-- With nothing under way and nothing buffered, nothing else is left to differ. -/
theorem Resembles.eq {start o : Outbound} (h : start.Resembles o) (hidle : o.writing = none)
    (hbuffer : o.buffer = []) (hwritten : o.written = 0) (hidle' : start.writing = none)
    (hbuffer' : start.buffer = []) (hwritten' : start.written = 0) : o = start := by
  obtain ⟨haborted, hlimit, hpatience⟩ := h
  obtain ⟨buffer, written, aborted, limit, patience, writing⟩ := o
  obtain ⟨buffer', written', aborted', limit', patience', writing'⟩ := start
  dsimp only at *
  subst_vars
  rfl

/-- How far the writing half has come with these octets and the flush behind them. -/
inductive Posting (octets : Octets) (deadline : Option Nat) (contacts : List Contact)
    (o : Outbound) : Prop where
  | putting {rest : Octets} (hoctets : sentIn contacts ++ rest = octets) (hbuffer : o.buffer = [])
      (hwritten : o.written = 0) (hwriting : o.writing = some ⟨[.put rest, .flush], deadline, []⟩)
      (hopen : .flush (.ok ()) ∉ contacts)
  | flushing (hoctets : sentIn contacts ++ o.unsent = octets)
      (hshort : o.buffer.length < bufferSize) (htight : o.IsTight)
      (hwriting : o.writing = some ⟨[.flush], deadline, []⟩) (hopen : .flush (.ok ()) ∉ contacts)
  | flushed (hoctets : sentIn contacts = octets) (hbuffer : o.buffer = []) (hwritten : o.written = 0)
      (hwriting : o.writing = some ⟨[], deadline, []⟩) (hflushed : .flush (.ok ()) ∈ contacts)

/-- The writing half sends these octets, and nothing else was asked of the connection. -/
structure Posts (start : Outbound) (octets : Octets) (deadline : Option Nat)
    (contacts : List Contact) (o : Outbound) : Prop where
  settings : start.Resembles o
  outgoing : ∀ contact ∈ contacts, contact.IsOutgoing
  posting : o.Posting octets deadline contacts

/-- What one attempt to get on with these octets comes to. -/
inductive PostStep {L : Type} (start : Outbound) (octets : Octets) (deadline : Option Nat)
    (now : Nat) (l : Noted L) (o : Outbound) :
    Poll (Except LinkError Unit) → Outbound → Noted L → Prop where
  /-- The connection was asked for nothing. -/
  | apart {o' : Outbound} (hposts : start.Posts octets deadline l.contacts o')
      (hless : o'.burden < o.burden) : PostStep start octets deadline now l o .again o' l
  | gains {contact : Contact} {o' : Outbound} {l' : Noted L} (hopen : .flush (.ok ()) ∉ l.contacts)
      (hcontacts : l'.contacts = l.contacts ++ [contact]) (hgains : contact.Gains)
      (hposts : start.Posts octets deadline l'.contacts o') (hless : o'.burden < o.burden) :
      PostStep start octets deadline now l o .again o' l'
  /-- What is left of the octets was offered, and nothing of it was taken. -/
  | waits {offered : Octets} {l' : Noted L} (hopen : .flush (.ok ()) ∉ l.contacts)
      (hcontacts : l'.contacts = l.contacts ++ [.write offered .nothing])
      (hoffered : offered ≠ [] ∧ sentIn l.contacts ++ offered = octets)
      (hearly : ∀ time, deadline = some time → now < time)
      (hposts : start.Posts octets deadline l'.contacts o) :
      PostStep start octets deadline now l o .blocked o l'
  | sent {o' : Outbound} (hsent : sentIn l.contacts = octets)
      (hflushed : .flush (.ok ()) ∈ l.contacts) (hsettings : start.Resembles o')
      (hidle : o'.writing = none) (hbuffer : o'.buffer = []) (hwritten : o'.written = 0) :
      PostStep start octets deadline now l o (.done (.ok ())) o' l
  | broken {contact : Contact} {error : IoError} {o' : Outbound} {l' : Noted L}
      (hopen : .flush (.ok ()) ∉ l.contacts) (hcontacts : l'.contacts = l.contacts ++ [contact])
      (houtgoing : contact.IsOutgoing) (hbreaks : contact.Breaks error)
      (hsettings : start.Resembles o') :
      PostStep start octets deadline now l o (.done (.error (.io error))) o' l'
  | late {offered : Octets} {time : Nat} {o' : Outbound} {l' : Noted L}
      (hopen : .flush (.ok ()) ∉ l.contacts)
      (hcontacts : l'.contacts = l.contacts ++ [.write offered .nothing])
      (hdeadline : deadline = some time) (hdue : time ≤ now) (hsettings : start.Resembles o') :
      PostStep start octets deadline now l o (.done (.error (.timeout .send))) o' l'

variable {octets : Octets} {deadline : Option Nat} {contacts : List Contact} {start o o' : Outbound}

theorem Posting.tight (h : o.Posting octets deadline contacts) : o.IsTight := by
  cases h with
  | putting _ _ hwritten | flushed _ _ hwritten => exact .inl hwritten
  | flushing _ _ htight => exact htight

theorem Posting.busy (h : o.Posting octets deadline contacts) : o.writing.isSome := by
  cases h with
  | putting _ _ _ hwriting | flushing _ _ _ hwriting | flushed _ _ _ hwriting =>
      rw [hwriting]
      rfl

theorem Posting.sent_prefix (h : o.Posting octets deadline contacts) : sentIn contacts <+: octets := by
  cases h with
  | putting hoctets | flushing hoctets => exact ⟨_, hoctets⟩
  | flushed hoctets => rw [hoctets]

theorem Posting.sent_of_flushed (h : o.Posting octets deadline contacts)
    (hflushed : .flush (.ok ()) ∈ contacts) : sentIn contacts = octets := by
  cases h with
  | putting _ _ _ _ hopen | flushing _ _ _ _ hopen => exact absurd hflushed hopen
  | flushed hoctets => exact hoctets

/-- What is offered is all that is left. -/
theorem Posting.offered {w : Writing} {offered : Octets} (h : o.Posting octets deadline contacts)
    (hw : o.writing = some w) (hoffers : o.Offers w offered) :
    offered ≠ [] ∧ sentIn contacts ++ offered = octets := by
  refine ⟨(hoffers.left h.tight hw).1, ?_⟩
  cases h with
  | putting hoctets hbuffer _ hwriting =>
      obtain rfl := Option.some.inj (hwriting.symm.trans hw)
      cases hoffers with
      | buffered hfull => exact absurd hbuffer hfull
      | direct _ hacts =>
          obtain ⟨rfl, -⟩ := List.cons.inj hacts
          exact hoctets
  | flushing hoctets _ _ hwriting =>
      obtain rfl := Option.some.inj (hwriting.symm.trans hw)
      cases hoffers with
      | buffered => exact hoctets
      | direct _ hacts hputs =>
          obtain ⟨rfl, -⟩ := List.cons.inj hacts
          exact absurd rfl hputs.1
  | flushed _ _ _ hwriting =>
      obtain rfl := Option.some.inj (hwriting.symm.trans hw)
      exact absurd rfl hoffers.acts_ne_nil

/-! ## One attempt -/

section Step

variable {L : Type} {l l' : Noted L} {now : Nat} {rest offered : Octets} {contact : Contact}

/-- Another contact with which nothing was sent. -/
theorem sentIn_quiet (hsent : contact.sent = [])
    (hcontacts : l'.contacts = l.contacts ++ [contact]) :
    sentIn l'.contacts = sentIn l.contacts := by
  rw [hcontacts, sentIn_append, sentIn_singleton, hsent, List.append_nil]

theorem outgoing_append (h : ∀ contact ∈ l.contacts, contact.IsOutgoing)
    (hlast : contact.IsOutgoing) (hcontacts : l'.contacts = l.contacts ++ [contact]) :
    ∀ contact ∈ l'.contacts, contact.IsOutgoing := by
  rw [hcontacts]
  exact List.forall_mem_append.mpr ⟨h, List.forall_mem_singleton.mpr hlast⟩

theorem open_append (h : .flush (.ok ()) ∉ l.contacts) (hlast : contact ≠ .flush (.ok ()))
    (hcontacts : l'.contacts = l.contacts ++ [contact]) : .flush (.ok ()) ∉ l'.contacts := by
  rw [hcontacts, List.mem_append, List.mem_singleton]
  exact not_or.mpr ⟨h, hlast.symm⟩

/-- Nothing was taken, and all is as it was. -/
theorem Posts.wait (h : start.Posts octets deadline l.contacts o)
    (hopen : .flush (.ok ()) ∉ l.contacts)
    (hcontacts : l'.contacts = l.contacts ++ [.write offered .nothing]) :
    start.Posts octets deadline l'.contacts o := by
  have hopen' := open_append hopen (by simp) hcontacts
  refine ⟨h.settings, outgoing_append h.outgoing (.write offered .nothing) hcontacts, ?_⟩
  have hsent := sentIn_quiet (show Contact.sent (.write offered .nothing) = [] from rfl) hcontacts
  cases h.posting with
  | putting hoctets hbuffer hwritten hwriting =>
      exact .putting (hsent ▸ hoctets) hbuffer hwritten hwriting hopen'
  | flushing hoctets hshort htight hwriting =>
      exact .flushing (hsent ▸ hoctets) hshort htight hwriting hopen'
  | flushed _ _ _ _ hflushed => exact absurd hflushed hopen

variable [Link L] {poll : Poll (Except LinkError Unit)}

theorem postStep_of_putting (hsettings : start.Resembles o)
    (houtgoing : ∀ contact ∈ l.contacts, contact.IsOutgoing)
    (hoctets : sentIn l.contacts ++ rest = octets) (hbuffer : o.buffer = [])
    (hwritten : o.written = 0) (hw : o.writing = some ⟨[.put rest, .flush], deadline, []⟩)
    (hopen : .flush (.ok ()) ∉ l.contacts)
    (hstep : WriteStep .near now o ⟨[.put rest, .flush], deadline, []⟩ l poll o' l') :
    PostStep start octets deadline now l o poll o' l' := by
  have hposts : o.Posting octets deadline l.contacts :=
    .putting hoctets hbuffer hwritten hw hopen
  have hsettings' := hsettings.step hstep
  have hless (hagain : poll = .again) : o'.burden < o.burden := by
    subst hagain
    exact hstep.burden_lt hposts.tight hw
  cases hstep with
  | finished hacts | gone hacts | begins hacts => cases hacts
  | drains hfull | fails hfull => exact absurd hbuffer hfull
  | settles _ hacts hsettles | unsettled _ hacts hsettles =>
      cases hacts
      cases hsettles
  | puts hacts _ hfits =>
      cases hacts
      have hshort : rest.length < bufferSize := by
        rcases hfits with hnone | hfits
        · rw [show rest = [] from hnone]
          decide
        · exact hfits.2
      refine .apart ⟨hsettings', houtgoing, .flushing ?_ ?_ (.inl hwritten) rfl hopen⟩ (hless rfl)
      · show sentIn l.contacts ++ (o.buffer ++ rest).drop o.written = octets
        rw [hbuffer, hwritten]
        exact hoctets
      · rw [hbuffer]
        exact hshort
  | @passes _ _ count _ _ hacts _ _ hwrite =>
      cases hacts
      have hcontacts := Noted.contacts_of_write hwrite
      refine .gains hopen hcontacts (.taken rest count) ⟨hsettings', ?_, ?_⟩ (hless rfl)
      · exact outgoing_append houtgoing (.write rest _) hcontacts
      · refine .putting ?_ hbuffer hwritten rfl (open_append hopen (by simp) hcontacts)
        rw [hcontacts, sentIn_append, sentIn_singleton, List.append_assoc]
        show sentIn l.contacts ++ (rest.take (count + 1) ++ rest.drop (count + 1)) = octets
        rw [List.take_append_drop, hoctets]
  | failsPast _ hacts _ hlong hwrite hfails =>
      cases hacts
      have hcontacts := Noted.contacts_of_write hwrite
      refine .broken hopen hcontacts (.write rest _) (Contact.breaks_of_failsWith hfails ?_)
        hsettings'
      rw [nothingTaken, if_neg (Nat.not_lt.mpr hlong)]
  | waits hoffers hwrite hearly =>
      have hcontacts := Noted.contacts_of_write hwrite
      exact .waits hopen hcontacts (hposts.offered hw hoffers) hearly
        (Posts.wait ⟨hsettings, houtgoing, hposts⟩ hopen hcontacts)
  | late _ hwrite hdeadline hdue =>
      exact .late hopen (Noted.contacts_of_write hwrite) hdeadline hdue hsettings'

theorem postStep_of_flushing (hsettings : start.Resembles o)
    (houtgoing : ∀ contact ∈ l.contacts, contact.IsOutgoing)
    (hoctets : sentIn l.contacts ++ o.unsent = octets) (hshort : o.buffer.length < bufferSize)
    (htight : o.IsTight) (hw : o.writing = some ⟨[.flush], deadline, []⟩)
    (hopen : .flush (.ok ()) ∉ l.contacts)
    (hstep : WriteStep .near now o ⟨[.flush], deadline, []⟩ l poll o' l') :
    PostStep start octets deadline now l o poll o' l' := by
  have hposts : o.Posting octets deadline l.contacts :=
    .flushing hoctets hshort htight hw hopen
  have hsettings' := hsettings.step hstep
  have hless (hagain : poll = .again) : o'.burden < o.burden := by
    subst hagain
    exact hstep.burden_lt htight hw
  have hflush {act : Act} {acts : List Act} (hacts : [.flush] = act :: acts) : ¬ act.Puts := by
    cases hacts
    exact fun hputs => hputs.1 rfl
  cases hstep with
  | finished hacts | gone hacts | begins hacts => cases hacts
  | puts hacts hputs | passes _ hacts hputs | failsPast _ hacts hputs =>
      exact absurd hputs (hflush hacts)
  | settles hbuffer hacts hsettles =>
      cases hacts
      have hcontacts := Noted.contacts_of_settles hsettles
      have hwritten : o.written = 0 := by
        rcases htight with hzero | hsome
        · exact hzero
        · rw [hbuffer] at hsome
          cases hsome
      refine .gains hopen hcontacts .flushed ⟨hsettings', ?_, ?_⟩ (hless rfl)
      · exact outgoing_append houtgoing (.flush _) hcontacts
      · refine .flushed ?_ hbuffer hwritten rfl ?_
        · rw [sentIn_quiet (show Contact.sent (.flush (.ok ())) = [] from rfl) hcontacts, ← hoctets,
            unsent_of_empty hbuffer, List.append_nil]
        · rw [hcontacts]
          exact List.mem_append_right _ (List.mem_singleton.mpr rfl)
  | unsettled _ hacts hsettles =>
      cases hacts
      exact .broken hopen (Noted.contacts_of_settles hsettles) (.flush _) (.flush _) hsettings'
  | @drains count _ hfull _ hwrite =>
      have hcontacts := Noted.contacts_of_write hwrite
      have hshort' : (o.handed (count + 1)).buffer.length < bufferSize := by
        rcases handed_buffer (count + 1) o with hsame | hempty
        · rwa [hsame]
        · rw [hempty]
          decide
      refine .gains hopen hcontacts (.taken _ count) ⟨hsettings', ?_, ?_⟩ (hless rfl)
      · exact outgoing_append houtgoing (.write _ _) hcontacts
      · refine .flushing ?_ hshort' (tight_handed ..) ((handed_writing ..).trans hw)
          (open_append hopen (by simp) hcontacts)
        rw [hcontacts, sentIn_append, sentIn_singleton, handed_unsent, List.append_assoc]
        show sentIn l.contacts ++ (o.unsent.take (count + 1) ++ o.unsent.drop (count + 1)) = octets
        rw [List.take_append_drop, hoctets]
  | fails _ _ hwrite hfails =>
      have hcontacts := Noted.contacts_of_write hwrite
      have hunsent : o.unsent.length < bufferSize := by
        rw [unsent, List.length_drop]
        omega
      refine .broken hopen hcontacts (.write _ _) (Contact.breaks_of_failsWith hfails ?_) hsettings'
      rw [nothingTaken, if_pos hunsent]
  | waits hoffers hwrite hearly =>
      have hcontacts := Noted.contacts_of_write hwrite
      exact .waits hopen hcontacts (hposts.offered hw hoffers) hearly
        (Posts.wait ⟨hsettings, houtgoing, hposts⟩ hopen hcontacts)
  | late _ hwrite hdeadline hdue =>
      exact .late hopen (Noted.contacts_of_write hwrite) hdeadline hdue hsettings'

/-- An attempt to get on with a request. -/
theorem Posts.step (h : start.Posts octets deadline l.contacts o) (now : Nat) :
    PostStep start octets deadline now l o (o.step .near now l).1 (o.step .near now l).2.1
      (o.step .near now l).2.2 := by
  obtain ⟨hsettings, houtgoing, hposts⟩ := h
  cases hposts with
  | putting hoctets hbuffer hwritten hw hopen =>
      exact postStep_of_putting hsettings houtgoing hoctets hbuffer hwritten hw hopen
        (step_cases .near now hw l)
  | flushing hoctets hshort htight hw hopen =>
      exact postStep_of_flushing hsettings houtgoing hoctets hshort htight hw hopen
        (step_cases .near now hw l)
  | flushed hoctets hbuffer hwritten hw hflushed =>
      rw [step_finished .near now hw rfl rfl]
      exact .sent hoctets hflushed ⟨hsettings.aborted, hsettings.limit, hsettings.patience⟩ rfl
        hbuffer hwritten

end Step

end Outbound

end Switchboard
