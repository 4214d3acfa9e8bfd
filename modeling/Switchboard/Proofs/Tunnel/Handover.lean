import Switchboard.Proofs.Client.Alignment
import Switchboard.Proofs.Client.Ending
import Switchboard.Proofs.Frame.Headway
import Switchboard.Proofs.Frame.Segments
import Switchboard.Proofs.Tunnel.Outcome

/-!
# What a handshake leaves to the frames

A handshake on a connection that sooner or later takes the request, with a server whose stream
ends. Such a connection keeps account of what was asked of it (`Script.Follows`), and whatever
it keeps somebody waiting for comes to an end: the credit grows, and so does the time
(`Course.exists_result`). A handshake that agrees leaves the connection as it was, but for the
octets of the request that went out and those of the answer that came in (`HandsOver`). So
the reads of whoever has the connection next, and the receiver of a client that
begins with it, start at the first octet behind the answer, also where that octet
came together with the answer. `answered_run` says it of every handshake over a
stream that ends, with all that can come of it.
-/

namespace Switchboard

open Tunnel (Answers Decides requestOctets)

/-! ## A connection that serves and ends -/

/-- So many octets are taken beside those that were already. -/
def Script.grant (more : Nat) (link : Script) : Script :=
  { link with credit := link.credit.map (· + more) }

/-- No attempt to write fails, and so many octets will be taken. -/
structure Script.TakesAll (grants : Nat → Nat) (count : Nat) (link : Script) : Prop where
  serves : link.Serves
  enough : ∀ credit, link.credit = some credit →
    ∃ n, count ≤ credit + ∑ i ∈ Finset.range n, grants i

/-- The contact is none that a connection which serves and ends would give an error. -/
inductive Contact.IsServed : Contact → Prop where
  | data {octets : Octets} (hsome : octets ≠ []) : IsServed (.read (.data octets))
  | noData : IsServed (.read .nothing)
  | ended : IsServed (.read .ended)
  | taken (octets : Octets) (count : Nat) : IsServed (.write octets (.accepted (count + 1)))
  | notTaken (octets : Octets) : IsServed (.write octets .nothing)
  | flushed : IsServed (.flush (.ok ()))
  | closing {contact : Contact} (hclosing : contact.IsClosing) : IsServed contact

theorem Contact.IsServed.not_breaks {contact : Contact} (h : contact.IsServed) (error : IoError) :
    ¬ contact.Breaks error := by
  intro hbreaks
  cases h with
  | closing hclosing => cases hclosing <;> cases hbreaks
  | data | noData | ended | taken | notTaken | flushed => cases hbreaks

namespace Script

/-- What one contact changes. -/
structure Accounts (link : Script) (contact : Contact) (link' : Script) : Prop where
  serves : link.Serves → link'.Serves
  ends : Incoming.EndsWell link.incoming → Incoming.EndsWell link'.incoming
  taken : link'.taken = link.taken ++ contact.sent
  budget : link'.budget = link.budget
  octets : Incoming.octets link.incoming = contact.heard ++ Incoming.octets link'.incoming
  ended : contact = .read .ended → Incoming.octets link'.incoming = []
  unread : (∀ arrival, contact ≠ .read arrival) → link'.incoming = link.incoming
  shut : link.shut = true ∨ (∃ result, contact = .shut result) → link'.shut = true
  readerGone : link.readerGone = true ∨ contact = .dropReader → link'.readerGone = true
  writerGone : link.writerGone = true ∨ contact = .dropWriter → link'.writerGone = true

variable {link link' : Script} {contact : Contact} {now : Nat}

theorem accounts_read (want now : Nat) (link : Script) :
    link.Accounts (.read (Link.read .near want now link).1) (Link.read .near want now link).2 := by
  have hoctets := octets_readFrom want now link.incoming []
  rw [List.append_nil, List.append_nil] at hoctets
  have hheard : (Contact.read (readFrom want now link.incoming).1).heard =
      (readFrom want now link.incoming).1.octets := by
    cases (readFrom want now link.incoming).1 <;> rfl
  refine ⟨fun h => ⟨h.whenFull, h.flushError⟩, fun h => ?_, (List.append_nil _).symm, rfl, ?_,
    fun hended => ?_, fun hother => absurd rfl (hother _), ?_, ?_, ?_⟩
  · exact ⟨ended_readFrom want now h.ended,
      fun error hmem => h.calm error (failure_of_readFrom (.inr hmem))⟩
  · exact hoctets.trans (congrArg (· ++ _) hheard.symm)
  · have hnone := octets_of_ended (Contact.read.inj hended) []
    rw [List.append_nil, hoctets] at hnone
    exact (List.append_eq_nil_iff.mp hnone).2
  all_goals
    rintro (hbefore | hcontact)
    · exact hbefore
    · simp at hcontact

theorem accounts_write (octets : Octets) (link : Script) :
    link.Accounts (.write octets (Link.write .near octets link).1)
      (Link.write .near octets link).2 := by
  have hbudget := budget_write .near octets link
  have hwrite := write_eq .near octets link
  have hflag {p q : Prop} (h : p ∨ q) (hother : ¬ q) : p := h.resolve_right hother
  cases hroom : link.room octets with
  | zero =>
      rw [if_pos hroom] at hwrite
      rw [hwrite] at hbudget ⊢
      have hsent : (Contact.write octets link.whenFull.acceptance).sent = [] := by
        cases link.whenFull <;> rfl
      exact ⟨id, id, by rw [hsent, List.append_nil], rfl, rfl, nofun, fun _ => rfl,
        fun h => hflag h (by simp), fun h => hflag h (by simp), fun h => hflag h (by simp)⟩
  | succ count =>
      rw [if_neg (by omega)] at hwrite
      rw [hwrite] at hbudget ⊢
      exact ⟨fun h => ⟨h.whenFull, h.flushError⟩, id, rfl, hbudget, rfl, nofun, fun _ => rfl,
        fun h => hflag h (by simp), fun h => hflag h (by simp), fun h => hflag h (by simp)⟩

/-- Every contact is accounted for. -/
theorem accounts_of_replies (h : Noted.Replies now link contact link') :
    link.Accounts contact link' := by
  cases h with
  | read => exact accounts_read _ _ link
  | write octets => exact accounts_write octets link
  | flush | shut | dropReader | dropWriter =>
      refine ⟨fun h => ⟨h.whenFull, h.flushError⟩, id, (List.append_nil _).symm, rfl, rfl, nofun,
        fun _ => rfl, ?_, ?_, ?_⟩
      all_goals
        rintro (hbefore | hcontact)
        · first | exact hbefore | rfl
        · first | rfl | simp at hcontact

/-- What serves and ends gives no error. -/
theorem served_of_replies (h : Noted.Replies now link contact link') (hserves : link.Serves)
    (hends : Incoming.EndsWell link.incoming) : contact.IsServed := by
  cases h with
  | @read want hwant =>
      show (Contact.read (readFrom want now link.incoming).1).IsServed
      cases harrival : (readFrom want now link.incoming).1 with
      | data octets =>
          have hlength := length_of_data hwant harrival
          exact .data (List.length_pos_iff.mp hlength)
      | ended => exact .ended
      | failed error => exact absurd (failure_of_readFrom (.inl harrival)) (hends.calm error)
      | nothing => exact .noData
  | write octets =>
      rw [write_eq, hserves.whenFull]
      cases link.room octets with
      | zero => exact .notTaken octets
      | succ count => exact .taken octets count
  | flush =>
      show (Contact.flush (planned link.flushError)).IsServed
      rw [hserves.flushError]
      exact .flushed
  | shut => exact .closing (.shut _)
  | dropReader => exact .closing .dropReader
  | dropWriter => exact .closing .dropWriter

/-- An attempt that finds nothing on a stream that ends has less left behind it, or waits for the
end of a silence. -/
theorem silent_or_less {want : Nat} {incoming incoming' : List Incoming} (hended : .ended ∈ incoming)
    (h : readFrom want now incoming = (.nothing, incoming')) :
    Incoming.burden incoming' < Incoming.burden incoming ∨
      Incoming.burden incoming' ≤ Incoming.burden incoming ∧ ∃ time, now < time ∧
        (∃ rest, incoming' = .silentUntil time :: rest) ∧
        ∀ other, (∃ rest, incoming = .silentUntil other :: rest) → time = other := by
  have hburden := burden_readFrom want now incoming
  obtain ⟨time, rest, hnow, hsilent⟩ := silent_of_nothing hended (congrArg Prod.fst h)
  rw [h] at hburden hsilent
  have hle : Incoming.burden incoming' ≤ Incoming.burden incoming := (Nat.le_add_left ..).trans hburden
  by_cases hbegun : ∃ other left, incoming = .silentUntil other :: left
  · obtain ⟨other, left, rfl⟩ := hbegun
    rcases still_readFrom want now other left with hless | hsame
    · rw [h] at hless
      exact .inl hless
    · obtain ⟨-, rfl⟩ := Prod.mk.inj (h.symm.trans hsame)
      refine .inr ⟨hle, other, ?_, ⟨left, rfl⟩, ?_⟩
      · obtain ⟨heq, -⟩ := List.cons.inj hsilent
        rwa [Incoming.silentUntil.inj heq]
      · rintro _ ⟨_, ⟨⟩⟩
        rfl
  · exact .inr ⟨hle, time, hnow, ⟨rest, hsilent⟩, fun other hother => absurd ⟨other, hother⟩ hbegun⟩

/-- What has become of a connection by the contacts that there were. -/
structure Follows (start : Script) (l : Noted Script) : Prop where
  serves : l.link.Serves
  ends : Incoming.EndsWell l.link.incoming
  taken : l.link.taken = start.taken ++ sentIn l.contacts
  octets : Incoming.octets start.incoming = heardIn l.contacts ++ Incoming.octets l.link.incoming
  served : ∀ contact ∈ l.contacts, contact.IsServed
  ended : .read .ended ∈ l.contacts → Incoming.octets l.link.incoming = []
  unread : (∀ contact ∈ l.contacts, ∀ arrival, contact ≠ .read arrival) →
    l.link.incoming = start.incoming
  shut : ∀ result, .shut result ∈ l.contacts → l.link.shut = true
  readerGone : .dropReader ∈ l.contacts → l.link.readerGone = true
  writerGone : .dropWriter ∈ l.contacts → l.link.writerGone = true

theorem Follows.next {start : Script} {l : Noted Script} (h : Follows start l)
    (hreplies : Noted.Replies now l.link contact link') : Follows start (l.note contact link') := by
  have haccounts := accounts_of_replies hreplies
  have hserved := served_of_replies hreplies h.serves h.ends
  have hmem {other : Contact} (hother : other ∈ (l.note contact link').contacts) :
      other ∈ l.contacts ∨ contact = other := by
    rcases List.mem_append.mp hother with hearlier | hlast
    · exact .inl hearlier
    · exact .inr (List.mem_singleton.mp hlast).symm
  refine ⟨haccounts.serves h.serves, haccounts.ends h.ends, ?_, ?_, fun other hother => ?_,
    fun hother => ?_, fun hunread => ?_, fun result hother => ?_, fun hother => ?_,
    fun hother => ?_⟩
  · show link'.taken = start.taken ++ sentIn (l.contacts ++ [contact])
    rw [haccounts.taken, h.taken, sentIn_append, sentIn_singleton, List.append_assoc]
  · show _ = heardIn (l.contacts ++ [contact]) ++ Incoming.octets link'.incoming
    rw [h.octets, haccounts.octets, heardIn_append, heardIn_singleton, List.append_assoc]
  · rcases hmem hother with hearlier | rfl
    · exact h.served other hearlier
    · exact hserved
  · rcases hmem hother with hearlier | hlast
    · have hnone := h.ended hearlier
      rw [haccounts.octets] at hnone
      exact (List.append_eq_nil_iff.mp hnone).2
    · exact haccounts.ended hlast
  · have hlast := List.forall_mem_append.mp hunread
    exact (haccounts.unread (List.forall_mem_singleton.mp hlast.2)).trans (h.unread hlast.1)
  · exact haccounts.shut ((hmem hother).imp (h.shut result) fun hlast => ⟨result, hlast⟩)
  · exact haccounts.readerGone ((hmem hother).imp_left h.readerGone)
  · exact haccounts.writerGone ((hmem hother).imp_left h.writerGone)

end Script

/-! ## A handshake over it -/

/-- A course over a script that gets some more credit before every attempt. -/
structure Course.Serves (c : Course Script) (grants : Nat → Nat) : Prop where
  acts : ∀ n, c.acts n = Script.grant (grants n)
  takes : c.start.link.TakesAll grants (requestOctets c.path).length
  ends : Incoming.EndsWell c.start.link.incoming

namespace Course

variable {c : Course Script} {grants : Nat → Nat} {n : Nat} {contact : Contact}

/-- The connection has given what it was asked for, and its credit comes from the beginning
and from what was granted since. -/
structure Stands (c : Course Script) (grants : Nat → Nat) (n : Nat) (l : Noted Script) : Prop where
  follows : c.start.link.Follows l
  budget : l.link.budget = c.start.link.budget.map (· + ∑ i ∈ Finset.range n, grants i)

theorem Stands.grant {l : Noted Script} (h : c.Stands grants n l) :
    c.Stands grants (n + 1) (Noted.outside (Script.grant (grants n)) l) := by
  obtain ⟨⟨hserves, hends, htaken, hoctets, hserved, hended, hunread, hshut, hreader, hwriter⟩,
    hbudget⟩ := h
  refine ⟨⟨⟨hserves.whenFull, hserves.flushError⟩, hends, htaken, hoctets, hserved, hended, hunread,
    hshut, hreader, hwriter⟩, ?_⟩
  have hgranted : (l.link.grant (grants n)).budget = l.link.budget.map (· + grants n) := by
    simp only [Script.grant, Script.budget, Option.map_map]
    congr 1
    funext credit
    simp only [Function.comp_apply]
    omega
  show (l.link.grant (grants n)).budget = _
  rw [hgranted, hbudget, Option.map_map]
  congr 1
  funext budget
  simp only [Function.comp_apply, Finset.sum_range_succ]
  omega

/-- The connection is never at odds with what was asked of it. -/
theorem exists_stands (h : c.Serves grants) (n : Nat) :
    ∃ m, c.Stands grants m (c.notes n).wire.link ∧ ((c.notes n).result = none → m = n) := by
  refine Dialing.exists_keeps_run (fun n => Noted.keeps_of_replies ?_) ?_ ?_ n
  · intro l contact link' hstands hreplies
    exact ⟨hstands.follows.next hreplies,
      (Script.accounts_of_replies hreplies).budget.trans hstands.budget⟩
  · intro n l hstands
    rw [h.acts]
    exact hstands.grant
  · refine ⟨⟨h.takes.serves, h.ends, ?_, rfl, by simp, by simp, fun _ => rfl, by simp, by simp,
      by simp⟩, ?_⟩
    · exact (List.append_nil _).symm
    · show c.start.link.budget = _
      simp

theorem follows (h : c.Serves grants) (n : Nat) :
    c.start.link.Follows (c.notes n).wire.link := by
  obtain ⟨m, hstands, -⟩ := exists_stands h n
  exact hstands.follows

theorem stands (h : c.Serves grants) (hgoing : (c.dial n).result = none) :
    c.Stands grants n (c.notes n).wire.link := by
  obtain ⟨m, hstands, hm⟩ := exists_stands h n
  obtain rfl := hm (c.result_notes n ▸ hgoing)
  exact hstands

theorem mem_contacts (h : c.Asks n contact) : contact ∈ c.contacts (n + 1) :=
  h.subset (List.mem_append_right _ (List.mem_singleton.mpr rfl))

/-- A stream that ends does not give octets for ever. -/
theorem not_fed (h : c.Serves grants) :
    ¬ ∀ n, ∃ m ≥ n, ∃ octets, c.Asks m (.read (.data octets)) := by
  intro hoften
  have hmore (count : Nat) : ∃ n, count ≤ (heardIn (c.contacts n)).length := by
    induction count with
    | zero => exact ⟨0, Nat.zero_le _⟩
    | succ count ih =>
        obtain ⟨n, hn⟩ := ih
        obtain ⟨m, hm, octets, hasks⟩ := hoften n
        have hsome : octets ≠ [] := by
          cases (follows h (m + 1)).served _ (mem_contacts hasks) with
          | data hsome => exact hsome
          | closing hclosing => cases hclosing
        have hpos : 0 < octets.length := List.length_pos_iff.mpr hsome
        have hbefore := (heardIn_extend (contacts_extend (c := c) hm)).length_le
        have hafter := (heardIn_extend hasks).length_le
        rw [heardIn_append, heardIn_singleton, List.length_append] at hafter
        refine ⟨m + 1, le_trans (Nat.add_le_add (hn.trans hbefore) hpos) hafter⟩
  obtain ⟨n, hn⟩ := hmore ((Incoming.octets c.start.link.incoming).length + 1)
  have htotal : (Incoming.octets c.start.link.incoming).length = (heardIn (c.contacts n)).length +
      (Incoming.octets (c.notes n).wire.link.link.incoming).length := by
    rw [(follows h n).octets, List.length_append]
    rfl
  omega

/-- The credit grows until there is enough of it. -/
theorem not_starved (h : c.Serves grants) (hgoing : ∀ n, (c.dial n).result = none) (first : Nat) :
    ¬ ∀ m ≥ first, ∃ offered, c.Stalls m (.write offered .nothing) := by
  intro hstarved
  -- Whenever nothing is taken, all the credit there was is used up.
  have hspent (m : Nat) (hm : first ≤ m) : ∃ credit, c.start.link.credit = some credit ∧
      credit + ∑ i ∈ Finset.range (m + 1), grants i < (requestOctets c.path).length := by
    obtain ⟨offered, hstalls⟩ := hstarved m hm
    obtain ⟨hsome, hoffered⟩ := hstalls.offered offered rfl
    have hpos := List.length_pos_iff.mpr hsome
    have hoctets := congrArg List.length hoffered
    rw [List.length_append] at hoctets
    have hreplies := replies hstalls.contacts
    have htaken : (c.acts m (c.notes m).wire.link.link).taken.length =
        c.start.link.taken.length + (sentIn (c.contacts m)).length := by
      rw [h.acts]
      show (c.notes m).wire.link.link.taken.length = _
      rw [(follows h m).taken, List.length_append]
      rfl
    have hbudget := (stands h (hgoing (m + 1))).budget
    rw [(Script.accounts_of_replies hreplies).budget] at hbudget
    have hcredit := Script.credit_of_nothing hsome hreplies.of_write
    rw [Script.budget, Script.budget, hcredit, Option.map_some, Option.map_map] at hbudget
    obtain ⟨credit, hstart, hsum⟩ := Option.map_eq_some_iff.mp hbudget.symm
    refine ⟨credit, hstart, ?_⟩
    simp only [Function.comp_apply] at hsum
    omega
  obtain ⟨credit, hstart, -⟩ := hspent first (Nat.le_refl first)
  obtain ⟨enough, henough⟩ := h.takes.enough credit hstart
  obtain ⟨credit', hstart', hless⟩ := hspent (max first enough) (Nat.le_max_left ..)
  obtain rfl : credit = credit' := Option.some.inj (hstart.symm.trans hstart')
  have hmore : ∑ i ∈ Finset.range enough, grants i ≤
      ∑ i ∈ Finset.range (max first enough + 1), grants i := by
    refine Finset.sum_le_sum_of_subset (Finset.range_mono ?_)
    exact Nat.le_succ_of_le (Nat.le_max_right ..)
  omega

/-- No silence lasts for ever. -/
theorem not_silent (h : c.Serves grants) (hclock : ∀ time, ∃ n, ∀ m ≥ n, time ≤ c.clock m)
    (first : Nat) : ¬ ∀ m ≥ first, c.Stalls m (.read .nothing) := by
  intro hsilent
  refine Framed.not_forever
    (fun k time => ∃ rest, (c.notes (first + k)).wire.link.link.incoming = .silentUntil time :: rest)
    (fun k => Incoming.burden (c.notes (first + k)).wire.link.link.incoming)
    (fun k => c.clock (first + k)) (fun time => ?_) (fun k => ?_)
  · obtain ⟨n, hn⟩ := hclock time
    exact ⟨n, fun m hm => hn _ (Nat.le_add_left_of_le hm)⟩
  · have hreplies := replies (hsilent (first + k) (Nat.le_add_right ..)).contacts
    have hends := (follows h (first + k)).ends
    obtain ⟨want, -, hread⟩ := hreplies.of_read
    obtain ⟨incoming, hfound, hlink⟩ := Script.exists_incoming hread
    have hincoming : (c.notes (first + (k + 1))).wire.link.link.incoming = incoming :=
      congrArg Script.incoming hlink
    have hsame : (c.acts (first + k) (c.notes (first + k)).wire.link.link).incoming =
        (c.notes (first + k)).wire.link.link.incoming := by
      rw [h.acts]
      rfl
    rw [hsame] at hfound
    rw [hincoming]
    exact Script.silent_or_less hends.ended hfound

theorem contact_of_stalls (h : c.Serves grants) (hstalls : c.Stalls n contact) :
    contact = .read .nothing ∨ ∃ offered, contact = .write offered .nothing := by
  cases hstalls.waits with
  | noData => exact .inl rfl
  | notTaken offered => exact .inr ⟨offered, rfl⟩
  | interrupted error =>
      cases (follows h (n + 1)).served _ (mem_contacts (asks_of_contacts hstalls.contacts)) with
      | closing hclosing => cases hclosing

/-- If time goes on without end, the handshake comes to an end. -/
theorem exists_result (h : c.Serves grants) (hclock : ∀ time, ∃ n, ∀ m ≥ n, time ≤ c.clock m) :
    ∃ n result, (c.dial n).result = some result := by
  by_contra hnever
  push Not at hnever
  have hgoing (n : Nat) : (c.dial n).result = none := Option.eq_none_iff_forall_ne_some.mpr (hnever n)
  rcases keptWaiting_of_endless hgoing with hoften | ⟨first, hstalls⟩
  · exact not_fed h hoften
  by_cases hread : ∃ m ≥ first, c.Stalls m (.read .nothing)
  · -- Once something was read the whole request is out, and nothing of it can be offered.
    obtain ⟨begun, hbegun, hfirst⟩ := hread
    refine not_silent h hclock (begun + 1) fun m hm => ?_
    obtain ⟨contact, hcontact⟩ := hstalls m (by omega)
    rcases contact_of_stalls h hcontact with rfl | ⟨offered, rfl⟩
    · exact hcontact
    · have hmem : .read .nothing ∈ c.contacts m := (contacts_extend hm).subset
        (mem_contacts (asks_of_contacts hfirst.contacts))
      have hflushed : .flush (.ok ()) ∈ c.contacts m :=
        (c.minds m).unread.resolve_right fun hunread => hunread.1 _ hmem _ rfl
      obtain ⟨hsome, hoffered⟩ := hcontact.offered offered rfl
      rw [(c.minds m).whole hflushed] at hoffered
      exact absurd (List.append_right_eq_self.mp hoffered) hsome
  · refine not_starved h hgoing first fun m hm => ?_
    obtain ⟨contact, hcontact⟩ := hstalls m hm
    rcases contact_of_stalls h hcontact with rfl | ⟨offered, rfl⟩
    · exact absurd ⟨m, hm, hcontact⟩ hread
    · exact ⟨offered, hcontact⟩

end Course

/-! ## The client that comes after it -/

/-- Where a stream ends, what comes behind it does not count. -/
theorem Framed.unread_of_ended {f : Framed Script} (h : .ended ∈ f.link.incoming)
    (more : List Incoming) : f.unread more = f.unread [] := by
  rw [Framed.unread, Framed.unread, Incoming.octets_append, if_pos h, List.append_nil,
    List.append_nil]

/-- The receiver takes one octet after the other: what it took lies in front of
what is not read. -/
theorem History.unread_run {codec : Framed Script} (hidle : codec.inbound.reading = none)
    (deeds : List (Session.Deed Script.Twist)) :
    ∃ taken, ∀ more, codec.unread (arrivals deeds ++ more) =
      taken ++ (run codec deeds).session.codec.unread more := by
  induction deeds using List.reverseRecOn with
  | nil => exact ⟨[], fun more => rfl⟩
  | append_singleton deeds d ih =>
      obtain ⟨taken, hunread⟩ := ih
      by_cases hd : ∃ now, d = .task .receiver now
      · obtain ⟨now, rfl⟩ := hd
        obtain ⟨_, hreads⟩ := isReading_run hidle deeds
        have hstep := Session.receiverReads hreads now
        have hgot : ∃ got, (run codec deeds).session.codec.Took got
            ((run codec deeds).session.stepReceiver now).2.codec := by
          generalize ((run codec deeds).session.stepReceiver now).2 = s' at hstep
          generalize (run codec deeds).session.readEnding now = failure at hstep
          cases hstep with
          | ended => exact ⟨[], .of_same rfl rfl⟩
          | cancelled _ _ htook => exact ⟨[], htook⟩
          | awaited got _ htook => exact ⟨got, htook⟩
          | frame got _ _ _ _ hwhole => exact ⟨got, hwhole.took⟩
          | broken _ _ hread hcodec =>
              obtain ⟨⟨got, htook, -⟩, -⟩ := hread.no_frame
              exact ⟨got, htook.trans_same hcodec⟩
        obtain ⟨got, htook⟩ := hgot
        refine ⟨taken ++ got, fun more => ?_⟩
        have harrivals : arrivals (deeds ++ [.task .receiver now]) = arrivals deeds := by
          rw [arrivals_append_singleton]
          exact List.append_nil _
        rw [harrivals, session_receiver, hunread more, htook.unread more,
          List.append_assoc]
      · have hbeside := (run codec deeds).session.beside_perform fun now heq => hd ⟨now, heq⟩
        refine ⟨taken, fun more => ?_⟩
        rw [arrivals_append_singleton, List.append_assoc, hunread, run_append_singleton]
        show _ = _ ++ Framed.unread ((run codec deeds).session.perform d).codec more
        rw [Framed.unread, Framed.unread, hbeside.inbound, hbeside.incoming, List.append_assoc]

namespace Framed

/-- The connection is as it was at the start, but these are the octets that there
are to read. -/
structure HandsOver (start : Framed Script) (rest : Octets) (f : Framed Script) : Prop where
  inbound : f.inbound = { start.inbound with buffer := f.inbound.buffer }
  outbound : f.outbound = start.outbound
  unread : f.unread [] = rest
  /-- Whatever is read, at whatever times, it is what the parser finds in these
  octets. -/
  reads : ∀ (kinds : List ReadKind) (clock : Nat → Nat),
    (∀ time, ∃ n, ∀ m ≥ n, time ≤ clock m) →
      ∃ n, ∀ m ≥ n, ∀ r, r = Reader.run clock { codec := f, todo := kinds } m →
        r.todo = [] ∧ (r.InTime →
          oneShots start.inbound.limit kinds rest = (r.results, r.codec.unread []))
  /-- The receiver of a client that begins with the connection takes these octets
  one after the other, from the first one on. -/
  receives : ∀ deeds : List (Session.Deed Script.Twist), ∃ taken,
    rest = taken ++ (History.run f deeds).session.codec.unread []

end Framed

/-- A handshake was given up because something took too long. -/
def Dialing.IsLate (result : Except CallError Unit) : Prop :=
  ∃ operation, result = .error (.transport (.timeout operation))

namespace Handshake

/-- All that can be said of a handshake that is over. -/
structure Ends (path : String) (start : Framed Script) (answer : Except CallError Unit)
    (rest : Octets) (result : Except CallError Unit) (f : Framed Script) : Prop where
  answered : ¬ Dialing.IsLate result → result = answer ∧
    f.link.taken = start.link.taken ++ Tunnel.requestOctets path
  late : Dialing.IsLate result → start.inbound.patience.isSome ∨ start.outbound.patience.isSome
  agreed : result = .ok () → start.HandsOver rest f
  closed : ∀ error, result = .error error →
    f.link.shut = true ∧ f.link.readerGone = true ∧ f.link.writerGone = true

/-- The octets that went out are some of the request, and all of it if anything was
read. -/
def Asks (path : String) (start f : Framed Script) : Prop :=
  ∃ sent, f.link.taken = start.link.taken ++ sent ∧ sent <+: Tunnel.requestOctets path ∧
    (sent = Tunnel.requestOctets path ∨ start.SameInbound f)

end Handshake

namespace Course

variable {c : Course Script} {grants : Nat → Nat} {n : Nat} {result : Except CallError Unit}

theorem asks (h : c.Serves grants) (n : Nat) :
    Handshake.Asks c.path c.start (c.dial n).wire := by
  have hfollows := follows h n
  have hminds := c.minds n
  rw [← c.notes_unnoted]
  refine ⟨_, hfollows.taken, hminds.request, ?_⟩
  rcases hminds.unread with hflushed | ⟨hunread, hinbound⟩
  · exact .inl (hminds.whole hflushed)
  · exact .inr ⟨hinbound, hfollows.unread hunread⟩

/-- The whole stream is what was heard and what is left. -/
theorem stream_eq (h : c.Serves grants) (n : Nat) : c.start.unread [] =
    c.heard n ++ Incoming.octets (c.notes n).wire.link.link.incoming := by
  rw [Framed.unread, List.append_nil, (follows h n).octets, heard, List.append_assoc]
  rfl

/-- A complete answer is the answer in the whole stream. -/
theorem answers_of_decides (h : c.Serves grants) {verdict : Except CallError Unit} {rest : Octets}
    (hdecides : Decides (c.heard n) verdict rest) :
    Answers (c.start.unread []) verdict
      (rest ++ Incoming.octets (c.notes n).wire.link.link.incoming) := by
  rw [stream_eq h n]
  exact hdecides _

theorem handsOver_of_ok (h : c.Serves grants) (hresult : (c.dial n).result = some (.ok ()))
    {rest : Octets} (hanswer : ∀ left, Answers (c.start.unread []) (.ok ()) left → left = rest) :
    c.start.HandsOver rest (c.dial n).wire := by
  obtain ⟨-, hdecides, hinbound, houtbound⟩ := agreed_of_ok hresult
  have hends := (follows h n).ends
  have hleft := hanswer _ (answers_of_decides h hdecides)
  rw [← c.notes_unnoted]
  have hidle : (c.notes n).unnoted.wire.inbound.reading = none := by
    rw [show (c.notes n).unnoted.wire.inbound = _ from hinbound]
    exact c.fresh.reading
  have hlimit : (c.notes n).unnoted.wire.inbound.limit = c.start.inbound.limit := by
    rw [show (c.notes n).unnoted.wire.inbound = _ from hinbound]
  have hunread : (c.notes n).unnoted.wire.unread [] = rest := by
    rw [← hleft, Framed.unread, List.append_nil]
    rfl
  refine ⟨hinbound, houtbound, hunread, fun kinds clock hclock => ?_, fun deeds => ?_⟩
  · rw [← hunread, ← hlimit]
    exact Reader.exists_read_all hidle hends kinds hclock
  · obtain ⟨taken, htaken⟩ := History.unread_run hidle deeds
    refine ⟨taken, ?_⟩
    rw [← hunread, ← htaken [], List.append_nil]
    exact (Framed.unread_of_ended hends.ended _).symm

/-- A handshake that is over was told what the stream holds, or took too long. -/
theorem told_of_result (h : c.Serves grants) (hresult : (c.dial n).result = some result) :
    (∃ rest, Answers (c.start.unread []) result rest) ∧ .flush (.ok ()) ∈ c.contacts n ∨
      Dialing.IsLate result ∧
        (c.start.inbound.patience.isSome ∨ c.start.outbound.patience.isSome) := by
  obtain ⟨m, -, hover, hlast⟩ := exists_over hresult
  have hcontacts : c.contacts n = c.contacts (m + 1) := by rw [contacts, hlast, contacts]
  rw [hcontacts]
  cases hover with
  | decided hflushed hdecides => exact .inl ⟨⟨_, answers_of_decides h hdecides⟩, hflushed⟩
  | faulty hasks hfault hheard =>
      have hmem := mem_contacts hasks
      cases hfault with
      | broken hbreaks =>
          exact absurd hbreaks (((follows h (m + 1)).served _ hmem).not_breaks _)
      | @late _ operation hlate =>
          refine .inr ⟨⟨operation, rfl⟩, ?_⟩
          cases hlate with
          | send hpatience => exact .inr (by rw [hpatience]; rfl)
          | receive _ hpatience => exact .inl (by rw [hpatience]; rfl)
      | ended hanswers =>
          have hflushed : .flush (.ok ()) ∈ c.contacts (m + 1) :=
            (c.minds (m + 1)).unread.resolve_right fun hunread => hunread.1 _ hmem _ rfl
          have hstream := stream_eq h (m + 1)
          rw [(follows h (m + 1)).ended hmem, hheard, List.append_nil] at hstream
          exact .inl ⟨⟨_, hstream ▸ hanswers⟩, hflushed⟩

theorem ends (h : c.Serves grants) (hresult : (c.dial n).result = some result)
    {answer : Except CallError Unit} {rest : Octets}
    (hanswer : ∀ verdict left, Answers (c.start.unread []) verdict left ↔
      verdict = answer ∧ left = rest) :
    Handshake.Ends c.path c.start answer rest result (c.dial n).wire := by
  have hfollows := follows h n
  have htold := told_of_result h hresult
  refine ⟨fun hintime => ?_, ?_, ?_, ?_⟩
  · rcases htold with ⟨⟨left, hanswers⟩, hflushed⟩ | ⟨hlate, -⟩
    · refine ⟨((hanswer _ _).mp hanswers).1, ?_⟩
      rw [← c.notes_unnoted, ← (c.minds n).whole hflushed]
      exact hfollows.taken
    · exact absurd hlate hintime
  · rintro ⟨operation, rfl⟩
    rcases htold with ⟨⟨left, hanswers⟩, -⟩ | ⟨-, hpatience⟩
    · exact absurd rfl (hanswers.not_timeout operation)
    · exact hpatience
  · rintro rfl
    exact handsOver_of_ok h hresult fun left hanswers => ((hanswer _ _).mp hanswers).2
  · rintro error rfl
    obtain ⟨⟨talk, closing, hcontacts, hcloses, -⟩, -⟩ := refused_of_error hresult
    obtain ⟨shut, others, rfl, hreader, hwriter, -⟩ := hcloses
    rw [← c.notes_unnoted]
    have hmem {contact : Contact} (hclosing : contact ∈ .shut shut :: others) :
        contact ∈ c.contacts n := hcontacts ▸ List.mem_append_right _ hclosing
    exact ⟨hfollows.shut shut (hmem List.mem_cons_self),
      hfollows.readerGone (hmem (List.mem_cons_of_mem _ hreader)),
      hfollows.writerGone (hmem (List.mem_cons_of_mem _ hwriter))⟩

end Course

/-- However the answer is cut into pieces, with whatever silences in between,
whenever the attempts are made and however much is taken at a time: the octets of
the request go out and nothing else, and nothing is read before they all did. The
handshake is over some time, and if nothing took too long it was told what the
rules say of the stream; it agrees where the stream is of the right form. If it
agrees, the stream goes on behind the answer for whoever has the connection next,
and otherwise the connection is closed. -/
theorem Dialing.answered_run (path : String) (start : Framed Script) (clock grants : Nat → Nat)
    (hfresh : start.IsFresh) (hends : Incoming.EndsWell start.link.incoming)
    (htakes : start.link.TakesAll grants (Tunnel.requestOctets path).length)
    (hclock : ∀ time, ∃ n, ∀ m ≥ n, time ≤ clock m) :
    ∃ answer rest,
      (∀ verdict left, Answers (start.unread []) verdict left ↔
        verdict = answer ∧ left = rest) ∧
      (∀ left, Tunnel.Agrees (start.unread []) left ↔ .ok () = answer ∧ left = rest) ∧
      (∀ n, Handshake.Asks path start
        (run clock (Script.grant ∘ grants) { path, wire := start } n).wire) ∧
      ∃ n result, ∀ m ≥ n, ∀ d, d = run clock (Script.grant ∘ grants) { path, wire := start } m →
        d.result = some result ∧ Handshake.Ends path start answer rest result d.wire := by
  obtain ⟨answer, rest, hanswers⟩ := Tunnel.exists_answers (start.unread [])
  have hanswer (verdict : Except CallError Unit) (left : Octets) :
      Answers (start.unread []) verdict left ↔ verdict = answer ∧ left = rest := by
    constructor
    · intro hother
      exact hother.unique hanswers
    · rintro ⟨rfl, rfl⟩
      exact hanswers
  let c : Course Script := ⟨path, start, hfresh, clock, Script.grant ∘ grants⟩
  have hserves : c.Serves grants := ⟨fun _ => rfl, htakes, hends⟩
  refine ⟨answer, rest, hanswer, fun left => Tunnel.answers_ok_iff.symm.trans (hanswer _ _),
    fun n => Course.asks hserves n, ?_⟩
  obtain ⟨n, result, hresult⟩ := Course.exists_result hserves hclock
  refine ⟨n, result, ?_⟩
  rintro m hm _ rfl
  have hended : (c.dial m).result = some result := by
    rw [← hresult]
    exact congrArg Dialing.result (run_of_result hresult hm)
  exact ⟨hended, Course.ends hserves hended hanswer⟩

namespace Dialing

/-- An answer in three pieces with a silence between them, over a connection that
takes one octet at a time. Its last piece holds the end of a header line, the
empty line and the beginning of a frame. -/
def piecemeal : Framed Script :=
  { link :=
      { credit := some 0
        incoming := [.data "HTTP/1.0 200 Conn".toByteArray.octets, .wait 5,
          .data "ected to Go RPC\r\nServer: a\r".toByteArray.octets,
          .data ("\n\r\n".toByteArray.octets ++ [0, 0, 0, 2, 7]), .ended] } }

theorem agrees_piecemeal : Tunnel.Agrees (piecemeal.unread []) [0, 0, 0, 2, 7] := by
  refine ⟨"HTTP/1.0 200 Connected to Go RPC\r".toByteArray.octets,
    ["Server: a\r".toByteArray.octets], "\r".toByteArray.octets, by decide, ?_, ?_, ?_⟩
  · exact ⟨"HTTP/1.0 200 Connected to Go RPC", ⟨by decide, by decide, by decide⟩,
      .agrees "HTTP/1.0" "200 Connected to Go RPC" (by decide) (by decide)
        (Text.trim_eq_iff.mp (by decide))⟩
  · intro line hline
    obtain rfl := List.mem_singleton.mp hline
    exact ⟨"Server: a", ⟨by decide, by decide, by decide⟩, by decide⟩
  · exact ⟨by decide, by decide, by decide⟩

theorem answered_piecemeal : ∃ n, ∀ m ≥ n, ∀ d,
    d = run id (fun _ => Script.grant 1) { path := Tunnel.defaultPath, wire := piecemeal } m →
      d.result = some (.ok ()) ∧ d.wire.unread [] = [0, 0, 0, 2, 7] ∧
        d.wire.link.taken = "CONNECT /_goRPC_ HTTP/1.0\n\n".toByteArray.octets := by
  have htakes : piecemeal.link.TakesAll (fun _ => 1)
      (Tunnel.requestOctets Tunnel.defaultPath).length := by
    refine ⟨⟨rfl, rfl⟩, ?_⟩
    intro credit hcredit
    obtain rfl := Option.some.inj hcredit
    exact ⟨27, by decide⟩
  obtain ⟨answer, rest, -, hagrees, -, n, result, hends⟩ :=
    answered_run Tunnel.defaultPath piecemeal id (fun _ => 1) ⟨rfl, rfl, rfl, rfl, rfl⟩
      ⟨by simp [piecemeal], by simp [piecemeal]⟩ htakes (fun time => ⟨time, fun m hm => hm⟩)
  obtain ⟨rfl, rfl⟩ := (hagrees _).mp agrees_piecemeal
  refine ⟨n, ?_⟩
  rintro m hm _ rfl
  obtain ⟨hresult, hover⟩ := hends m hm _ rfl
  -- Nothing here is patient, so nothing takes too long.
  have hintime : ¬ IsLate result := by
    intro hlate
    rcases hover.late hlate with hsome | hsome
    · cases hsome
    · cases hsome
  obtain ⟨rfl, htaken⟩ := hover.answered hintime
  exact ⟨hresult, (hover.agreed rfl).unread, htaken⟩

end Dialing

end Switchboard
