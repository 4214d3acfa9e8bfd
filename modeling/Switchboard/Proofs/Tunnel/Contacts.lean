import Mathlib
import Switchboard.Proofs.Frame.Attempts
import Switchboard.Tunnel

/-!
# Watching a connection

All that anybody learns of a connection is what they were answered when they asked
something of it. A connection that is `Noted` keeps a list of this and otherwise is
the connection that it was, and a handshake over it goes the way that it would have
gone without (`Course.notes_unnoted`). So what is said of the list is said of every
connection there can be. And what every request to a connection keeps, a handshake
keeps (`Dialing.exists_keeps_run`).
-/

namespace Switchboard

/-! ## Connections that behave alike -/

/-- One connection answers what the other answers, and goes on alike. -/
structure Link.Hom {L L' : Type} [Link L] [Link L'] (f : L → L') : Prop where
  read : ∀ side want now l,
    Link.read side want now (f l) = (Link.read side want now l).map id f
  write : ∀ side octets l, Link.write side octets (f l) = (Link.write side octets l).map id f
  flush : ∀ side l, Link.flush side (f l) = (Link.flush side l).map id f
  shut : ∀ side l, Link.shut side (f l) = (Link.shut side l).map id f
  dropReader : ∀ side l, Link.dropReader side (f l) = f (Link.dropReader side l)
  dropWriter : ∀ side l, Link.dropWriter side (f l) = f (Link.dropWriter side l)

section Map

variable {L L' : Type} [Link L] [Link L'] {f : L → L'}

namespace Outbound

/-- The outcome of an attempt, over another connection. -/
def along (f : L → L') :
    Poll (Except LinkError Unit) × Outbound × L → Poll (Except LinkError Unit) × Outbound × L' :=
  Prod.map id (Prod.map id f)

variable (hf : Link.Hom f) (side : Side) (now : Nat) (w : Writing) (o : Outbound) (link : L)

include hf

theorem writeOut_map : o.writeOut side now w (f link) = along f (o.writeOut side now w link) := by
  unfold writeOut
  rw [hf.write]
  rcases Link.write side (o.buffer.drop o.written) link with ⟨(_ | count) | error | _, link'⟩
  · rfl
  · rfl
  · rfl
  · rfl

theorem writeDirect_map (rest : Octets) (acts : List Act) :
    o.writeDirect side now w rest acts (f link) =
      along f (o.writeDirect side now w rest acts link) := by
  unfold writeDirect
  rw [hf.write]
  rcases Link.write side rest link with ⟨(_ | count) | error | _, link'⟩
  · rfl
  · rfl
  · rfl
  · rfl

theorem add_map (size : Nat) (rest : Unit → Octets) (acts : List Act) :
    o.add side now w size rest acts (f link) = along f (o.add side now w size rest acts link) := by
  unfold add
  split
  · rfl
  · split
    · exact writeDirect_map hf side now w o link (rest ()) acts
    · exact writeOut_map hf side now w o link

theorem step_map : o.step side now (f link) = along f (o.step side now link) := by
  unfold step
  cases o.writing with
  | none => rfl
  | some w =>
      dsimp only
      split
      · split
        · rfl
        · split <;> rfl
      · rfl
      · exact add_map hf side now w o link _ _ _
      · split
        · rfl
        · exact add_map hf side now w o link _ _ _
      · split
        · rw [hf.flush]
          rcases Link.flush side link with ⟨error | _, link'⟩ <;> rfl
        · exact writeOut_map hf side now w o link
      · split
        · rw [hf.shut]
          rcases Link.shut side link with ⟨error | _, link'⟩ <;> rfl
        · exact writeOut_map hf side now w o link

theorem abort_map : o.abort side (f link) = Prod.map id (Prod.map id f) (o.abort side link) := by
  unfold abort
  split
  · rfl
  · rw [hf.shut]
    rcases Link.shut side link with ⟨result, link'⟩
    simp [hf.dropWriter]

end Outbound

theorem Inbound.step_map (hf : Link.Hom f) (side : Side) (now : Nat) (i : Inbound) (link : L) :
    i.step side now (f link) = Prod.map id (Prod.map id f) (i.step side now link) := by
  unfold step
  cases i.reading with
  | none => rfl
  | some r =>
      dsimp only
      split
      · rfl
      · rw [hf.read]
        rcases Link.read side r.progress.want now link with ⟨octets | _ | error | _, link'⟩
        · rfl
        · rfl
        · dsimp only [Prod.map, id]
          split <;> rfl
        · dsimp only [Prod.map, id]
          split <;> rfl

/-- One end with another connection in the place of its own. -/
def Framed.map (f : L → L') (wire : Framed L) : Framed L' :=
  ⟨f wire.link, wire.inbound, wire.outbound⟩

namespace Handshake

/-- A handshake over another connection. -/
def map (f : L → L') (h : Handshake L) : Handshake L' := ⟨h.path, h.wire.map f, h.phase, h.events⟩

variable (hf : Link.Hom f) (h : Handshake L)

include hf

theorem fail_map (error : CallError) : (h.map f).fail error = (h.fail error).map id (map f) := by
  obtain ⟨path, ⟨link, inbound, outbound⟩, phase, events⟩ := h
  simp only [fail, map, Framed.map, Outbound.abort_map hf]
  rcases outbound.abort .near link with ⟨error | _, outbound', link'⟩
  · simp only [Prod.map, id, Framed.dropReader, Framed.dropWriter, hf.dropReader, hf.dropWriter]
    rfl
  · simp only [Prod.map, id, Framed.dropReader, Framed.dropWriter, hf.dropReader, hf.dropWriter]
    rfl

theorem step_map (now : Nat) : (h.map f).step now = (h.step now).map id (map f) := by
  obtain ⟨path, ⟨link, inbound, outbound⟩, phase, events⟩ := h
  have hreading (phase : HandshakePhase) (hphase : phase = .status ∨ phase = .headers) :
      step now (map f ⟨path, ⟨link, inbound, outbound⟩, phase, events⟩) =
        (step now ⟨path, ⟨link, inbound, outbound⟩, phase, events⟩).map id (map f) := by
    have hstep := Inbound.step_map hf .near now inbound link
    rcases hphase with rfl | rfl
    all_goals
      simp only [step, map, Framed.map, hstep]
      rcases inbound.step .near now link with ⟨_ | _ | error | _ | _ | line, inbound', link'⟩
      · rfl
      · rfl
      · exact fail_map hf ⟨path, ⟨link', inbound', outbound⟩, _, events⟩ (.ofLink error)
      · exact fail_map hf ⟨path, ⟨link', inbound', outbound⟩, _, events⟩ .eof
      · exact fail_map hf ⟨path, ⟨link', inbound', outbound⟩, _, events⟩ .eof
      · dsimp only [Prod.map, id]
        split
        · split
          · rfl
          · exact fail_map hf ⟨path, ⟨link', inbound', outbound⟩, _, events⟩ _
        · split <;> rfl
  cases phase with
  | start =>
      simp only [step, map, Framed.map, log]
      cases outbound.start (.raw (Tunnel.request path).toByteArray.octets) with
      | ok outbound' => rfl
      | error error => exact fail_map hf ⟨path, ⟨link, inbound, outbound⟩, .start, _⟩ _
  | sending =>
      simp only [step, map, Framed.map, Outbound.step_map hf]
      rcases outbound.step .near now link with ⟨_ | _ | error | _, outbound', link'⟩
      · rfl
      · rfl
      · exact fail_map hf ⟨path, ⟨link', inbound, outbound'⟩, .sending, events⟩ (.ofLink error)
      · rfl
  | status => exact hreading .status (.inl rfl)
  | headers => exact hreading .headers (.inr rfl)

end Handshake

end Map

/-! ## The parts of an attempt -/

namespace Handshake

variable {L : Type}

/-- The request is out, and the handshake waits for an answer. -/
def Awaits (h : Handshake L) : Prop := h.phase = .status ∨ h.phase = .headers

/-- The handshake after an attempt to write. -/
def wrote (outbound : Outbound) (link : L) (h : Handshake L) : Handshake L :=
  { h with wire := { h.wire with outbound, link } }

/-- The handshake after an attempt to read. -/
def read (inbound : Inbound) (link : L) (h : Handshake L) : Handshake L :=
  { h with wire := { h.wire with inbound, link } }

variable [Link L]

/-- What a handshake makes of an attempt to write. -/
def proceed (now : Nat) (h : Handshake L) :
    Poll (Except LinkError Unit) → Poll (Except CallError Unit) × Handshake L
  | .again => (.again, h)
  | .blocked => (.blocked, h)
  | .done (.ok ()) => h.awaitLine .status now
  | .done (.error error) => h.fail (.ofLink error)

/-- What a handshake makes of a line. -/
def takeLine (now : Nat) (text : String) (h : Handshake L) :
    Poll (Except CallError Unit) × Handshake L :=
  if h.phase = .status then
    match Tunnel.judge text with
    | .ok () => h.awaitLine .headers now
    | .error error => h.fail error
  else if text.isEmpty then (.done (.ok ()), h.log (.tunnelEstablished h.path))
  else h.awaitLine .headers now

/-- What a handshake makes of an attempt to read. -/
def resume (now : Nat) (h : Handshake L) :
    Poll (Except LinkError Received) → Poll (Except CallError Unit) × Handshake L
  | .again => (.again, h)
  | .blocked => (.blocked, h)
  | .done (.error error) => h.fail (.ofLink error)
  | .done (.ok (.line text)) => h.takeLine now text
  | .done (.ok _) => h.fail .eof

variable {h : Handshake L}

theorem step_sending (hphase : h.phase = .sending) (now : Nat) :
    h.step now = proceed now
      (h.wrote (h.wire.outbound.step .near now h.wire.link).2.1
        (h.wire.outbound.step .near now h.wire.link).2.2)
      (h.wire.outbound.step .near now h.wire.link).1 := by
  obtain ⟨path, wire, phase, events⟩ := h
  obtain rfl : phase = .sending := hphase
  rfl

theorem step_awaits (hawaits : h.Awaits) (now : Nat) :
    h.step now = resume now
      (h.read (h.wire.inbound.step .near now h.wire.link).2.1
        (h.wire.inbound.step .near now h.wire.link).2.2)
      (h.wire.inbound.step .near now h.wire.link).1 := by
  obtain ⟨path, wire, phase, events⟩ := h
  obtain rfl | rfl : phase = .status ∨ phase = .headers := hawaits
  · rfl
  · rfl

end Handshake

/-! ## What every request keeps -/

/-- A property of a connection that no request of the near end changes. -/
structure Link.Keeps {L : Type} [Link L] (now : Nat) (P : L → Prop) : Prop where
  read : ∀ want, 0 < want → ∀ l, P l → P (Link.read .near want now l).2
  write : ∀ octets l, P l → P (Link.write .near octets l).2
  flush : ∀ l, P l → P (Link.flush .near l).2
  shut : ∀ l, P l → P (Link.shut .near l).2
  dropReader : ∀ l, P l → P (Link.dropReader .near l)
  dropWriter : ∀ l, P l → P (Link.dropWriter .near l)

section Keeps

variable {L : Type} [Link L] {now : Nat} {P : L → Prop}

theorem Outbound.keeps (hkeeps : Link.Keeps now P) (o : Outbound) {link : L} (hlink : P link) :
    P (o.step .near now link).2.2 := by
  cases hw : o.writing with
  | none => rwa [step_idle .near now hw]
  | some w =>
      exact (step_cases .near now hw link).keeps hlink (fun octets => hkeeps.write octets link hlink)
        (hkeeps.flush link hlink) (hkeeps.shut link hlink)

theorem Inbound.keeps (hkeeps : Link.Keeps now P) (i : Inbound) {link : L} (hlink : P link) :
    P (i.step .near now link).2.2 := by
  cases hreading : i.reading with
  | none => rwa [step_idle .near now hreading]
  | some r =>
      exact (step_cases .near now hreading link).keeps hlink fun want hwant =>
        hkeeps.read want hwant link hlink

namespace Handshake

variable (hkeeps : Link.Keeps now P)

include hkeeps

theorem keeps_fail (error : CallError) {h : Handshake L} (hlink : P h.wire.link) :
    P (h.fail error).2.wire.link := by
  have haborted : P (h.wire.outbound.abort .near h.wire.link).2.2 := by
    unfold Outbound.abort
    split
    · exact hlink
    · exact hkeeps.dropWriter _ (hkeeps.shut _ hlink)
  have hdropped := hkeeps.dropWriter _ (hkeeps.dropReader _ haborted)
  unfold fail
  dsimp only
  split <;> exact hdropped

theorem keeps_proceed (poll : Poll (Except LinkError Unit)) {h : Handshake L}
    (hlink : P h.wire.link) : P (h.proceed now poll).2.wire.link := by
  rcases poll with _ | _ | error | _
  · exact hlink
  · exact hlink
  · exact keeps_fail hkeeps _ hlink
  · exact hlink

theorem keeps_takeLine (text : String) {h : Handshake L} (hlink : P h.wire.link) :
    P (h.takeLine now text).2.wire.link := by
  unfold takeLine
  by_cases hphase : h.phase = .status
  · rw [if_pos hphase]
    split
    · exact hlink
    · exact keeps_fail hkeeps _ hlink
  · rw [if_neg hphase]
    split <;> exact hlink

theorem keeps_resume (poll : Poll (Except LinkError Received)) {h : Handshake L}
    (hlink : P h.wire.link) : P (h.resume now poll).2.wire.link := by
  rcases poll with _ | _ | error | _ | _ | text
  · exact hlink
  · exact hlink
  · exact keeps_fail hkeeps _ hlink
  · exact keeps_fail hkeeps _ hlink
  · exact keeps_fail hkeeps _ hlink
  · exact keeps_takeLine hkeeps text hlink

theorem keeps_step {h : Handshake L} (hlink : P h.wire.link) : P (h.step now).2.wire.link := by
  have hawaits (hawaits : h.Awaits) : P (h.step now).2.wire.link := by
    rw [step_awaits hawaits]
    exact keeps_resume hkeeps _ (Inbound.keeps hkeeps h.wire.inbound hlink)
  cases hphase : h.phase with
  | start =>
      simp only [step, hphase]
      split
      · exact hlink
      · exact keeps_fail hkeeps _ hlink
  | sending =>
      rw [step_sending hphase]
      exact keeps_proceed hkeeps _ (Outbound.keeps hkeeps h.wire.outbound hlink)
  | status => exact hawaits (.inl hphase)
  | headers => exact hawaits (.inr hphase)

end Handshake

end Keeps

/-! ## Trying until it is over -/

/-- A handshake that is tried until it is over. -/
structure Dialing (L : Type) where
  handshake : Handshake L
  result : Option (Except CallError Unit) := none

namespace Dialing

variable {L : Type} [Link L]

def wire (d : Dialing L) : Framed L := d.handshake.wire

/-- A handshake goes on after a step, or it is over. -/
def after : Poll (Except CallError Unit) × Handshake L → Dialing L
  | (.done result, handshake) => { handshake, result := some result }
  | (.again, handshake) | (.blocked, handshake) => { handshake }

/-- The handshake after something has happened to its connection. -/
def ready (act : L → L) (d : Dialing L) : Handshake L :=
  { d.handshake with wire.link := act d.handshake.wire.link }

/-- One attempt to get on, after something has happened to the connection. -/
def attempt (now : Nat) (act : L → L) (d : Dialing L) : Dialing L :=
  match d.result with
  | some _ => d
  | none => after ((d.ready act).step now)

/-- So many attempts, made at the times that the clock shows. -/
def run (clock : Nat → Nat) (acts : Nat → L → L) (h : Handshake L) : Nat → Dialing L
  | 0 => { handshake := h }
  | n + 1 => (run clock acts h n).attempt (clock n) (acts n)

omit [Link L] in
@[simp] theorem wire_after (step : Poll (Except CallError Unit) × Handshake L) :
    (after step).wire = step.2.wire := by
  obtain ⟨poll, h⟩ := step
  cases poll <;> rfl

theorem attempt_of_none {d : Dialing L} (h : d.result = none) (now : Nat) (act : L → L) :
    d.attempt now act = after ((d.ready act).step now) := by
  simp only [attempt, h]

section Run

variable {clock : Nat → Nat} {acts : Nat → L → L} {h : Handshake L} {n : Nat}

/-- What is over stays as it is. -/
theorem run_of_result {result : Except CallError Unit}
    (hresult : (run clock acts h n).result = some result) {m : Nat} (hm : n ≤ m) :
    run clock acts h m = run clock acts h n := by
  induction m, hm using Nat.le_induction with
  | base => rfl
  | succ m _ ih =>
      rw [run, ih]
      simp only [attempt, hresult]

theorem result_of_le {m : Nat} (hm : m ≤ n) (hgoing : (run clock acts h n).result = none) :
    (run clock acts h m).result = none := by
  cases hresult : (run clock acts h m).result with
  | none => rfl
  | some result =>
      rw [run_of_result hresult hm, hresult] at hgoing
      cases hgoing

/-- What every request keeps, and whatever happens to the connection by itself carries over
from attempt to attempt, holds as long as there are attempts. -/
theorem exists_keeps_run {P : Nat → L → Prop} (hkeeps : ∀ n, Link.Keeps (clock n) (P (n + 1)))
    (hacts : ∀ n link, P n link → P (n + 1) (acts n link)) (hbegin : P 0 h.wire.link) (n : Nat) :
    ∃ m, P m (run clock acts h n).wire.link ∧ ((run clock acts h n).result = none → m = n) := by
  induction n with
  | zero => exact ⟨0, hbegin, fun _ => rfl⟩
  | succ n ih =>
      obtain ⟨m, hlink, hm⟩ := ih
      cases hresult : (run clock acts h n).result with
      | some result =>
          refine ⟨m, ?_, fun hgoing => ?_⟩
          · rw [run_of_result hresult (Nat.le_succ n)]
            exact hlink
          · rw [run_of_result hresult (Nat.le_succ n), hresult] at hgoing
            cases hgoing
      | none =>
          obtain rfl := hm hresult
          refine ⟨m + 1, ?_, fun _ => rfl⟩
          rw [run, attempt_of_none hresult, wire_after]
          exact Handshake.keeps_step (hkeeps m) (hacts m _ hlink)

end Run

end Dialing

/-! ## Taking notes -/

/-- Something that was asked of a connection, and the answer. -/
inductive Contact where
  | read (arrival : Arrival)
  | write (octets : Octets) (acceptance : Acceptance)
  | flush (result : Except IoError Unit)
  | shut (result : Except IoError Unit)
  | dropReader
  | dropWriter

namespace Contact

/-- What was taken of what was offered. -/
def sent : Contact → Octets
  | .write octets (.accepted count) => octets.take count
  | _ => []

/-- What came of a read. -/
def heard : Contact → Octets
  | .read (.data octets) => octets
  | _ => []

end Contact

/-- All octets that were taken. -/
def sentIn (contacts : List Contact) : Octets := contacts.flatMap Contact.sent

/-- All octets that were read. -/
def heardIn (contacts : List Contact) : Octets := contacts.flatMap Contact.heard

theorem sentIn_append (contacts more : List Contact) :
    sentIn (contacts ++ more) = sentIn contacts ++ sentIn more := List.flatMap_append

theorem heardIn_append (contacts more : List Contact) :
    heardIn (contacts ++ more) = heardIn contacts ++ heardIn more := List.flatMap_append

theorem heardIn_extend {contacts more : List Contact} (h : contacts <+: more) :
    heardIn contacts <+: heardIn more := by
  obtain ⟨others, rfl⟩ := h
  rw [heardIn_append]
  exact List.prefix_append ..

@[simp] theorem sentIn_singleton (c : Contact) : sentIn [c] = c.sent := List.flatMap_singleton ..

@[simp] theorem heardIn_singleton (c : Contact) : heardIn [c] = c.heard :=
  List.flatMap_singleton ..

/-- What is said of a connection that takes nothing though it could. Octets that
would fill the buffer do not go through it. -/
def nothingTaken (offered : Octets) : IoError :=
  ⟨.writeZero, if offered.length < bufferSize then "failed to write the buffered data"
    else "write zero"⟩

namespace Contact

/-- Octets were offered, or the connection was asked to flush them. -/
inductive IsOutgoing : Contact → Prop where
  | write (octets : Octets) (acceptance : Acceptance) : IsOutgoing (.write octets acceptance)
  | flush (result : Except IoError Unit) : IsOutgoing (.flush result)

/-- Octets were taken, or flushed. -/
inductive Gains : Contact → Prop where
  | taken (octets : Octets) (count : Nat) : Gains (.write octets (.accepted (count + 1)))
  | flushed : Gains (.flush (.ok ()))

/-- Nothing came of it for now. -/
inductive Waits : Contact → Prop where
  | notTaken (octets : Octets) : Waits (.write octets .nothing)
  | noData : Waits (.read .nothing)
  | interrupted (error : IoError) (hkind : error.kind = .interrupted) :
      Waits (.read (.failed error))

/-- The connection failed, or it took nothing as if that were a success. -/
inductive Breaks : Contact → IoError → Prop where
  | write (octets : Octets) (error : IoError) : Breaks (.write octets (.failed error)) error
  | nothingTaken (octets : Octets) : Breaks (.write octets (.accepted 0)) (nothingTaken octets)
  | flush (error : IoError) : Breaks (.flush (.error error)) error
  | read (error : IoError) (hkind : error.kind ≠ .interrupted) :
      Breaks (.read (.failed error)) error

variable {contact : Contact} {error error' : IoError}

theorem Breaks.unique (h : contact.Breaks error) (h' : contact.Breaks error') : error = error' := by
  cases h <;> cases h' <;> rfl

/-- An attempt to write that fails has broken the connection; `text` is what is said where
nothing is taken. -/
theorem breaks_of_failsWith {octets : Octets} {acceptance : Acceptance} {text : String}
    (h : acceptance.FailsWith text error)
    (htext : (⟨.writeZero, text⟩ : IoError) = Switchboard.nothingTaken octets) :
    Breaks (.write octets acceptance) error := by
  cases h with
  | failed error => exact .write octets error
  | nothingTaken =>
      rw [htext]
      exact .nothingTaken octets

theorem IsOutgoing.not_read (h : contact.IsOutgoing) (arrival : Arrival) :
    contact ≠ .read arrival := by
  cases h <;> simp

theorem IsOutgoing.heard (h : contact.IsOutgoing) : contact.heard = [] := by
  cases h <;> rfl

end Contact

theorem heardIn_outgoing {contacts : List Contact} (h : ∀ c ∈ contacts, c.IsOutgoing) :
    heardIn contacts = [] :=
  List.flatMap_eq_nil_iff.mpr fun c hc => (h c hc).heard

/-- A connection, and what was asked of it, oldest first. -/
structure Noted (L : Type) where
  link : L
  contacts : List Contact := []

namespace Noted

variable {L : Type}

/-- The connection after one more contact. -/
def note (contact : Contact) (link : L) (l : Noted L) : Noted L :=
  ⟨link, l.contacts ++ [contact]⟩

/-- What happens to a connection by itself is not noted. -/
def outside (act : L → L) (l : Noted L) : Noted L := { l with link := act l.link }

variable [Link L]

instance : Link (Noted L) where
  read side want now l :=
    let (arrival, link) := Link.read side want now l.link
    (arrival, l.note (.read arrival) link)
  write side octets l :=
    let (acceptance, link) := Link.write side octets l.link
    (acceptance, l.note (.write octets acceptance) link)
  flush side l :=
    let (result, link) := Link.flush side l.link
    (result, l.note (.flush result) link)
  shut side l :=
    let (result, link) := Link.shut side l.link
    (result, l.note (.shut result) link)
  dropReader side l := l.note .dropReader (Link.dropReader side l.link)
  dropWriter side l := l.note .dropWriter (Link.dropWriter side l.link)
  readable side now l := Link.readable side now l.link
  writable side l := Link.writable side l.link
  alarm l := Link.alarm l.link

/-- Taking notes changes nothing. -/
theorem hom_link : Link.Hom (Noted.link : Noted L → L) where
  read _ _ _ _ := rfl
  write _ _ _ := rfl
  flush _ _ := rfl
  shut _ _ := rfl
  dropReader _ _ := rfl
  dropWriter _ _ := rfl

variable {side : Side} {l l' : Noted L}

theorem contacts_of_write {octets : Octets} {acceptance : Acceptance}
    (h : Link.write side octets l = (acceptance, l')) :
    l'.contacts = l.contacts ++ [.write octets acceptance] := by
  obtain ⟨rfl, rfl⟩ := Prod.mk.inj h
  rfl

theorem contacts_of_read {want now : Nat} {arrival : Arrival}
    (h : Link.read side want now l = (arrival, l')) :
    l'.contacts = l.contacts ++ [.read arrival] := by
  obtain ⟨rfl, rfl⟩ := Prod.mk.inj h
  rfl

theorem contacts_of_settles {result : Except IoError Unit}
    (h : Act.flush.Settles side l result l') : l'.contacts = l.contacts ++ [.flush result] := by
  cases h with
  | flush h =>
      obtain ⟨rfl, rfl⟩ := Prod.mk.inj h
      rfl

/-- The connection was asked for this, which left it like that. -/
inductive Replies (now : Nat) (link : L) : Contact → L → Prop where
  | read {want : Nat} (hwant : 0 < want) :
      Replies now link (.read (Link.read .near want now link).1) (Link.read .near want now link).2
  | write (octets : Octets) :
      Replies now link (.write octets (Link.write .near octets link).1)
        (Link.write .near octets link).2
  | flush : Replies now link (.flush (Link.flush .near link).1) (Link.flush .near link).2
  | shut : Replies now link (.shut (Link.shut .near link).1) (Link.shut .near link).2
  | dropReader : Replies now link .dropReader (Link.dropReader .near link)
  | dropWriter : Replies now link .dropWriter (Link.dropWriter .near link)

theorem Replies.of_write {now : Nat} {link link' : L} {octets : Octets} {acceptance : Acceptance}
    (h : Replies now link (.write octets acceptance) link') :
    Link.write .near octets link = (acceptance, link') := by
  cases h
  rfl

theorem Replies.of_read {now : Nat} {link link' : L} {arrival : Arrival}
    (h : Replies now link (.read arrival) link') :
    ∃ want, 0 < want ∧ Link.read .near want now link = (arrival, link') := by
  cases h with
  | read hwant => exact ⟨_, hwant, rfl⟩

/-- Requests keep what every contact keeps. -/
theorem keeps_of_replies {now : Nat} {P : Noted L → Prop}
    (h : ∀ l contact link', P l → Replies now l.link contact link' → P (l.note contact link')) :
    Link.Keeps now P where
  read _ hwant l hl := h l _ _ hl (.read hwant)
  write octets l hl := h l _ _ hl (.write octets)
  flush l hl := h l _ _ hl .flush
  shut l hl := h l _ _ hl .shut
  dropReader l hl := h l _ _ hl .dropReader
  dropWriter l hl := h l _ _ hl .dropWriter

/-- There may be more contacts, and if it is one more then this is what was replied. -/
structure Leads (now : Nat) (l l' : Noted L) : Prop where
  earlier : l.contacts <+: l'.contacts
  same : l'.contacts = l.contacts → l'.link = l.link
  replies : ∀ contact, l'.contacts = l.contacts ++ [contact] → Replies now l.link contact l'.link

theorem Leads.next {now : Nat} {contact : Contact} {link' : L} (h : l.Leads now l')
    (hreplies : Replies now l'.link contact link') : l.Leads now (l'.note contact link') := by
  refine ⟨h.earlier.trans (List.prefix_append ..), fun hcontacts => ?_, fun other hcontacts => ?_⟩
  · have hlength := congrArg List.length hcontacts
    have hle := h.earlier.length_le
    simp only [note, List.length_append, List.length_singleton] at hlength
    omega
  · obtain ⟨hsame, hlast⟩ := List.append_inj' hcontacts rfl
    obtain rfl : contact = other := List.singleton_injective hlast
    rw [← h.same hsame]
    exact hreplies

end Noted

/-- What one contact in a step of a handshake has left of the connection. -/
theorem Handshake.replies_of_step {L : Type} [Link L] {now : Nat} {h : Handshake (Noted L)}
    {contact : Contact}
    (hcontacts : (h.step now).2.wire.link.contacts = h.wire.link.contacts ++ [contact]) :
    Noted.Replies now h.wire.link.link contact (h.step now).2.wire.link.link := by
  have hkeeps : Link.Keeps now (h.wire.link.Leads now) :=
    Noted.keeps_of_replies fun l contact link' hl hreplies => hl.next hreplies
  have hleads : h.wire.link.Leads now h.wire.link := by
    refine ⟨List.prefix_refl _, fun _ => rfl, fun contact hone => ?_⟩
    simp at hone
  exact (keeps_step hkeeps hleads).replies contact hcontacts

namespace Dialing

variable {L : Type} [Link L]

/-- Without the notes. -/
def unnoted (d : Dialing (Noted L)) : Dialing L := ⟨d.handshake.map Noted.link, d.result⟩

theorem attempt_unnoted (now : Nat) (act : L → L) (d : Dialing (Noted L)) :
    (d.attempt now (Noted.outside act)).unnoted = d.unnoted.attempt now act := by
  cases hresult : d.result with
  | some result =>
      have hover : d.unnoted.result = some result := hresult
      simp only [attempt, hresult, hover]
  | none =>
      have hgoing : d.unnoted.result = none := hresult
      have hready : d.unnoted.ready act = (d.ready (Noted.outside act)).map Noted.link := rfl
      rw [attempt_of_none hresult, attempt_of_none hgoing, hready,
        Handshake.step_map Noted.hom_link]
      rcases (d.ready (Noted.outside act)).step now with ⟨_ | _ | result, h'⟩
      · rfl
      · rfl
      · rfl

end Dialing

/-! ## A course -/

/-- Nothing is being read or written, and nothing waits to be written. -/
structure Framed.IsFresh {L : Type} (f : Framed L) : Prop where
  reading : f.inbound.reading = none
  writing : f.outbound.writing = none
  aborted : f.outbound.aborted = false
  buffer : f.outbound.buffer = []
  written : f.outbound.written = 0

/-- Everything on which a handshake depends: what to ask for, a connection with which
nothing is going on, when the attempts are made, and what happens to the connection before
each of them. -/
structure Course (L : Type) where
  path : String
  start : Framed L
  fresh : start.IsFresh
  clock : Nat → Nat
  acts : Nat → L → L

namespace Course

variable {L : Type} [Link L] (c : Course L)

/-- The handshake after so many attempts. -/
def dial (n : Nat) : Dialing L := .run c.clock c.acts { path := c.path, wire := c.start } n

/-- The same with notes of the connection. -/
def notes (n : Nat) : Dialing (Noted L) :=
  .run c.clock (fun n => Noted.outside (c.acts n))
    { path := c.path, wire := ⟨⟨c.start.link, []⟩, c.start.inbound, c.start.outbound⟩ } n

/-- What was asked of the connection in so many attempts, oldest first. -/
def contacts (n : Nat) : List Contact := (c.notes n).wire.link.contacts

/-- All that there was to read in so many attempts. -/
def heard (n : Nat) : Octets := c.start.inbound.buffer ++ heardIn (c.contacts n)

/-- The handshake when attempt `n` begins. -/
def before (n : Nat) : Handshake (Noted L) := (c.notes n).ready (Noted.outside (c.acts n))

/-- A handshake over a connection of which notes are taken goes as it goes without. -/
theorem notes_unnoted (n : Nat) : (c.notes n).unnoted = c.dial n := by
  induction n with
  | zero => rfl
  | succ n ih =>
      show ((c.notes n).attempt (c.clock n) (Noted.outside (c.acts n))).unnoted =
        (c.dial n).attempt (c.clock n) (c.acts n)
      rw [Dialing.attempt_unnoted, ih]

theorem result_notes (n : Nat) : (c.notes n).result = (c.dial n).result :=
  congrArg Dialing.result (c.notes_unnoted n)

variable {c} {n : Nat}

theorem notes_succ (h : (c.notes n).result = none) :
    c.notes (n + 1) = .after ((c.before n).step (c.clock n)) :=
  Dialing.attempt_of_none h _ _

end Course

end Switchboard
