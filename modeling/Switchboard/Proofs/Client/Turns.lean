import Switchboard.Proofs.Client.Traffic

/-!
# One request after the other

Writers take turns. Whoever has the lock and has found the client open has the
turn and keeps it until the writing is over, and only then can the next have it.
So the requests that were written, or were given up, follow each other in the
order of the lock (`dispatched`), and at most one is under way (`current`). What
one deed does to the turn is said here for every codec and every life, however
often the numbers of the calls have come round.
-/

namespace Switchboard

open Session (Deed Notice)

/-- A request and the arguments that go with it. -/
structure Parcel where
  request : Wire.Request
  args : Wire.Value

def Writer.parcel (w : Writer) : Parcel := ⟨w.request, w.args⟩

/-- What is to be written for a call. -/
def Pending.parcel (p : Pending) : Parcel := ⟨⟨p.call.method, p.call.seq.getD 0⟩, p.call.args⟩

/-! ## Who has the turn -/

/-- What is being written, for a lock that somebody may have. -/
def turnOf (writers : List Writer) : Option Party → Option Parcel
  | some (.writer seq) =>
      ((writers.find? (·.request.seq = seq)).filter (·.begun)).map (·.parcel)
  | some .closer | none => none

/-- Only who has the lock has begun to write. -/
def IsTidy (writers : List Writer) (holder : Option Party) : Prop :=
  ∀ w ∈ writers, w.begun = true → holder = some (.writer w.request.seq)

section Turn

variable {writers writers' : List Writer} {holder holder' : Option Party}

theorem turnOf_of_found {seq : UInt64} {w : Writer}
    (hfind : writers.find? (·.request.seq = seq) = some w) :
    turnOf writers (some (.writer seq)) = if w.begun then some w.parcel else none := by
  cases hbegun : w.begun <;> simp [turnOf, hfind, Option.filter, hbegun]

/-- If nobody has begun, nobody has the turn. -/
theorem turnOf_of_idle (h : ∀ w ∈ writers, w.begun = false) (holder : Option Party) :
    turnOf writers holder = none := by
  unfold turnOf
  split
  · rename_i seq
    cases hfind : writers.find? (·.request.seq = seq) with
    | none => rfl
    | some w => simp [Option.filter, h w (List.mem_of_find?_eq_some hfind)]
  · rfl
  · rfl

theorem isTidy_of_idle (h : ∀ w ∈ writers, w.begun = false) (holder : Option Party) :
    IsTidy writers holder := by
  intro w hw hbegun
  rw [h w hw] at hbegun
  cases hbegun

/-- With the lock in other hands than a writer's, nobody has begun. -/
theorem IsTidy.idle (h : IsTidy writers holder) (hholder : ∀ seq, holder ≠ some (.writer seq)) :
    ∀ w ∈ writers, w.begun = false := by
  intro w hw
  cases hbegun : w.begun with
  | false => rfl
  | true => exact absurd (h w hw hbegun) (hholder _)

/-- When a writer leaves, nobody is left who has begun. -/
theorem IsTidy.idle_of_leave {seq : UInt64} (h : IsTidy writers (some (.writer seq))) :
    ∀ w ∈ writers.filter (·.request.seq != seq), w.begun = false := by
  intro w hw
  obtain ⟨hmem, hother⟩ := List.mem_filter.mp hw
  cases hbegun : w.begun with
  | false => rfl
  | true =>
      have hsame := h w hmem hbegun
      simp only [Option.some.injEq, Party.writer.injEq] at hsame
      simp [hsame] at hother

/-- What is done to every writer with a number. -/
def amend (seq : UInt64) (f : Writer → Writer) (writers : List Writer) : List Writer :=
  writers.map fun w => if w.request.seq = seq then f w else w

theorem find_amend (seq : UInt64) {f : Writer → Writer}
    (hf : ∀ w, (f w).request = w.request) (writers : List Writer) (other : UInt64) :
    (amend seq f writers).find? (·.request.seq = other) =
      (writers.find? (·.request.seq = other)).map fun w =>
        if w.request.seq = seq then f w else w := by
  have hsame : ((fun w : Writer => decide (w.request.seq = other)) ∘ fun w =>
      if w.request.seq = seq then f w else w) = fun w => decide (w.request.seq = other) := by
    funext w
    by_cases hw : w.request.seq = seq <;> simp [hw, hf]
  rw [amend, List.find?_map, hsame]

theorem parcels_amend (seq : UInt64) {f : Writer → Writer}
    (hf : ∀ w, (f w).parcel = w.parcel) (writers : List Writer) :
    (amend seq f writers).map (·.parcel) = writers.map (·.parcel) := by
  rw [amend, List.map_map]
  refine List.map_congr_left fun w _ => ?_
  by_cases hw : w.request.seq = seq <;> simp [hw, hf]

/-- Somebody asks for the lock. -/
theorem turnOf_amend (seq : UInt64) (writers : List Writer) (holder : Option Party) :
    turnOf (amend seq ({ · with queued := true }) writers) holder = turnOf writers holder := by
  cases holder with
  | none => rfl
  | some p =>
      cases p with
      | closer => rfl
      | writer other =>
          simp only [turnOf]
          rw [find_amend seq (f := ({ · with queued := true })) (fun _ => rfl)]
          cases writers.find? (·.request.seq = other) with
          | none => rfl
          | some w => by_cases hw : w.request.seq = seq <;> cases hbegun : w.begun <;>
              simp [Option.filter, hw, hbegun, Writer.parcel]

theorem isTidy_amend (h : IsTidy writers holder) (seq : UInt64) :
    IsTidy (amend seq ({ · with queued := true }) writers) holder := by
  intro v hv hbegun
  obtain ⟨w, hw, rfl⟩ := List.mem_map.mp hv
  by_cases hseq : w.request.seq = seq
  · rw [if_pos hseq] at hbegun ⊢
    exact h w hw hbegun
  · rw [if_neg hseq] at hbegun ⊢
    exact h w hw hbegun

/-- The turn is where it was: whoever is new has not begun, and the lock is in the
same hands or nobody can have begun at all. -/
structure Bystands (more writers : List Writer) (holder : Option Party) (writers' : List Writer)
    (holder' : Option Party) : Prop where
  writers : writers' = writers ++ more
  fresh : ∀ w ∈ more, w.begun = false
  lock : holder' = holder ∨ ∀ seq, holder ≠ some (.writer seq)

namespace Bystands

variable {more : List Writer}

theorem same (writers : List Writer) (holder : Option Party) :
    Bystands [] writers holder writers holder :=
  ⟨(List.append_nil _).symm, by simp, .inl rfl⟩

/-- Nobody had begun, and nobody has. -/
theorem idle (h : Bystands more writers holder writers' holder') (htidy : IsTidy writers holder)
    (hholder : ∀ seq, holder ≠ some (.writer seq)) : ∀ w ∈ writers', w.begun = false := by
  intro w hw
  rw [h.writers] at hw
  rcases List.mem_append.mp hw with hold | hnew
  · exact htidy.idle hholder w hold
  · exact h.fresh w hnew

theorem turnOf_eq (h : Bystands more writers holder writers' holder')
    (htidy : IsTidy writers holder) : turnOf writers' holder' = turnOf writers holder := by
  rcases h.lock with rfl | hholder
  · rw [h.writers]
    unfold turnOf
    split
    · rename_i seq
      rw [List.find?_append]
      cases hfind : writers.find? (·.request.seq = seq) with
      | some w => rfl
      | none =>
          cases hnew : more.find? (·.request.seq = seq) with
          | none => rfl
          | some w =>
              have hbegun := h.fresh w (List.mem_of_find?_eq_some hnew)
              simp [Option.filter, hbegun]
    · rfl
    · rfl
  · rw [turnOf_of_idle (h.idle htidy hholder), turnOf_of_idle (htidy.idle hholder)]

theorem isTidy (h : Bystands more writers holder writers' holder')
    (htidy : IsTidy writers holder) : IsTidy writers' holder' := by
  rcases h.lock with rfl | hholder
  · intro w hw hbegun
    rw [h.writers] at hw
    rcases List.mem_append.mp hw with hold | hnew
    · exact htidy w hold hbegun
    · rw [h.fresh w hnew] at hbegun
      cases hbegun
  · exact isTidy_of_idle (h.idle htidy hholder) _

end Bystands

end Turn

namespace Lock

/-- Whoever asks for the lock does not take it from anybody. -/
theorem holder_ask (p : Party) (l : Lock) :
    (l.ask p).holder = l.holder ∨ ∀ seq, l.holder ≠ some (.writer seq) := by
  cases hholder : l.holder with
  | none => exact .inr (by simp)
  | some q => exact .inl (by simp [ask, hholder])

end Lock

/-! ## One deed -/

namespace Session

variable {ω κ : Type}

def current (s : Session κ) : Option Parcel := turnOf s.writers s.lock.holder

section Current

variable {s : Session κ} {seq : UInt64} {w : Writer}

theorem current_of_begun (hholder : s.lock.holder = some (.writer seq))
    (hfind : s.writers.find? (·.request.seq = seq) = some w) (hbegun : w.begun = true) :
    s.current = some w.parcel := by
  rw [current, hholder, turnOf_of_found hfind, if_pos hbegun]

theorem current_of_unbegun (hholder : s.lock.holder = some (.writer seq))
    (hfind : s.writers.find? (·.request.seq = seq) = some w) (hbegun : w.begun = false) :
    s.current = none := by
  rw [current, hholder, turnOf_of_found hfind, if_neg (by simp [hbegun])]

/-- Whoever has the lock begins, and has the turn. -/
theorem current_begin (hholder : s.lock.holder = some (.writer seq))
    (hfind : s.writers.find? (·.request.seq = seq) = some w) :
    (s.updateWriter seq ({ · with begun := true })).current = some w.parcel := by
  have hfound : (amend seq ({ · with begun := true }) s.writers).find? (·.request.seq = seq) =
      some { w with begun := true } := by
    rw [find_amend seq (f := ({ · with begun := true })) (fun _ => rfl), hfind]
    simp [seq_of_find hfind]
  exact current_of_begun (w := { w with begun := true }) hholder hfound rfl

theorem isTidy_begin (htidy : IsTidy s.writers s.lock.holder)
    (hholder : s.lock.holder = some (.writer seq)) :
    IsTidy (amend seq ({ · with begun := true }) s.writers) s.lock.holder := by
  intro v hv hvbegun
  obtain ⟨u, hu, rfl⟩ := List.mem_map.mp hv
  by_cases hseq : u.request.seq = seq
  · rw [hholder, if_pos hseq, hseq]
  · rw [if_neg hseq] at hvbegun ⊢
    exact htidy u hu hvbegun

end Current

/-- Whoever writes for a call begins later, if there is anybody. -/
theorem bystands_issue (call : Call) (shape : Wire.Shape) (mailbox : Nat) (s : Session κ) :
    ∃ more, more.map (·.parcel) =
        ([noteCall ⟨call, shape, mailbox⟩ s.client].filterMap Notice.registered?).map
          Pending.parcel ∧
      Bystands more s.writers s.lock.holder (s.issue call shape mailbox).writers
        (s.issue call shape mailbox).lock.holder := by
  have hrequest := s.client.issue_request call shape mailbox
  cases hover : s.client.isOver with
  | true =>
      rw [hover, if_pos rfl] at hrequest
      refine ⟨[], by simp [noteCall, hover], ?_⟩
      simp only [issue, hrequest]
      exact .same _ _
  | false =>
      rw [hover, if_neg Bool.false_ne_true] at hrequest
      refine ⟨[{ request := ⟨call.method, s.client.nextSeq⟩, args := call.args }], ?_, ?_⟩
      · simp [noteCall, hover, Writer.parcel, Pending.parcel]
      · simp only [issue, hrequest]
        exact ⟨rfl, by simp, .inl rfl⟩

variable [Codec κ] [Surroundings ω κ]

/-- Whatever is done besides the steps of the writers leaves the turn where it
is, and adds a writer for every call that it registers. -/
theorem bystands_perform (s : Session κ) {d : Deed ω}
    (hd : ∀ seq now, d ≠ .task (.writer seq) now) :
    ∃ more, more.map (·.parcel) =
        ((s.notices d).filterMap Notice.registered?).map Pending.parcel ∧
      Bystands more s.writers s.lock.holder (s.perform d).writers (s.perform d).lock.holder := by
  have hsame := Bystands.same s.writers s.lock.holder
  cases d with
  | go a => exact bystands_issue a.call a.shape _ { s with client := (s.client.addMailbox _).2 }
  | goWith a mailbox =>
      by_cases hmailbox : mailbox < s.client.mailboxes.length
      · simp only [perform, notices, if_pos hmailbox]
        exact bystands_issue a.call a.shape mailbox s
      · exact ⟨[], by simp [notices, hmailbox], by simpa [perform, hmailbox] using hsame⟩
  | completion capacity =>
      refine ⟨[], rfl, ?_⟩
      simp only [perform]
      split <;> exact hsame
  | take mailbox =>
      refine ⟨[], rfl, ?_⟩
      simp only [perform]
      split <;> exact hsame
  | task t now =>
      cases t with
      | receiver =>
          have hstep := s.stepReceiver_cases now
          simp only [perform, step, notices, noteStep]
          generalize s.readEnding now = failure at hstep
          generalize (s.stepReceiver now).2 = s' at hstep ⊢
          refine ⟨[], by cases failure <;> rfl, ?_⟩
          cases hstep with
          | @header response codec =>
              obtain ⟨-, hwriters, hlock, -⟩ := frame_route response { s with codec }
              rw [hwriters, hlock]
              exact hsame
          | _ => exact hsame
      | writer seq => exact absurd rfl (hd seq now)
      | caller place =>
          have hstep := s.stepCaller_cases place
          simp only [perform, step, notices, noteStep]
          generalize (s.stepCaller place).2 = s' at hstep ⊢
          cases hstep with
          | @made call shape hcaller hopen =>
              simp only [hcaller, hopen]
              exact bystands_issue call shape _ { s with client := (s.client.addMailbox _).2 }
          | turnedAway hcaller hover => exact ⟨[], by simp [hcaller, hover], hsame⟩
          | absent hcaller | finished hcaller | taken hcaller | bereft hcaller | awaited hcaller =>
              exact ⟨[], by simp [hcaller], hsame⟩
  | close =>
      refine ⟨[], rfl, ?_⟩
      cases hover : s.client.isOver with
      | true => simpa [perform, beginClose, Client.beginClose, hover] using hsame
      | false =>
          simp only [perform, beginClose, Client.beginClose, hover]
          exact ⟨(List.append_nil _).symm, by simp, Lock.holder_ask .closer s.lock⟩
  | hangUp =>
      refine ⟨[], rfl, ?_⟩
      by_cases hholder : s.lock.holder = some .closer
      · simp only [perform, stepClose, hholder]
        exact ⟨by simp, by simp, .inr (by simp)⟩
      · simpa [perform, stepClose, hholder] using hsame
  | call | dropHandle | deafen | outside => exact ⟨[], rfl, hsame⟩

/-- How the writing that is under way ends with a deed, if it ends. -/
def currentEnding (s : Session κ) : Deed ω → Option (Except CallError Unit)
  | .task (.writer seq) now =>
      if s.lock.holder = some (.writer seq) then
        match s.writers.find? (·.request.seq = seq) with
        | none => none
        | some w =>
            if !w.queued || !w.begun then none
            else if s.client.closing then some (.error .shutdown)
            else
              match (Codec.write w.request w.args now s.codec).1 with
              | .done result => some result
              | .again | .blocked => none
      else none
  | _ => none

/-- What one step of a writer does to the turn: how the writing under way ends if
it ends, and who is left. -/
inductive Turn (seq : UInt64) (now : Nat) (s : Session κ) :
    Option (Except CallError Unit) → Session κ → Prop where
  | kept {s' : Session κ} (hparcels : s'.writers.map (·.parcel) = s.writers.map (·.parcel))
      (hcurrent : s'.current = s.current) (hcodec : s'.codec = s.codec) : Turn seq now s none s'
  /-- The client was found to be over before anything was begun. -/
  | refused {w : Writer} {s' : Session κ}
      (hfind : s.writers.find? (·.request.seq = seq) = some w) (hover : s.client.isOver = true)
      (hnone : s.current = none) (hwriters : s'.writers = s.writers.filter (·.request.seq != seq))
      (hleft : s'.current = none) (hcodec : s'.codec = s.codec) : Turn seq now s none s'
  | begun {w : Writer} {s' : Session κ}
      (hfind : s.writers.find? (·.request.seq = seq) = some w) (hopen : s.client.isOver = false)
      (hnone : s.current = none)
      (hparcels : s'.writers.map (·.parcel) = s.writers.map (·.parcel))
      (hcurrent : s'.current = some w.parcel) (hcodec : s'.codec = s.codec) : Turn seq now s none s'
  | cancelled {w : Writer} {s' : Session κ}
      (hfind : s.writers.find? (·.request.seq = seq) = some w)
      (hcurrent : s.current = some w.parcel) (hclosing : s.client.closing = true)
      (hwriters : s'.writers = s.writers.filter (·.request.seq != seq))
      (hleft : s'.current = none) (hcodec : s'.codec = Codec.cancelWrite s.codec) :
      Turn seq now s (some (.error .shutdown)) s'
  | writing {w : Writer} {s' : Session κ} {poll : Poll (Except CallError Unit)}
      (hcurrent : s.current = some w.parcel) (hclosing : s.client.closing = false)
      (hwrite : Codec.write w.request w.args now s.codec = (poll, s'.codec))
      (hpoll : ending poll = none) (hwriters : s'.writers = s.writers)
      (hstill : s'.current = some w.parcel) : Turn seq now s none s'
  | written {w : Writer} {s' : Session κ} {result : Except CallError Unit}
      (hfind : s.writers.find? (·.request.seq = seq) = some w)
      (hcurrent : s.current = some w.parcel) (hclosing : s.client.closing = false)
      (hwrite : Codec.write w.request w.args now s.codec = (.done result, s'.codec))
      (hwriters : s'.writers = s.writers.filter (·.request.seq != seq))
      (hleft : s'.current = none) : Turn seq now s (some result) s'

omit [Codec κ] in
theorem codec_endWriter (seq : UInt64) (result : Except CallError Unit) (s : Session κ) :
    (s.endWriter seq result).2.codec = s.codec := by
  cases result <;> rfl

omit [Codec κ] in
theorem writers_endWriter (seq : UInt64) (result : Except CallError Unit) (s : Session κ) :
    (s.endWriter seq result).2.writers = s.writers.filter (·.request.seq != seq) := by
  cases result <;> rfl

omit [Codec κ] in
/-- Whoever is done passes the lock on, and the next has not begun. -/
theorem left_endWriter {s : Session κ} (htidy : IsTidy s.writers s.lock.holder) {seq : UInt64}
    (hholder : s.lock.holder = some (.writer seq)) (result : Except CallError Unit) :
    (s.endWriter seq result).2.current = none ∧
      IsTidy (s.endWriter seq result).2.writers (s.endWriter seq result).2.lock.holder := by
  rw [hholder] at htidy
  rw [current, writers_endWriter]
  exact ⟨turnOf_of_idle htidy.idle_of_leave _, isTidy_of_idle htidy.idle_of_leave _⟩

omit [Surroundings ω κ] in
theorem turn_stepWriter {s : Session κ} (htidy : IsTidy s.writers s.lock.holder) (seq : UInt64)
    (now : Nat) :
    Turn seq now s (s.currentEnding (.task (.writer seq) now : Deed ω)) (s.stepWriter seq now).2 ∧
      IsTidy (s.stepWriter seq now).2.writers (s.stepWriter seq now).2.lock.holder := by
  have hstep := s.stepWriter_cases seq now
  generalize s.writeFailure seq now = failure at hstep
  generalize (s.stepWriter seq now).2 = s' at hstep ⊢
  cases hstep with
  | absent hfind =>
      have hending : s.currentEnding (.task (.writer seq) now : Deed ω) = none := by
        simp [currentEnding, hfind]
      rw [hending]
      exact ⟨.kept rfl rfl rfl, htidy⟩
  | asked hfind hqueued =>
      have hending : s.currentEnding (.task (.writer seq) now : Deed ω) = none := by
        simp [currentEnding, hfind, hqueued]
      have hamended := isTidy_amend htidy seq
      have hstands : Bystands [] (amend seq ({ · with queued := true }) s.writers) s.lock.holder
          (amend seq ({ · with queued := true }) s.writers) (s.lock.ask (.writer seq)).holder :=
        ⟨(List.append_nil _).symm, by simp, Lock.holder_ask _ _⟩
      rw [hending]
      refine ⟨.kept (parcels_amend seq (f := ({ · with queued := true })) (fun _ => rfl) _) ?_ rfl,
        hstands.isTidy hamended⟩
      exact (hstands.turnOf_eq hamended).trans (turnOf_amend seq s.writers s.lock.holder)
  | queued hfind hqueued hholder =>
      have hending : s.currentEnding (.task (.writer seq) now : Deed ω) = none := by
        simp [currentEnding, hholder]
      rw [hending]
      exact ⟨.kept rfl rfl rfl, htidy⟩
  | refused hfind hqueued hholder hbegun hover =>
      have hending : s.currentEnding (.task (.writer seq) now : Deed ω) = none := by
        simp [currentEnding, hholder, hfind, hbegun]
      have hcurrent : s.current = none := current_of_unbegun hholder hfind hbegun
      obtain ⟨hleft, hidle⟩ := left_endWriter htidy hholder (.error .shutdown)
      rw [hending]
      exact ⟨.refused hfind hover hcurrent (writers_endWriter _ _ _) hleft (codec_endWriter _ _ _),
        hidle⟩
  | @begun w hfind hqueued hholder hbegun hopen =>
      have hending : s.currentEnding (.task (.writer seq) now : Deed ω) = none := by
        simp [currentEnding, hholder, hfind, hbegun]
      have hcurrent : s.current = none := current_of_unbegun hholder hfind hbegun
      rw [hending]
      have hparcels := parcels_amend seq (f := ({ · with begun := true })) (fun _ => rfl) s.writers
      exact ⟨.begun hfind hopen hcurrent hparcels (current_begin hholder hfind) rfl,
        isTidy_begin htidy hholder⟩
  | @cancelled w hfind hqueued hholder hbegun hclosing =>
      have hending : s.currentEnding (.task (.writer seq) now : Deed ω) =
          some (.error .shutdown) := by
        simp [currentEnding, hholder, hfind, hqueued, hbegun, hclosing]
      have hcurrent : s.current = some w.parcel := current_of_begun hholder hfind hbegun
      obtain ⟨hleft, hidle⟩ := left_endWriter (s := { s with codec := Codec.cancelWrite s.codec })
        htidy hholder (.error .shutdown)
      rw [hending]
      exact ⟨.cancelled hfind hcurrent hclosing (writers_endWriter _ _ _) hleft
        (codec_endWriter _ _ _), hidle⟩
  | @awaited w poll codec hfind hqueued hholder hbegun hclosing hwrite hpoll =>
      have hending : s.currentEnding (.task (.writer seq) now : Deed ω) = none := by
        simp only [currentEnding, hholder, hfind, hqueued, hbegun, hclosing, hwrite]
        cases poll with
        | done result => cases result <;> cases hpoll
        | again | blocked => rfl
      have hcurrent : s.current = some w.parcel := current_of_begun hholder hfind hbegun
      rw [hending]
      exact ⟨.writing hcurrent hclosing hwrite hpoll rfl hcurrent, htidy⟩
  | @written w result codec hfind hqueued hholder hbegun hclosing hwrite =>
      have hending : s.currentEnding (.task (.writer seq) now : Deed ω) = some result := by
        simp [currentEnding, hholder, hfind, hqueued, hbegun, hclosing, hwrite]
      have hcurrent : s.current = some w.parcel := current_of_begun hholder hfind hbegun
      obtain ⟨hleft, hidle⟩ := left_endWriter (s := { s with codec }) htidy hholder result
      rw [hending]
      refine ⟨.written hfind hcurrent hclosing ?_ (writers_endWriter _ _ _) hleft, hidle⟩
      rw [codec_endWriter, hwrite]

omit [Surroundings ω κ] in
/-- A step of a writer ends the writing of its own request, if of any. -/
theorem parcels_stepWriter {s : Session κ} (htidy : IsTidy s.writers s.lock.holder) (seq : UInt64)
    (now : Nat) :
    ((s.stepWriter seq now).2.writers.map (·.parcel)).Sublist (s.writers.map (·.parcel)) := by
  have hturn := (turn_stepWriter (ω := Unit) htidy seq now).1
  generalize s.currentEnding (.task (.writer seq) now : Deed Unit) = result at hturn
  generalize (s.stepWriter seq now).2 = s' at hturn ⊢
  cases hturn with
  | kept hparcels | begun _ _ _ hparcels => rw [hparcels]
  | writing _ _ _ _ hwriters => rw [hwriters]
  | refused _ _ _ hwriters | cancelled _ _ _ hwriters | written _ _ _ _ hwriters =>
      rw [hwriters]
      exact List.filter_sublist.map _

omit [Surroundings ω κ] in
/-- Nothing ends but by the step of a writer. -/
theorem currentEnding_beside (s : Session κ) {d : Deed ω}
    (hd : ∀ seq now, d ≠ .task (.writer seq) now) : s.currentEnding d = none := by
  cases d with
  | task t now =>
      cases t with
      | writer seq => exact absurd rfl (hd seq now)
      | receiver | caller => rfl
  | _ => rfl

theorem isTidy_perform {s : Session κ} (htidy : IsTidy s.writers s.lock.holder) (d : Deed ω) :
    IsTidy (s.perform d).writers (s.perform d).lock.holder := by
  by_cases hd : ∀ seq now, d ≠ .task (.writer seq) now
  · obtain ⟨_, _, hstands⟩ := s.bystands_perform hd
    exact hstands.isTidy htidy
  · simp only [ne_eq, not_forall, not_not] at hd
    obtain ⟨seq, now, rfl⟩ := hd
    exact (turn_stepWriter (ω := ω) htidy seq now).2

end Session

/-! ## Every life -/

namespace History

variable {ω κ : Type} [Codec κ] [Surroundings ω κ]

/-- A request whose writing is over, and how it ended. -/
structure Dispatch where
  parcel : Parcel
  result : Except CallError Unit

/-- What a deed ends, if it ends something. -/
def dispatch (s : Session κ) (d : Deed ω) : List Dispatch :=
  match s.current, s.currentEnding d with
  | some parcel, some result => [⟨parcel, result⟩]
  | _, _ => []

/-- What was written or given up in a life, in the order of the lock. -/
def dispatched (codec : κ) (deeds : List (Deed ω)) : List Dispatch :=
  (deeds.foldl (fun (s, done) d => (s.perform d, done ++ dispatch s d))
    (({ codec } : Session κ), [])).2

@[simp] theorem dispatched_nil (codec : κ) : dispatched codec ([] : List (Deed ω)) = [] := rfl

theorem dispatched_append_singleton (codec : κ) (deeds : List (Deed ω)) (d : Deed ω) :
    dispatched codec (deeds ++ [d]) =
      dispatched codec deeds ++ dispatch (run codec deeds).session d := by
  have hsession (deeds : List (Deed ω)) (s : Session κ) (done : List Dispatch) :
      (deeds.foldl (fun (s, done) d => (s.perform d, done ++ dispatch s d)) (s, done)).1 =
        deeds.foldl (fun s d => s.perform d) s := by
    induction deeds generalizing s done with
    | nil => rfl
    | cons d deeds ih => exact ih (s.perform d) (done ++ dispatch s d)
  rw [dispatched, List.foldl_append, session_run, ← hsession deeds { codec } []]
  rfl

theorem isTidy_run (codec : κ) (deeds : List (Deed ω)) :
    IsTidy (run codec deeds).session.writers (run codec deeds).session.lock.holder := by
  induction deeds using List.reverseRecOn with
  | nil => exact isTidy_of_idle (by simp) _
  | append_singleton deeds d ih =>
      rw [run_append_singleton]
      exact Session.isTidy_perform ih d

/-! ## Whose requests these are -/

omit [Codec κ] in
/-- Whatever is being written, somebody writes it. -/
theorem mem_of_current {s : Session κ} {p : Parcel} (h : s.current = some p) :
    p ∈ s.writers.map (·.parcel) := by
  unfold Session.current turnOf at h
  split at h
  · obtain ⟨w, hw, rfl⟩ := Option.map_eq_some_iff.mp h
    have hfind := (Option.filter_eq_some_iff.mp hw).1
    exact List.mem_map_of_mem (List.mem_of_find?_eq_some hfind)
  · cases h
  · cases h

omit [Surroundings ω κ] in
/-- What a deed ends was being written. -/
theorem mem_of_dispatch {s : Session κ} {d : Deed ω} {done : Dispatch} (h : done ∈ dispatch s d) :
    s.current = some done.parcel ∧ s.currentEnding d = some done.result := by
  unfold dispatch at h
  split at h
  · rename_i parcel result hcurrent hending
    rw [List.mem_singleton.mp h]
    exact ⟨hcurrent, hending⟩
  · cases h

/-- Whatever is written, was written or was given up is the request of a call that
was registered. -/
theorem entrusted_run (codec : κ) (deeds : List (Deed ω)) :
    (∀ p ∈ (run codec deeds).session.writers.map (·.parcel),
        p ∈ (run codec deeds).registered.map Pending.parcel) ∧
      ∀ d ∈ dispatched codec deeds, d.parcel ∈ (run codec deeds).registered.map Pending.parcel := by
  induction deeds using List.reverseRecOn with
  | nil => exact ⟨by simp, by simp⟩
  | append_singleton deeds d ih =>
      obtain ⟨hwriters, hdone⟩ := ih
      have htidy := isTidy_run codec deeds
      rw [dispatched_append_singleton, run_append_singleton, registered_perform, List.map_append]
      constructor
      · intro p hp
        rw [List.mem_append]
        by_cases hd : ∀ seq now, d ≠ .task (.writer seq) now
        · obtain ⟨more, hmore, hstands⟩ := (run codec deeds).session.bystands_perform hd
          rw [show ((run codec deeds).perform d).session.writers = _ from hstands.writers,
            List.map_append, hmore, List.mem_append] at hp
          exact hp.imp (hwriters p) id
        · simp only [ne_eq, not_forall, not_not] at hd
          obtain ⟨seq, now, rfl⟩ := hd
          exact .inl (hwriters p ((Session.parcels_stepWriter htidy seq now).subset hp))
      · intro done hmem
        rw [List.mem_append]
        left
        rcases List.mem_append.mp hmem with hold | hnew
        · exact hdone done hold
        · exact hwriters _ (mem_of_current (mem_of_dispatch hnew).1)

end History

end Switchboard
