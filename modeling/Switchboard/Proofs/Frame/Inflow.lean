import Switchboard.Proofs.Frame.Segments

/-!
# What a connection has in store

A connection that follows a script may fail between two octets, end, or just
have no more to give. Its `Inflow` is what reads find in it, and in it neither
the pieces count nor the silences: some octets, and what comes behind them.
`Inflow.read` is one read from it, and `Inflow.reads` is one read after the
other, of which one may wait for ever. A `Reader` comes to just that, whatever
the pieces are (`Reader.harvest`).
-/

namespace Switchboard

/-- What comes behind a stretch of octets. -/
inductive Sequel where
  /-- Nothing, for all that is known. -/
  | nothing
  | ended
  /-- An attempt fails; then there are octets again. -/
  | failure (error : IoError) (octets : Octets) (sequel : Sequel)
  deriving Repr, DecidableEq

/-- What there is to read: octets, up to the first failure or the end. -/
structure Inflow where
  octets : Octets
  sequel : Sequel
  deriving Repr, DecidableEq

/-- A read that needs more runs into what is behind the octets. It has lost what
it consumed. -/
def Sequel.meet (p : Progress) : Sequel → Option (Except LinkError Received × Inflow)
  | .nothing => none
  | .ended => some (.error p.onEnd, ⟨[], .ended⟩)
  | .failure error octets sequel => some (.error (p.onFailure error), ⟨octets, sequel⟩)

/-- What comes of a program of reads: what the reads gave that are over, the
reads that are not, and what is left for them. -/
structure Harvest where
  results : List (Except LinkError Received)
  todo : List ReadKind
  left : Inflow

/-- There were other reads before. -/
def Harvest.after (results : List (Except LinkError Received)) (h : Harvest) : Harvest :=
  { h with results := results ++ h.results }

namespace Inflow

/-- Nothing was there, or everything was taken. -/
def dry : Inflow := ⟨[], .nothing⟩

def prepend (octets : Octets) (s : Inflow) : Inflow := { s with octets := octets ++ s.octets }

/-- An attempt fails first. If it is interrupted it is made again, and nobody
sees it. -/
def failing (error : IoError) (s : Inflow) : Inflow :=
  if error.kind = .interrupted then s else ⟨[], .failure error s.octets s.sequel⟩

/-- An arrival comes first. -/
def behind (s : Inflow) : Arrival → Inflow
  | .data front => s.prepend front
  | .ended => ⟨[], .ended⟩
  | .failed error => s.failing error
  | .nothing => s

/-- What one read gives and what it leaves, unless it waits for ever. -/
def read (limit : Nat) (kind : ReadKind) (s : Inflow) :
    Option (Except LinkError Received × Inflow) :=
  match (Progress.start kind).feed limit s.octets with
  | .done result rest => some (result, { s with octets := rest })
  | .more p => s.sequel.meet p

/-- One read after the other. A read that waits for ever is given up, unless it
has all the time in the world. -/
def reads (limit : Nat) (patient : Bool) : List ReadKind → Inflow → Harvest
  | [], s => ⟨[], [], s⟩
  | kind :: kinds, s =>
      match s.read limit kind with
      | some (result, rest) => (reads limit patient kinds rest).after [result]
      | none =>
          if patient then ⟨[], kind :: kinds, dry⟩
          else (reads limit patient kinds dry).after [.error (.timeout .receive)]

@[simp] theorem prepend_nil (s : Inflow) : s.prepend [] = s := rfl

@[simp] theorem prepend_prepend (front octets : Octets) (s : Inflow) :
    (s.prepend octets).prepend front = s.prepend (front ++ octets) := by
  simp [prepend]

/-- With nothing behind it, a stretch of octets is all there is. -/
@[simp] theorem prepend_mk (octets : Octets) (sequel : Sequel) :
    prepend octets ⟨[], sequel⟩ = ⟨octets, sequel⟩ := by
  rw [prepend, List.append_nil]

section Read

variable {limit : Nat} {kind : ReadKind} {octets rest : Octets}
  {result : Except LinkError Received} {p : Progress}

theorem read_of_done (h : (Progress.start kind).feed limit octets = .done result rest)
    (sequel : Sequel) : read limit kind ⟨octets, sequel⟩ = some (result, ⟨rest, sequel⟩) := by
  rw [read, h]

theorem read_of_more (h : (Progress.start kind).feed limit octets = .more p) (sequel : Sequel) :
    read limit kind ⟨octets, sequel⟩ = sequel.meet p := by
  rw [read, h]

/-- A read that is done leaves alone what comes behind. -/
theorem read_prepend (h : (Progress.start kind).feed limit octets = .done result rest)
    (s : Inflow) : (s.prepend octets).read limit kind = some (result, s.prepend rest) :=
  read_of_done (Progress.feed_start_of_done h s.octets) s.sequel

end Read

end Inflow

namespace Harvest

@[simp] theorem after_after (first second : List (Except LinkError Received)) (h : Harvest) :
    (h.after second).after first = h.after (first ++ second) := by
  simp [after]

end Harvest

/-! ## The script -/

namespace Incoming

/-- What reads find in a list of events. -/
def inflow : List Incoming → Inflow
  | [] => .dry
  | .data octets :: rest => (inflow rest).prepend octets
  | .wait _ :: rest | .silentUntil _ :: rest => inflow rest
  | .failure error :: rest => (inflow rest).failing error
  | .ended :: _ => ⟨[], .ended⟩

/-- What comes does so without silences. -/
def Prompt (incoming : List Incoming) : Prop :=
  ∀ event ∈ incoming, (∀ duration, event ≠ .wait duration) ∧ ∀ time, event ≠ .silentUntil time

end Incoming

namespace Script

/-- An attempt takes what is in front. -/
theorem inflow_readFrom (want now : Nat) (incoming : List Incoming) :
    Incoming.inflow incoming =
      (Incoming.inflow (readFrom want now incoming).2).behind (readFrom want now incoming).1 := by
  fun_induction readFrom want now incoming with
  | case1 => rfl
  | case2 rest ih => exact ih
  | case3 x xs rest octets left =>
      have hsplit : octets.take want ++ left = octets := List.take_append_drop want octets
      by_cases hleft : left.isEmpty
      · rw [List.isEmpty_iff.mp hleft, List.append_nil] at hsplit
        simp [hleft, hsplit, Incoming.inflow, Inflow.behind, octets]
      · simp [hleft, hsplit, Incoming.inflow, Inflow.behind, octets]
  | case4 rest ih => exact ih
  | case5 duration rest => rfl
  | case6 time rest htime ih => exact ih
  | case7 time rest htime => rfl
  | case8 error rest => rfl
  | case9 rest => rfl

theorem prompt_readFrom (want now : Nat) {incoming : List Incoming}
    (h : Incoming.Prompt incoming) : Incoming.Prompt (readFrom want now incoming).2 := by
  fun_induction readFrom want now incoming with
  | case1 => exact h
  | case2 rest ih => exact ih fun event hevent => h event (List.mem_cons_of_mem _ hevent)
  | case3 x xs rest octets left =>
      have hrest : Incoming.Prompt rest := fun event hevent =>
        h event (List.mem_cons_of_mem _ hevent)
      by_cases hleft : left.isEmpty
      · simpa [hleft] using hrest
      · simp only [hleft, Bool.false_eq_true, if_false]
        intro event hevent
        rcases List.mem_cons.mp hevent with rfl | hevent
        · exact ⟨by simp, by simp⟩
        · exact hrest event hevent
  | case4 rest ih => exact ih fun event hevent => h event (List.mem_cons_of_mem _ hevent)
  | case5 duration rest => exact absurd rfl ((h _ List.mem_cons_self).1 duration)
  | case6 time rest htime ih => exact ih fun event hevent => h event (List.mem_cons_of_mem _ hevent)
  | case7 time rest htime => exact h
  | case8 error rest => exact fun event hevent => h event (List.mem_cons_of_mem _ hevent)
  | case9 rest => exact h

/-- At the end, the end is left. -/
theorem inflow_of_ended {want now : Nat} {incoming : List Incoming}
    (h : (readFrom want now incoming).1 = .ended) :
    Incoming.inflow (readFrom want now incoming).2 = ⟨[], .ended⟩ := by
  fun_induction readFrom want now incoming with
  | case1 => cases h
  | case2 rest ih => exact ih h
  | case3 => cases h
  | case4 rest ih => exact ih h
  | case5 => cases h
  | case6 time rest htime ih => exact ih h
  | case7 => cases h
  | case8 => cases h
  | case9 rest => rfl

end Script

/-! ## An attempt -/

namespace Framed

/-- What there is to read, what is buffered included. -/
def inflow (f : Framed Script) : Inflow :=
  (Incoming.inflow f.link.incoming).prepend f.inbound.buffer

/-- There is nothing to read, and nothing will come. -/
def Exhausted (f : Framed Script) : Prop := f.inbound.buffer = [] ∧ f.link.incoming = []

/-- Until then nothing can happen: there is a silence, or there is nothing to
read and the read is not given up before. -/
def WaitsUntil (f : Framed Script) (time : Nat) : Prop :=
  f.SilentUntil time ∨
    f.Exhausted ∧ ∃ r, f.inbound.reading = some r ∧ r.deadline = some time

/-- The read waits, and there is nothing it waits for. -/
def WaitsForEver (f : Framed Script) : Prop :=
  f.Exhausted ∧ ∃ r, f.inbound.reading = some r ∧ r.deadline = none

theorem Exhausted.inflow {f : Framed Script} (h : f.Exhausted) : f.inflow = .dry := by
  rw [Framed.inflow, h.1, h.2]
  rfl

/-- An attempt gets on, or it waits. -/
def GetsOn (now : Nat) (f f' : Framed Script) : Prop :=
  f'.toRead < f.toRead ∨
    f'.toRead ≤ f.toRead ∧
      (f'.WaitsForEver ∨ ∃ time, now < time ∧ f'.WaitsUntil time ∧
        ∀ other, f.WaitsUntil other → time = other)

/-- What comes of an attempt to go on with a read that has consumed `taken`: it
goes on, it is over as it is to be, or it is given up, and then for the reason
that nothing will come. -/
inductive Advance (kind : ReadKind) (taken : Octets) (f : Framed Script) (now : Nat)
    (r : Reading) : Poll (Except LinkError Received) → Framed Script → Prop where
  | going {poll : Poll (Except LinkError Received)} {f' : Framed Script} (consumed : Octets)
      (progress : Progress) (hpoll : poll = .again ∨ poll = .blocked)
      (hreading : f'.inbound.reading = some { r with progress })
      (hfed : (Progress.start kind).feed f.inbound.limit consumed = .more progress)
      (hflow : f'.inflow.prepend consumed = f.inflow.prepend taken) (hgets : f.GetsOn now f') :
      Advance kind taken f now r poll f'
  | done {f' : Framed Script} (result : Except LinkError Received)
      (hreading : f'.inbound.reading = none)
      (hread : (f.inflow.prepend taken).read f.inbound.limit kind = some (result, f'.inflow))
      (hle : f'.toRead ≤ f.toRead) : Advance kind taken f now r (.done result) f'
  | late {f' : Framed Script} (hdue : r.deadline.isSome) (hreading : f'.inbound.reading = none)
      (hread : (f.inflow.prepend taken).read f.inbound.limit kind = none)
      (hdry : f'.inflow = .dry) (hle : f'.toRead ≤ f.toRead) :
      Advance kind taken f now r (.done (.error (.timeout .receive))) f'

section Advance

variable {kind : ReadKind} {taken : Octets} {f f' : Framed Script} {now : Nat} {r : Reading}
  {poll : Poll (Except LinkError Received)}

/-- An attempt that asks the connection takes what it finds from the front. -/
theorem inflow_of_read {want : Nat} {arrival : Arrival} {link : Script}
    (hbuffer : f.inbound.buffer = [])
    (hread : Link.read .near want now f.link = (arrival, link)) :
    f.inflow = (Incoming.inflow link.incoming).behind arrival := by
  obtain ⟨incoming, hfound, rfl⟩ := Script.exists_incoming hread
  rw [inflow, hbuffer, Script.inflow_readFrom want now, hfound]
  rfl

theorem inflow_of_gets {octets : Octets} {link : Script}
    (hgets : f.inbound.Gets .near now r f.link octets link) :
    f.inflow = (Incoming.inflow link.incoming).prepend octets := by
  cases hgets with
  | buffered => rfl
  | arrived hbuffer hread => exact inflow_of_read hbuffer hread

section Nothing

variable {want : Nat} {link : Script} (hbuffer : f.inbound.buffer = [])
  (hread : Link.read .near want now f.link = (.nothing, link))

include hread in
/-- Where there are no silences, nothing is found when nothing is left. -/
theorem nil_of_prompt (hprompt : Incoming.Prompt f.link.incoming) : link.incoming = [] := by
  obtain ⟨incoming, hfound, rfl⟩ := Script.exists_incoming hread
  have hleft := Script.prompt_readFrom want now hprompt
  have hcases := Script.silent_or_nil (congrArg Prod.fst hfound)
  rw [hfound] at hleft hcases
  rcases hcases with ⟨time, rest, -, rfl⟩ | hnil
  · exact absurd rfl ((hleft _ List.mem_cons_self).2 time)
  · exact hnil

include hbuffer hread

/-- Nothing is found, and there is still time. -/
theorem getsOn_of_nothing (hreading : f.inbound.reading = some r)
    (hearly : ∀ time, r.deadline = some time → now < time) : f.GetsOn now { f with link } := by
  have hle : toRead { f with link } ≤ f.toRead := toRead_of_nothing hbuffer hread hbuffer
  rcases still_of_nothing hbuffer hread with hless | hstill
  · exact Or.inl hless
  refine Or.inr ⟨hle, ?_⟩
  obtain ⟨incoming, hfound, rfl⟩ := Script.exists_incoming hread
  have hcases := Script.silent_or_nil (congrArg Prod.fst hfound)
  rw [hfound] at hcases
  rcases hcases with ⟨time, rest, hnow, rfl⟩ | rfl
  · refine Or.inr ⟨time, hnow, Or.inl ⟨hbuffer, rest, rfl⟩, ?_⟩
    rintro other (hsilent | ⟨⟨-, hnil⟩, -⟩)
    · obtain ⟨-, left, heq⟩ := id hsilent
      obtain ⟨htime, -⟩ := List.cons.inj ((hstill other hsilent).trans heq)
      exact Incoming.silentUntil.inj htime
    · rw [hnil, Script.readFrom] at hfound
      cases hfound
  · have hexhausted : Exhausted { f with link := { f.link with incoming := [] } } := ⟨hbuffer, rfl⟩
    cases hdeadline : r.deadline with
    | none => exact Or.inl ⟨hexhausted, r, hreading, hdeadline⟩
    | some time =>
        refine Or.inr ⟨time, hearly time hdeadline,
          Or.inr ⟨hexhausted, r, hreading, hdeadline⟩, ?_⟩
        rintro other (hsilent | ⟨-, r', hreading', hdeadline'⟩)
        · obtain ⟨-, left, heq⟩ := id hsilent
          have hnil := (hstill other hsilent).trans heq
          cases hnil
        · obtain rfl := Option.some.inj (hreading.symm.trans hreading')
          exact Option.some.inj (hdeadline.symm.trans hdeadline')

end Nothing

/-- What can come of an attempt to go on with a read. -/
theorem advance_read (hreading : f.inbound.reading = some r)
    (hfed : (Progress.start kind).feed f.inbound.limit taken = .more r.progress)
    (hcalm : r.deadline = none ∨ Incoming.Prompt f.link.incoming) (now : Nat) :
    Advance kind taken f now r (f.read kind now).1 (f.read kind now).2 := by
  have hstep := Inbound.step_cases .near now hreading f.link
  rw [read_going _ hreading]
  generalize f.inbound.step .near now f.link = stepped at hstep
  obtain ⟨poll, inbound, link⟩ := stepped
  dsimp only at hstep ⊢
  cases hstep with
  | @goes got progress _ hgets hgoes =>
      have hpos := pos_of_gets hgets
      have hburden := toRead_of_gets hgets
      refine .going (taken ++ got) progress (.inl rfl) rfl ?_ ?_ (.inl ?_)
      · rw [Progress.feed_start_of_more hfed, hgoes]
      · rw [inflow_of_gets hgets, Inflow.prepend_prepend, inflow, Inflow.prepend_nil]
      · rw [toRead, List.length_nil]
        dsimp only
        omega
  | @done got rest result _ hgets hdone =>
      have hburden := toRead_of_gets hgets
      have hrest := (Progress.invalid_of_done hdone).1.length_le
      refine .done result rfl ?_ ?_
      · rw [inflow_of_gets hgets, Inflow.prepend_prepend]
        refine Inflow.read_prepend ?_ _
        rw [Progress.feed_start_of_more hfed, hdone]
      · rw [toRead]
        dsimp only
        omega
  | ended hbuffer hread =>
      refine .done _ rfl ?_ (toRead_of_nothing hbuffer hread hbuffer)
      have hleft : inflow { f with inbound := f.inbound.cancel, link } = ⟨[], .ended⟩ := by
        obtain ⟨incoming, hfound, rfl⟩ := Script.exists_incoming hread
        have hended := Script.inflow_of_ended (congrArg Prod.fst hfound)
        rw [hfound] at hended
        rw [inflow, Inbound.cancel, hbuffer]
        exact hended
      rw [inflow_of_read hbuffer hread, Inflow.behind, Inflow.prepend_mk,
        Inflow.read_of_more hfed, hleft]
      rfl
  | @interrupted error _ hbuffer hread hkind =>
      refine .going taken r.progress (.inl rfl) hreading hfed ?_ (.inl ?_)
      · rw [inflow_of_read hbuffer hread, Inflow.behind, Inflow.failing, if_pos hkind, inflow,
          hbuffer]
        rfl
      · obtain ⟨incoming, hfound, rfl⟩ := Script.exists_incoming hread
        have hless := Script.burden_of_failed (congrArg Prod.fst hfound)
        rw [hfound] at hless
        simpa [toRead, hbuffer] using hless
  | @failed error _ hbuffer hread hkind =>
      refine .done _ rfl ?_ (toRead_of_nothing hbuffer hread hbuffer)
      rw [inflow_of_read hbuffer hread, Inflow.behind, Inflow.failing, if_neg hkind,
        Inflow.prepend_mk, Inflow.read_of_more hfed, inflow, Inbound.cancel, hbuffer]
      rfl
  | late hbuffer hread hdeadline =>
      -- Where there is a time limit there are no silences, so nothing is left.
      have hnil := nil_of_prompt hread (hcalm.resolve_left (by simp [hdeadline]))
      refine .late (by rw [hdeadline]; rfl) rfl ?_ ?_ (toRead_of_nothing hbuffer hread hbuffer)
      · rw [inflow_of_read hbuffer hread, hnil, Incoming.inflow, Inflow.behind, Inflow.dry,
          Inflow.prepend_mk, Inflow.read_of_more hfed]
        rfl
      · rw [inflow, Inbound.cancel, hbuffer, hnil]
        rfl
  | waits hbuffer hread hearly =>
      refine .going taken r.progress (.inr rfl) hreading hfed ?_
        (getsOn_of_nothing hbuffer hread hreading hearly)
      rw [inflow_of_read hbuffer hread, inflow, hbuffer]
      rfl

end Advance

end Framed

/-! ## A program of reads -/

namespace Framed

theorem WaitsForEver.read {f : Framed Script} (h : f.WaitsForEver) (kind : ReadKind) (now : Nat) :
    f.read kind now = (.blocked, f) := by
  obtain ⟨⟨hbuffer, hincoming⟩, r, hreading, hdeadline⟩ := h
  have hlink : { f.link with incoming := [] } = f.link := by rw [← hincoming]
  simp [Framed.read, hreading, Inbound.step, hbuffer, Link.read, hincoming, Script.readFrom,
    hdeadline, hlink]

theorem prompt_read {f : Framed Script} (kind : ReadKind) (now : Nat)
    (h : Incoming.Prompt f.link.incoming) : Incoming.Prompt (f.read kind now).2.link.incoming := by
  rcases incoming_read kind now f with hsame | ⟨want, hread⟩
  · rw [hsame]
    exact h
  · rw [hread]
    exact Script.prompt_readFrom want now h

end Framed

namespace Reader

/-- The reads are over, or the one that is under way waits for ever. -/
def Settled (r : Reader) : Prop := r.todo = [] ∨ r.codec.WaitsForEver

/-- A reader with what it has in store comes to `goal`. The read under way has
consumed `taken`. -/
structure Heads (limit : Nat) (patience : Option Nat) (goal : Harvest) (r : Reader)
    (taken : Octets) : Prop where
  bound : r.codec.inbound.limit = limit
  kept : r.codec.inbound.patience = patience
  calm : patience = none ∨ Incoming.Prompt r.codec.link.incoming
  comes : ((r.codec.inflow.prepend taken).reads limit patience.isNone r.todo).after r.results =
    goal
  reading : (r.codec.inbound.reading = none ∧ taken = []) ∨
    ∃ reading kind todo, r.codec.inbound.reading = some reading ∧ r.todo = kind :: todo ∧
      (Progress.start kind).feed limit taken = .more reading.progress ∧
      reading.deadline.isNone = patience.isNone

/-- An attempt gets on, or it waits, or nothing is left to do. -/
def Moves (now : Nat) (r r' : Reader) : Prop :=
  r'.burden < r.burden ∨ r'.Settled ∨
    r'.burden ≤ r.burden ∧ ∃ time, now < time ∧ r'.codec.WaitsUntil time ∧
      ∀ other, r.codec.WaitsUntil other → time = other

namespace Heads

variable {limit : Nat} {patience : Option Nat} {goal : Harvest} {r : Reader} {taken : Octets}

/-- A read is over, and what it gave is what it had to give. -/
theorem finish (h : Heads limit patience goal r taken) {kind : ReadKind} {todo : List ReadKind}
    (htodo : r.todo = kind :: todo) {codec : Framed Script} {result : Except LinkError Received}
    (hkept : codec.inbound.limit = limit ∧ codec.inbound.patience = patience)
    (hcalm : patience = none ∨ Incoming.Prompt codec.link.incoming)
    (hreading : codec.inbound.reading = none)
    (hreads : (r.codec.inflow.prepend taken).reads limit patience.isNone (kind :: todo) =
      (codec.inflow.reads limit patience.isNone todo).after [result]) :
    Heads limit patience goal { codec, todo, results := r.results ++ [result] } [] where
  bound := hkept.1
  kept := hkept.2
  calm := hcalm
  comes := by rw [← h.comes, htodo, hreads, Harvest.after_after, Inflow.prepend_nil]
  reading := Or.inl ⟨hreading, rfl⟩

/-- A read begins. -/
theorem begin_read (h : Heads limit patience goal r []) {kind : ReadKind} {todo : List ReadKind}
    (htodo : r.todo = kind :: todo) (now : Nat) :
    Heads limit patience goal
      { r with codec := { r.codec with inbound := r.codec.inbound.start kind now } } [] where
  bound := h.bound
  kept := h.kept
  calm := h.calm
  comes := h.comes
  reading := Or.inr ⟨_, kind, todo, rfl, htodo, Progress.feed_start_nil limit kind, by
    rw [h.kept, Option.isNone_map]⟩

/-- What an attempt to go on with a read makes of the reader. -/
theorem go_on (h : Heads limit patience goal r taken) {reading : Reading} {kind : ReadKind}
    {todo : List ReadKind} (hreading : r.codec.inbound.reading = some reading)
    (htodo : r.todo = kind :: todo)
    (hfed : (Progress.start kind).feed limit taken = .more reading.progress)
    (hdeadline : reading.deadline.isNone = patience.isNone) (now : Nat) :
    ∃ taken, Heads limit patience goal (r.step now) taken ∧ r.Moves now (r.step now) := by
  have hkept := Framed.settings_read kind now r.codec
  have hcalm : reading.deadline = none ∨ Incoming.Prompt r.codec.link.incoming := by
    refine h.calm.imp_left fun hnone => ?_
    rw [hnone] at hdeadline
    exact Option.isNone_iff_eq_none.mp hdeadline
  have hcalm' := h.calm.imp_right (Framed.prompt_read kind now)
  rw [← h.bound] at hfed
  have hadvance := Framed.advance_read hreading hfed hcalm now
  generalize hread : r.codec.read kind now = read at hadvance hkept hcalm'
  obtain ⟨poll, codec⟩ := read
  dsimp only at hadvance hkept hcalm'
  rw [h.bound, h.kept] at hkept
  cases hadvance with
  | going consumed progress hpoll hgoing hfed' hflow hgets =>
      rw [step_of_more htodo hpoll hread]
      rw [h.bound] at hfed'
      refine ⟨consumed, ⟨hkept.1, hkept.2, hcalm', ?_, Or.inr ⟨_, kind, todo, hgoing, htodo,
        hfed', hdeadline⟩⟩, ?_⟩
      · rw [← h.comes, hflow]
      · rw [Moves, burden, burden, hreading, hgoing]
        rcases hgets with hless | ⟨hle, hever | ⟨time, hnow, hwaits, hsame⟩⟩
        · left
          simpa using hless
        · exact Or.inr (Or.inl (Or.inr hever))
        · exact Or.inr (Or.inr ⟨by simpa using hle, time, hnow, hwaits, hsame⟩)
  | done result hover hresult hle =>
      rw [step_of_done htodo hread]
      refine ⟨[], h.finish htodo hkept hcalm' hover ?_,
        Or.inl (burden_of_over htodo hreading hover hle _)⟩
      rw [h.bound] at hresult
      rw [Inflow.reads, hresult]
  | late hdue hover hnone hdry hle =>
      rw [step_of_done htodo hread]
      refine ⟨[], h.finish htodo hkept hcalm' hover ?_,
        Or.inl (burden_of_over htodo hreading hover hle _)⟩
      rw [h.bound] at hnone
      have hpatient : patience.isNone = false := by
        rw [← hdeadline]
        cases hsome : reading.deadline <;> simp_all
      rw [Inflow.reads, hnone, hdry]
      simp [hpatient]

theorem step (h : Heads limit patience goal r taken) (now : Nat) :
    ∃ taken, Heads limit patience goal (r.step now) taken ∧ r.Moves now (r.step now) := by
  cases htodo : r.todo with
  | nil =>
      rw [step_of_nil htodo]
      exact ⟨taken, h, Or.inr (Or.inl (Or.inl htodo))⟩
  | cons kind todo =>
      rcases h.reading with ⟨hidle, rfl⟩ | ⟨reading, _, _, hreading, htodo', hfed, hdeadline⟩
      · rw [step_of_more htodo (Or.inl rfl) (Framed.read_idle kind hidle now)]
        refine ⟨[], h.begin_read htodo now, Or.inl ?_⟩
        simp [burden, hidle, Inbound.start, Framed.toRead]
      · exact h.go_on hreading htodo' hfed hdeadline now

/-- A reader that has settled has come to its goal. -/
theorem settled (h : Heads limit patience goal r taken) (hsettled : r.Settled) :
    goal = ⟨r.results, r.todo, r.codec.inflow⟩ := by
  have hcomes := h.comes
  rcases h.reading with ⟨hidle, rfl⟩ | ⟨reading, kind, todo, hreading, htodo, hfed, hdeadline⟩
  · rcases hsettled with hnil | ⟨_, reading, hreading, _⟩
    · rw [hnil] at hcomes ⊢
      simpa [Inflow.reads, Harvest.after, eq_comm] using hcomes
    · rw [hidle] at hreading
      cases hreading
  · rcases hsettled with hnil | ⟨hexhausted, reading', hreading', hnone⟩
    · rw [htodo] at hnil
      cases hnil
    · obtain rfl := Option.some.inj (hreading.symm.trans hreading')
      have hwaits : (r.codec.inflow.prepend taken).read limit kind = none := by
        rw [hexhausted.inflow, Inflow.dry, Inflow.prepend_mk, Inflow.read_of_more hfed]
        rfl
      rw [hnone, Option.isNone_none] at hdeadline
      rw [htodo, Inflow.reads, hwaits, ← hdeadline, if_pos rfl] at hcomes
      rw [← hcomes, hexhausted.inflow, htodo]
      simp [Harvest.after]

end Heads

/-- More attempts change nothing then. -/
theorem Settled.step {r : Reader} (h : r.Settled) (now : Nat) : r.step now = r := by
  cases htodo : r.todo with
  | nil => exact step_of_nil htodo
  | cons kind todo =>
      rcases h with hnil | hever
      · rw [htodo] at hnil
        cases hnil
      · rw [step_of_more htodo (Or.inr rfl) (hever.read kind now)]

theorem Settled.run {clock : Nat → Nat} {r : Reader} {n : Nat} (h : (r.run clock n).Settled)
    {m : Nat} (hm : n ≤ m) : r.run clock m = r.run clock n := by
  induction m, hm using Nat.le_induction with
  | base => rfl
  | succ m _ ih => rw [Reader.run, ih, h.step]

theorem heads_run {f : Framed Script} (hidle : f.inbound.reading = none)
    (hcalm : f.inbound.patience = none ∨ Incoming.Prompt f.link.incoming)
    (kinds : List ReadKind) (clock : Nat → Nat) (n : Nat) :
    ∃ taken, Heads f.inbound.limit f.inbound.patience
      (f.inflow.reads f.inbound.limit f.inbound.patience.isNone kinds)
      (run clock { codec := f, todo := kinds } n) taken := by
  induction n with
  | zero => exact ⟨[], rfl, rfl, hcalm, rfl, Or.inl ⟨hidle, rfl⟩⟩
  | succ n ih =>
      obtain ⟨taken, h⟩ := ih
      obtain ⟨taken, hnext, -⟩ := h.step (clock n)
      exact ⟨taken, hnext⟩

/-- However what there is to read is cut into pieces, and whenever the attempts to
read it are made: if time goes on without end, the reads come to what they come
to on all of it. -/
theorem exists_harvest {f : Framed Script} (hidle : f.inbound.reading = none)
    (hcalm : f.inbound.patience = none ∨ Incoming.Prompt f.link.incoming)
    (kinds : List ReadKind) {clock : Nat → Nat}
    (hclock : ∀ time, ∃ n, ∀ m ≥ n, time ≤ clock m) :
    ∃ n, ∀ m ≥ n, ∀ r : Reader, r = run clock { codec := f, todo := kinds } m →
      f.inflow.reads f.inbound.limit f.inbound.patience.isNone kinds =
        ⟨r.results, r.todo, r.codec.inflow⟩ := by
  have hheads := heads_run hidle hcalm kinds clock
  have hsettles : ∃ n, (run clock { codec := f, todo := kinds } n).Settled := by
    by_contra hnever
    push Not at hnever
    refine Framed.not_forever
      (fun n => (run clock { codec := f, todo := kinds } n).codec.WaitsUntil)
      (fun n => (run clock { codec := f, todo := kinds } n).burden) clock hclock fun n => ?_
    obtain ⟨_, h⟩ := hheads n
    obtain ⟨_, -, hmoves⟩ := h.step (clock n)
    rcases hmoves with hless | hsettled | hwaits
    · exact Or.inl hless
    · exact absurd hsettled (hnever (n + 1))
    · exact Or.inr hwaits
  obtain ⟨n, hn⟩ := hsettles
  refine ⟨n, ?_⟩
  rintro m hm _ rfl
  rw [hn.run hm]
  obtain ⟨_, h⟩ := hheads n
  exact h.settled hn

end Reader

end Switchboard
