import Switchboard.Proofs.Frame.OneShot

/-!
# Reads do not depend on how the octets come

A stream of octets comes in pieces, with silences in between, and ends. A
`Reader` makes one read after the other on it. What it has read at any moment is
what `oneShots` reads from the whole stream, and what it has not read is what
`oneShots` leaves (`Follows`). It gets through all its reads: every attempt
either has less to do afterwards (`burden`) or waits for the end of a silence,
and no silence lasts for ever (`not_forever`).
-/

namespace Switchboard

/-! ## A stream that ends -/

namespace Incoming

/-- The stream ends, and no attempt to read it fails. -/
structure EndsWell (incoming : List Incoming) : Prop where
  ended : .ended ∈ incoming
  calm : ∀ error, .failure error ∉ incoming

/-- What is left to do with the events: every octet is to be read, a silence is
to begin and to end, and a failure is to be met. -/
def burden : List Incoming → Nat
  | [] => 0
  | .data octets :: rest => octets.length + burden rest
  | .wait _ :: rest => 2 + burden rest
  | .silentUntil _ :: rest => 1 + burden rest
  | .failure _ :: rest => 1 + burden rest
  | .ended :: _ => 0

end Incoming

namespace Script

theorem burden_readFrom (want now : Nat) (incoming : List Incoming) :
    (readFrom want now incoming).1.octets.length +
      Incoming.burden (readFrom want now incoming).2 ≤ Incoming.burden incoming := by
  fun_induction readFrom want now incoming with
  | case1 => simp [Arrival.octets, Incoming.burden]
  | case2 rest ih => simpa [Incoming.burden] using ih
  | case3 x xs rest octets left =>
      have hlength : (octets.take want).length + left.length = (x :: xs).length := by
        rw [← List.length_append, List.take_append_drop]
      by_cases hleft : left.isEmpty
      · simp only [hleft, if_true, Arrival.octets, Incoming.burden]
        omega
      · simp only [hleft, Bool.false_eq_true, if_false, Arrival.octets, Incoming.burden]
        omega
  | case4 rest ih => exact Nat.le_trans ih (by simp [Incoming.burden])
  | case5 duration rest => simp [Arrival.octets, Incoming.burden]
  | case6 time rest htime ih => exact Nat.le_trans ih (by simp [Incoming.burden])
  | case7 time rest htime => simp [Arrival.octets]
  | case8 error rest => simp [Arrival.octets, Incoming.burden]
  | case9 rest => simp [Arrival.octets]

/-- A failure that is met is not met again. -/
theorem burden_of_failed {want now : Nat} {incoming : List Incoming} {error : IoError}
    (h : (readFrom want now incoming).1 = .failed error) :
    Incoming.burden (readFrom want now incoming).2 < Incoming.burden incoming := by
  fun_induction readFrom want now incoming with
  | case1 => cases h
  | case2 rest ih => simpa [Incoming.burden] using ih h
  | case3 => cases h
  | case4 rest ih => exact Nat.lt_of_lt_of_le (ih h) (by simp [Incoming.burden])
  | case5 => cases h
  | case6 time rest htime ih => exact Nat.lt_of_lt_of_le (ih h) (by simp [Incoming.burden])
  | case7 => cases h
  | case8 error rest => simp [Incoming.burden]
  | case9 => cases h

theorem ended_readFrom (want now : Nat) {incoming : List Incoming} (h : .ended ∈ incoming) :
    .ended ∈ (readFrom want now incoming).2 := by
  fun_induction readFrom want now incoming with
  | case1 => cases h
  | case2 rest ih => exact ih (by simpa using h)
  | case3 x xs rest octets left =>
      have hrest : .ended ∈ rest := by simpa using h
      by_cases hleft : left.isEmpty <;> simp [hleft, hrest]
  | case4 rest ih => exact ih (by simpa using h)
  | case5 duration rest => simpa using h
  | case6 time rest htime ih => exact ih (by simpa using h)
  | case7 time rest htime => exact h
  | case8 error rest => simpa using h
  | case9 rest => exact h

/-- An attempt that finds nothing has met a silence, or there is nothing at
all. -/
theorem silent_or_nil {want now : Nat} {incoming : List Incoming}
    (h : (readFrom want now incoming).1 = .nothing) :
    (∃ time rest, now < time ∧ (readFrom want now incoming).2 = .silentUntil time :: rest) ∨
      (readFrom want now incoming).2 = [] := by
  fun_induction readFrom want now incoming with
  | case1 => exact Or.inr rfl
  | case2 rest ih => exact ih h
  | case3 => cases h
  | case4 rest ih => exact ih h
  | case5 duration rest hpos =>
      exact Or.inl ⟨_, _, Nat.lt_add_of_pos_right (Nat.pos_of_ne_zero hpos), rfl⟩
  | case6 time rest htime ih => exact ih h
  | case7 time rest htime => exact Or.inl ⟨time, rest, Nat.not_le.mp htime, rfl⟩
  | case8 => cases h
  | case9 => cases h

/-- An attempt that finds nothing on a stream that ends has met a silence. -/
theorem silent_of_nothing {want now : Nat} {incoming : List Incoming} (hended : .ended ∈ incoming)
    (h : (readFrom want now incoming).1 = .nothing) :
    ∃ time rest, now < time ∧ (readFrom want now incoming).2 = .silentUntil time :: rest := by
  rcases silent_or_nil h with hsilent | hnil
  · exact hsilent
  · have hleft := ended_readFrom want now hended
    rw [hnil] at hleft
    cases hleft

/-- A silence that has begun is over, or it goes on. -/
theorem still_readFrom (want now time : Nat) (rest : List Incoming) :
    Incoming.burden (readFrom want now (.silentUntil time :: rest)).2 <
        Incoming.burden (.silentUntil time :: rest) ∨
      readFrom want now (.silentUntil time :: rest) = (.nothing, .silentUntil time :: rest) := by
  by_cases htime : time ≤ now
  · left
    have hburden := burden_readFrom want now rest
    rw [readFrom, if_pos htime, Incoming.burden]
    omega
  · right
    rw [readFrom, if_neg htime]

end Script

theorem Progress.feed_start_nil (limit : Nat) (kind : ReadKind) :
    (start kind).feed limit [] = .more (start kind) := by
  cases kind <;> rfl

/-- A read that is done leaves the end of what it was given, and if anything is
wrong with octets, it is that they are no frame or line. -/
theorem Progress.invalid_of_done {limit : Nat} {octets rest : Octets}
    {result : Except LinkError Received} {p : Progress}
    (h : p.feed limit octets = .done result rest) :
    rest <:+ octets ∧ ∀ error, result = .error error → ∃ fault, error = .invalidFrame fault := by
  cases p with
  | length skip seen =>
      rw [feed, feedLength_eq] at h
      split at h
      · cases h
      · obtain ⟨_, used, hused, hend⟩ := feedAnnounced_of_done h []
        refine ⟨⟨octets.take (4 - seen.length) ++ used, ?_⟩, ?_⟩
        · rw [List.append_assoc, ← hused, List.take_append_drop]
        · rintro error herror
          rcases hend with ⟨_, _, hresult⟩ | ⟨_, _, hresult⟩
          · cases hresult.symm.trans herror
            exact ⟨_, rfl⟩
          · cases hresult.symm.trans herror
  | payload seen need =>
      obtain ⟨_, used, rfl, _, rfl⟩ := feedPayload_of_done h []
      exact ⟨List.suffix_append used rest, by simp⟩
  | skipping need =>
      obtain ⟨_, used, rfl, _, rfl⟩ := feedSkipping_of_done h []
      exact ⟨List.suffix_append used rest, by simp⟩
  | line seen =>
      simp only [feed, feedLine] at h
      split at h
      · obtain ⟨rfl, rfl⟩ := Fed.done.inj h
        refine ⟨List.drop_suffix _ _, ?_⟩
        intro error herror
        cases hdecode : Utf8.decode (Octets.toBytes (lineBody
            (seen ++ (octets.take (maxLine - seen.length)).takeWhile (· != newline)))) with
        | ok text =>
            rw [lineText_ok hdecode] at herror
            cases herror
        | error fault =>
            rw [lineText_error hdecode] at herror
            cases herror
            exact ⟨_, rfl⟩
      · split at h
        · cases h
        · cases h
          exact ⟨List.drop_suffix _ _, fun error herror => by cases herror; exact ⟨_, rfl⟩⟩

/-! ## An attempt -/

namespace Framed

/-- What is left to read. -/
def toRead (f : Framed Script) : Nat :=
  f.inbound.buffer.length + Incoming.burden f.link.incoming

/-- There is nothing to read until then. -/
def SilentUntil (time : Nat) (f : Framed Script) : Prop :=
  f.inbound.buffer = [] ∧ ∃ rest, f.link.incoming = .silentUntil time :: rest

/-- What an attempt to go on with a read comes to, on a stream that ends. -/
inductive Attempt (f : Framed Script) (now : Nat) (r : Reading) :
    Poll (Except LinkError Received) → Framed Script → Prop where
  | more {f' : Framed Script} (got : Octets) (progress : Progress)
      (hfed : r.progress.feed f.inbound.limit got = .more progress)
      (hunread : f.unread [] = got ++ f'.unread [])
      (hreading : f'.inbound.reading = some { r with progress }) (hless : f'.toRead < f.toRead) :
      Attempt f now r .again f'
  | done {f' : Framed Script} (got rest later : Octets) (result : Except LinkError Received)
      (hfed : r.progress.feed f.inbound.limit got = .done result rest)
      (hunread : f.unread [] = got ++ later) (hleft : f'.unread [] = rest ++ later)
      (hreading : f'.inbound.reading = none) (hle : f'.toRead ≤ f.toRead) :
      Attempt f now r (.done result) f'
  | ended {f' : Framed Script} (hunread : f.unread [] = []) (hleft : f'.unread [] = [])
      (hreading : f'.inbound.reading = none) (hle : f'.toRead ≤ f.toRead) :
      Attempt f now r (.done (.error r.progress.onEnd)) f'
  | overdue {f' : Framed Script} (hdue : r.deadline.isSome)
      (hreading : f'.inbound.reading = none) (hle : f'.toRead ≤ f.toRead) :
      Attempt f now r (.done (.error (.timeout .receive))) f'
  /-- A silence goes on, or another one has begun. -/
  | silent {f' : Framed Script} (time : Nat) (hnow : now < time) (hsame : f'.inbound = f.inbound)
      (hunread : f'.unread [] = f.unread []) (hsilent : f'.SilentUntil time)
      (hle : f'.toRead ≤ f.toRead)
      (hstill : f'.toRead < f.toRead ∨ ∀ other, f.SilentUntil other → time = other) :
      Attempt f now r .blocked f'

section Attempt

variable {f f' : Framed Script} {now : Nat} {r : Reading}
  {poll : Poll (Except LinkError Received)}

theorem toRead_of_gets {octets : Octets} {link : Script}
    (hgets : f.inbound.Gets .near now r f.link octets link) :
    octets.length + Incoming.burden link.incoming ≤ f.toRead := by
  cases hgets with
  | buffered => exact Nat.le_refl _
  | arrived hbuffer hread =>
      obtain ⟨incoming, hfound, rfl⟩ := Script.exists_incoming hread
      have hburden := Script.burden_readFrom r.progress.want now f.link.incoming
      rw [hfound] at hburden
      rw [toRead, hbuffer, List.length_nil, Nat.zero_add]
      exact hburden

/-- Where no octets are found, no more is left than there was. -/
theorem toRead_of_nothing {want : Nat} {arrival : Arrival} {inbound : Inbound} {link : Script}
    (hbuffer : f.inbound.buffer = [])
    (hread : Link.read .near want now f.link = (arrival, link)) (hempty : inbound.buffer = []) :
    toRead { f with inbound, link } ≤ f.toRead := by
  obtain ⟨incoming, hfound, rfl⟩ := Script.exists_incoming hread
  have hburden := Script.burden_readFrom want now f.link.incoming
  rw [hfound] at hburden
  rw [toRead, toRead, hbuffer, hempty, List.length_nil, Nat.zero_add, Nat.zero_add]
  exact Nat.le_trans (Nat.le_add_left _ _) hburden

/-- A silence that has begun is over, or it goes on. -/
theorem still_of_nothing {want : Nat} {link : Script} (hbuffer : f.inbound.buffer = [])
    (hread : Link.read .near want now f.link = (.nothing, link)) :
    toRead { f with link } < f.toRead ∨
      ∀ other, f.SilentUntil other → link.incoming = f.link.incoming := by
  obtain ⟨incoming, hfound, rfl⟩ := Script.exists_incoming hread
  by_cases hsilent : ∃ other, f.SilentUntil other
  · obtain ⟨other, -, rest, heq⟩ := hsilent
    have hstill := Script.still_readFrom want now other rest
    rw [← heq, hfound] at hstill
    rcases hstill with hless | hsame
    · left
      rw [toRead, toRead, hbuffer]
      simpa using hless
    · exact .inr fun _ _ => (Prod.mk.inj hsame).2
  · exact .inr fun other hother => absurd ⟨other, hother⟩ hsilent

/-- What an attempt to go on with a read can come to. -/
theorem attempt_read (kind : ReadKind) (hreading : f.inbound.reading = some r)
    (hends : Incoming.EndsWell f.link.incoming) (now : Nat) :
    Attempt f now r (f.read kind now).1 (f.read kind now).2 := by
  have hstep := Inbound.step_cases .near now hreading f.link
  rw [read_going _ hreading]
  generalize f.inbound.step .near now f.link = stepped at hstep
  obtain ⟨poll, inbound, link⟩ := stepped
  dsimp only at hstep ⊢
  have hcalm {error : IoError}
      (hread : Link.read .near r.progress.want now f.link = (.failed error, link)) : False := by
    obtain ⟨incoming, hfound, rfl⟩ := Script.exists_incoming hread
    exact hends.calm error (Script.failure_of_readFrom (.inl (congrArg Prod.fst hfound)))
  cases hstep with
  | @goes got progress _ hgets hfed =>
      have hpos := pos_of_gets hgets
      have hburden := toRead_of_gets hgets
      refine .more got progress hfed ((took_of_gets hgets (List.append_nil _).symm).unread []) rfl ?_
      rw [toRead, List.length_nil]
      dsimp only
      omega
  | @done got rest result _ hgets hfed =>
      have hburden := toRead_of_gets hgets
      have hrest := (Progress.invalid_of_done hfed).1.length_le
      have htook : f.Took [] { f with inbound := { f.inbound with buffer := got }, link } :=
        took_of_gets hgets rfl
      refine .done got rest (Incoming.octets (link.incoming ++ [])) result hfed (htook.unread []) rfl
        rfl ?_
      rw [toRead]
      dsimp only
      omega
  | ended hbuffer hread =>
      have htook : f.Took [] { f with inbound := f.inbound.cancel, link } :=
        took_of_nothing hbuffer hread rfl hbuffer
      have hend : f.unread [] = [] := by
        obtain ⟨incoming, hfound, rfl⟩ := Script.exists_incoming hread
        rw [unread, hbuffer]
        exact Script.octets_of_ended (congrArg Prod.fst hfound) []
      exact .ended hend ((htook.unread []).symm.trans hend) rfl
        (toRead_of_nothing hbuffer hread hbuffer)
  | interrupted _ hread => exact (hcalm hread).elim
  | failed _ hread => exact (hcalm hread).elim
  | late hbuffer hread hdeadline =>
      exact .overdue (by rw [hdeadline]; rfl) rfl (toRead_of_nothing hbuffer hread hbuffer)
  | waits hbuffer hread =>
      have htook : f.Took [] { f with link } := took_of_nothing hbuffer hread rfl hbuffer
      have hle : toRead { f with link } ≤ f.toRead := toRead_of_nothing hbuffer hread hbuffer
      have hstill := still_of_nothing hbuffer hread
      obtain ⟨incoming, hfound, rfl⟩ := Script.exists_incoming hread
      have hsilent := Script.silent_of_nothing hends.ended (congrArg Prod.fst hfound)
      rw [hfound] at hsilent
      obtain ⟨time, rest, hnow, rfl⟩ := hsilent
      refine .silent time hnow rfl (htook.unread []).symm ⟨hbuffer, rest, rfl⟩ hle ?_
      refine hstill.imp_right fun hsame other hother => ?_
      obtain ⟨-, left, heq⟩ := id hother
      obtain ⟨htime, -⟩ := List.cons.inj ((hsame other hother).trans heq)
      exact Incoming.silentUntil.inj htime

/-- What an attempt comes to for a read that is to be made of these octets: it
goes on with a part of them consumed, or it is over with what the parser makes of
them. -/
inductive Parsing (limit : Nat) (kind : ReadKind) (octets : Octets) (r : Reading) :
    Poll (Except LinkError Received) → Framed Script → Prop where
  | going {poll : Poll (Except LinkError Received)} {f' : Framed Script} (taken : Octets)
      (progress : Progress) (hpoll : poll = .again ∨ poll = .blocked)
      (hreading : f'.inbound.reading = some { r with progress })
      (hfed : (Progress.start kind).feed limit taken = .more progress)
      (hall : taken ++ f'.unread [] = octets) : Parsing limit kind octets r poll f'
  | parsed {f' : Framed Script} (result : Except LinkError Received)
      (hreading : f'.inbound.reading = none)
      (hparse : oneShot limit kind octets = (result, f'.unread [])) :
      Parsing limit kind octets r (.done result) f'
  | late {f' : Framed Script} (hdue : r.deadline.isSome) (hreading : f'.inbound.reading = none) :
      Parsing limit kind octets r (.done (.error (.timeout .receive))) f'

theorem Attempt.parsing (h : Attempt f now r poll f') {kind : ReadKind} {taken : Octets}
    (hreading : f.inbound.reading = some r)
    (hfed : (Progress.start kind).feed f.inbound.limit taken = .more r.progress) :
    Parsing f.inbound.limit kind (taken ++ f.unread []) r poll f' := by
  cases h with
  | more got progress hgot hunread hgoing =>
      refine .going (taken ++ got) progress (.inl rfl) hgoing ?_ ?_
      · rw [Progress.feed_start_of_more hfed, hgot]
      · rw [hunread, List.append_assoc]
  | done got rest later result hgot hunread hleft hover =>
      have hdone : (Progress.start kind).feed f.inbound.limit (taken ++ got) =
          .done result rest := by
        rw [Progress.feed_start_of_more hfed, hgot]
      refine .parsed result hover ?_
      rw [hunread, hleft, ← List.append_assoc]
      exact Progress.oneShot_of_done (Progress.feed_start_of_done hdone later)
  | ended hunread hleft hover =>
      refine .parsed _ hover ?_
      rw [hunread, hleft, List.append_nil]
      exact Progress.oneShot_of_more hfed
  | overdue hdue hover => exact .late hdue hover
  | silent time hnow hsame hunread =>
      refine .going taken r.progress (.inr rfl) ?_ hfed (by rw [hunread])
      rw [hsame]
      exact hreading

theorem settings_read (kind : ReadKind) (now : Nat) (f : Framed Script) :
    (f.read kind now).2.inbound.limit = f.inbound.limit ∧
      (f.read kind now).2.inbound.patience = f.inbound.patience := by
  cases hreading : f.inbound.reading with
  | none =>
      rw [read_idle _ hreading]
      exact ⟨rfl, rfl⟩
  | some r =>
      rw [read_going _ hreading]
      exact (Inbound.step_cases .near now hreading f.link).settings

theorem incoming_read (kind : ReadKind) (now : Nat) (f : Framed Script) :
    (f.read kind now).2.link.incoming = f.link.incoming ∨
      ∃ want, (f.read kind now).2.link.incoming =
        (Script.readFrom want now f.link.incoming).2 := by
  cases hreading : f.inbound.reading with
  | none =>
      rw [read_idle _ hreading]
      exact Or.inl rfl
  | some r =>
      rw [read_going _ hreading]
      exact (Inbound.step_cases .near now hreading f.link).keeps
        (P := fun link => link.incoming = f.link.incoming ∨
          ∃ want, link.incoming = (Script.readFrom want now f.link.incoming).2)
        (Or.inl rfl) fun want _ => Or.inr ⟨want, rfl⟩

theorem endsWell_read (kind : ReadKind) (now : Nat) (h : Incoming.EndsWell f.link.incoming) :
    Incoming.EndsWell (f.read kind now).2.link.incoming := by
  rcases incoming_read kind now f with hsame | ⟨want, hread⟩
  · rw [hsame]
    exact h
  · rw [hread]
    exact ⟨Script.ended_readFrom want now h.ended,
      fun error hmem => h.calm error (Script.failure_of_readFrom (.inr hmem))⟩

end Attempt

/-- If time goes on without end, attempts cannot go on for ever that each have
less to do afterwards or wait for a time that is still to come: there would be a
moment from which on nothing gets less, and then a wait without end. -/
theorem not_forever (waits : Nat → Nat → Prop) (burden clock : Nat → Nat)
    (hclock : ∀ time, ∃ n, ∀ m ≥ n, time ≤ clock m)
    (hstep : ∀ n, burden (n + 1) < burden n ∨
      burden (n + 1) ≤ burden n ∧ ∃ time, clock n < time ∧ waits (n + 1) time ∧
        ∀ other, waits n other → time = other) : False := by
  obtain ⟨start, -, hleast⟩ := (measure burden).wf.has_min Set.univ ⟨0, trivial⟩
  have hleast' (n : Nat) : burden start ≤ burden n := Nat.not_lt.mp (hleast n trivial)
  have hlevel (n : Nat) (hn : start ≤ n) : burden n = burden start := by
    induction n, hn using Nat.le_induction with
    | base => rfl
    | succ n _ ih =>
        have hnext := hleast' (n + 1)
        rcases hstep n with hless | ⟨hle, _⟩
        · exact Nat.le_antisymm (ih ▸ Nat.le_of_lt hless) hnext
        · exact Nat.le_antisymm (ih ▸ hle) hnext
  have hwaits (n : Nat) (hn : start ≤ n) :
      ∃ time, clock n < time ∧ waits (n + 1) time ∧ ∀ other, waits n other → time = other := by
    rcases hstep n with hless | ⟨_, hwait⟩
    · have hsame := (hlevel (n + 1) (Nat.le_succ_of_le hn)).trans (hlevel n hn).symm
      exact absurd hsame (Nat.ne_of_lt hless)
    · exact hwait
  obtain ⟨time, -, hbegun, -⟩ := hwaits start (Nat.le_refl start)
  have hstays (n : Nat) (hn : start + 1 ≤ n) : waits n time := by
    induction n, hn using Nat.le_induction with
    | base => exact hbegun
    | succ n hn ih =>
        obtain ⟨_, -, hnext, hsame⟩ := hwaits n (Nat.le_of_succ_le hn)
        rw [hsame time ih] at hnext
        exact hnext
  obtain ⟨late, hlate⟩ := hclock time
  have hafter := hstays (max late (start + 1)) (Nat.le_max_right _ _)
  obtain ⟨_, hnow, -, hsame⟩ := hwaits (max late (start + 1))
    (Nat.le_trans (Nat.le_succ start) (Nat.le_max_right _ _))
  rw [hsame time hafter] at hnow
  exact Nat.not_lt.mpr (hlate _ (Nat.le_max_left _ _)) hnow

end Framed

/-! ## A program of reads -/

/-- Someone who makes one read after the other on a connection. -/
structure Reader where
  codec : Framed Script
  /-- The reads that are not over. The first one may be under way. -/
  todo : List ReadKind
  /-- What the reads gave that are over, oldest first. -/
  results : List (Except LinkError Received) := []

namespace Reader

/-- One attempt to get on. -/
def step (now : Nat) (r : Reader) : Reader :=
  match r.todo with
  | [] => r
  | kind :: todo =>
      match r.codec.read kind now with
      | (.done result, codec) => { codec, todo, results := r.results ++ [result] }
      | (.again, codec) | (.blocked, codec) => { r with codec }

/-- So many attempts, made at the times that the clock shows. -/
def run (clock : Nat → Nat) (r : Reader) : Nat → Reader
  | 0 => r
  | n + 1 => (r.run clock n).step (clock n)

/-- No read was given up because it took too long. -/
def InTime (r : Reader) : Prop := .error (.timeout .receive) ∉ r.results

section Step

variable {r : Reader} {kind : ReadKind} {todo : List ReadKind} {now : Nat}
  {codec : Framed Script}

theorem step_of_nil (h : r.todo = []) : r.step now = r := by
  simp [step, h]

theorem step_of_done (htodo : r.todo = kind :: todo) {result : Except LinkError Received}
    (h : r.codec.read kind now = (.done result, codec)) :
    r.step now = { codec, todo, results := r.results ++ [result] } := by
  simp [step, htodo, h]

theorem step_of_more (htodo : r.todo = kind :: todo) {poll : Poll (Except LinkError Received)}
    (hpoll : poll = .again ∨ poll = .blocked) (h : r.codec.read kind now = (poll, codec)) :
    r.step now = { r with codec } := by
  rcases hpoll with rfl | rfl <;> simp [step, htodo, h]

end Step

/-! ## What was read is what the whole stream has -/

/-- The reader has made the reads `past` and is in the middle of another one that
has consumed `taken`: all as if it had had the whole stream from the beginning. -/
structure Follows (limit : Nat) (kinds : List ReadKind) (octets : Octets) (r : Reader)
    (past : List ReadKind) (taken : Octets) : Prop where
  bound : r.codec.inbound.limit = limit
  split : kinds = past ++ r.todo
  parsed : oneShots limit past octets = (r.results, taken ++ r.codec.unread [])
  reading : (r.codec.inbound.reading = none ∧ taken = []) ∨
    ∃ reading kind todo, r.codec.inbound.reading = some reading ∧ r.todo = kind :: todo ∧
      (Progress.start kind).feed limit taken = .more reading.progress

namespace Follows

variable {limit : Nat} {kinds past : List ReadKind} {octets taken : Octets} {r : Reader}

/-- A read is over, and what it gave is what it had to give. -/
theorem finish (h : Follows limit kinds octets r past taken) {kind : ReadKind}
    {todo : List ReadKind} (htodo : r.todo = kind :: todo) {codec : Framed Script}
    {result : Except LinkError Received} (hlimit : codec.inbound.limit = limit)
    (hreading : codec.inbound.reading = none)
    (hparse : oneShot limit kind (taken ++ r.codec.unread []) = (result, codec.unread [])) :
    Follows limit kinds octets { codec, todo, results := r.results ++ [result] }
      (past ++ [kind]) [] where
  bound := hlimit
  split := by rw [h.split, htodo, List.append_assoc]; rfl
  parsed := oneShots_append_singleton h.parsed hparse
  reading := Or.inl ⟨hreading, rfl⟩

theorem step (h : Follows limit kinds octets r past taken)
    (hends : Incoming.EndsWell r.codec.link.incoming) {now : Nat} (htime : (r.step now).InTime) :
    ∃ past taken, Follows limit kinds octets (r.step now) past taken := by
  cases htodo : r.todo with
  | nil =>
      rw [step_of_nil htodo]
      exact ⟨past, taken, h⟩
  | cons kind todo =>
      have hkept := (Framed.settings_read kind now r.codec).1
      rcases h.reading with ⟨hidle, rfl⟩ | ⟨reading, kind', todo', hreading, htodo', hfed⟩
      · -- The read begins.
        rw [step_of_more htodo (Or.inl rfl) (Framed.read_idle kind hidle now)]
        exact ⟨past, [], h.bound, h.split, h.parsed,
          Or.inr ⟨_, kind, todo, rfl, htodo, Progress.feed_start_nil limit kind⟩⟩
      · obtain ⟨rfl, rfl⟩ : kind = kind' ∧ todo = todo' := by
          rw [htodo] at htodo'
          exact List.cons.inj htodo'
        rw [← h.bound] at hfed
        have hparsing := (Framed.attempt_read kind hreading hends now).parsing hreading hfed
        generalize hread : r.codec.read kind now = read at hparsing hkept
        obtain ⟨poll, codec⟩ := read
        dsimp only at hparsing hkept
        rw [h.bound] at hkept hparsing
        cases hparsing with
        | going taken' progress hpoll hgoing hfed' hall =>
            rw [step_of_more htodo hpoll hread]
            refine ⟨past, taken', hkept, h.split, ?_, Or.inr ⟨_, kind, todo, hgoing, htodo, hfed'⟩⟩
            rw [h.parsed, hall]
        | parsed result hover hparse =>
            rw [step_of_done htodo hread]
            exact ⟨_, _, h.finish htodo hkept hover hparse⟩
        | late =>
            rw [step_of_done htodo hread, InTime] at htime
            simp at htime

end Follows

section Run

variable {r : Reader} {clock : Nat → Nat}

theorem endsWell_step (now : Nat) (h : Incoming.EndsWell r.codec.link.incoming) :
    Incoming.EndsWell (r.step now).codec.link.incoming := by
  unfold step
  split
  · exact h
  · rename_i kind todo _
    have hread := Framed.endsWell_read kind now h
    generalize r.codec.read kind now = read at hread
    obtain ⟨poll, codec⟩ := read
    cases poll <;> exact hread

theorem endsWell_run (h : Incoming.EndsWell r.codec.link.incoming) (n : Nat) :
    Incoming.EndsWell (r.run clock n).codec.link.incoming := by
  induction n with
  | zero => exact h
  | succ n ih => exact endsWell_step _ ih

/-- What was too late once stays in the results. -/
theorem inTime_of_step {now : Nat} (h : (r.step now).InTime) : r.InTime := by
  unfold step at h
  split at h
  · exact h
  · split at h
    · exact fun hmem => h (List.mem_append_left _ hmem)
    · exact h
    · exact h

theorem follows_run {kinds : List ReadKind} {f : Framed Script} (hidle : f.inbound.reading = none)
    (hends : Incoming.EndsWell f.link.incoming) {n : Nat}
    (htime : (run clock { codec := f, todo := kinds } n).InTime) :
    ∃ past taken, Follows f.inbound.limit kinds (f.unread [])
      (run clock { codec := f, todo := kinds } n) past taken := by
  induction n with
  | zero => exact ⟨[], [], rfl, rfl, rfl, Or.inl ⟨hidle, rfl⟩⟩
  | succ n ih =>
      obtain ⟨_, _, h⟩ := ih (inTime_of_step htime)
      exact h.step (endsWell_run hends n) htime

end Run

/-! ## Time -/

/-- No read has to be over at any time, and none was too late. -/
structure Patient (r : Reader) : Prop where
  patience : r.codec.inbound.patience = none
  deadline : ∀ reading, r.codec.inbound.reading = some reading → reading.deadline = none
  inTime : r.InTime

theorem Patient.step {r : Reader} (h : r.Patient)
    (hends : Incoming.EndsWell r.codec.link.incoming) (now : Nat) : (r.step now).Patient := by
  cases htodo : r.todo with
  | nil =>
      rw [step_of_nil htodo]
      exact h
  | cons kind todo =>
      have hpatience := (Framed.settings_read kind now r.codec).2.trans h.patience
      cases hreading : r.codec.inbound.reading with
      | none =>
          rw [step_of_more htodo (Or.inl rfl) (Framed.read_idle kind hreading now)]
          refine ⟨h.patience, ?_, h.inTime⟩
          intro reading hbegun
          obtain rfl := Option.some.inj hbegun
          simp [h.patience]
      | some reading =>
          have hdeadline := h.deadline reading hreading
          have hattempt := Framed.attempt_read kind hreading hends now
          generalize hread : r.codec.read kind now = read at hattempt hpatience
          obtain ⟨poll, codec⟩ := read
          dsimp only at hattempt hpatience
          have hdone {result : Except LinkError Received} (hpoll : poll = .done result)
              (hover : codec.inbound.reading = none)
              (hresult : result ≠ .error (.timeout .receive)) : (r.step now).Patient := by
            rw [step_of_done htodo (hpoll ▸ hread)]
            refine ⟨hpatience, by simp [hover], ?_⟩
            simp only [InTime, List.mem_append, List.mem_singleton, not_or]
            exact ⟨h.inTime, hresult.symm⟩
          cases hattempt with
          | more got progress _ _ hgoing =>
              rw [step_of_more htodo (Or.inl rfl) hread]
              refine ⟨hpatience, ?_, h.inTime⟩
              intro other hother
              obtain rfl := Option.some.inj (hgoing.symm.trans hother)
              exact hdeadline
          | done got rest later result hgot _ _ hover =>
              refine hdone rfl hover fun hlate => ?_
              obtain ⟨_, hfault⟩ := (Progress.invalid_of_done hgot).2 _ hlate
              cases hfault
          | ended _ _ hover =>
              refine hdone rfl hover ?_
              unfold Progress.onEnd
              split <;> simp
          | overdue hdue =>
              rw [hdeadline] at hdue
              cases hdue
          | silent time _ hsame =>
              rw [step_of_more htodo (Or.inr rfl) hread]
              refine ⟨hpatience, ?_, h.inTime⟩
              rw [hsame]
              exact h.deadline

/-- Where reads may take as long as they like, none is too late. -/
theorem inTime_run {kinds : List ReadKind} {clock : Nat → Nat} {f : Framed Script}
    (hidle : f.inbound.reading = none) (hends : Incoming.EndsWell f.link.incoming)
    (hpatience : f.inbound.patience = none) (n : Nat) :
    (run clock { codec := f, todo := kinds } n).InTime := by
  have hpatient : (run clock { codec := f, todo := kinds } n).Patient := by
    induction n with
    | zero => exact ⟨hpatience, by simp [run, hidle], by simp [run, InTime]⟩
    | succ n ih => exact ih.step (endsWell_run hends n) _
  exact hpatient.inTime

/-! ## All reads come to an end -/

/-- What is left to do. -/
def burden (r : Reader) : Nat :=
  2 * r.todo.length + (if r.codec.inbound.reading.isNone then 1 else 0) + r.codec.toRead

section Burden

variable {r : Reader} {clock : Nat → Nat}

/-- With one read less to do, the reader has less to do. -/
theorem burden_of_over {kind : ReadKind} {todo : List ReadKind} (htodo : r.todo = kind :: todo)
    {reading : Reading} (hreading : r.codec.inbound.reading = some reading)
    {codec : Framed Script} (hover : codec.inbound.reading = none)
    (hle : codec.toRead ≤ r.codec.toRead) (results : List (Except LinkError Received)) :
    burden { codec, todo, results } < r.burden := by
  simp only [burden, htodo, hreading, hover, List.length_cons, Option.isNone_none,
    Option.isNone_some, if_true, Bool.false_eq_true, if_false]
  omega

/-- An attempt gets on, or it waits for the end of a silence. -/
theorem step_burden (htodo : r.todo ≠ []) (hends : Incoming.EndsWell r.codec.link.incoming)
    (now : Nat) :
    (r.step now).burden < r.burden ∨
      (r.step now).burden ≤ r.burden ∧ ∃ time, now < time ∧
        (r.step now).codec.SilentUntil time ∧
        ∀ other, r.codec.SilentUntil other → time = other := by
  obtain ⟨kind, todo, htodo⟩ := List.exists_cons_of_ne_nil htodo
  cases hreading : r.codec.inbound.reading with
  | none =>
      left
      rw [step_of_more htodo (Or.inl rfl) (Framed.read_idle kind hreading now)]
      simp [burden, hreading, Inbound.start, Framed.toRead]
  | some reading =>
      have hattempt := Framed.attempt_read kind hreading hends now
      generalize hread : r.codec.read kind now = read at hattempt
      obtain ⟨poll, codec⟩ := read
      dsimp only at hattempt
      have hdone {result : Except LinkError Received} (hpoll : poll = .done result)
          (hover : codec.inbound.reading = none) (hle : codec.toRead ≤ r.codec.toRead) :
          (r.step now).burden < r.burden := by
        rw [step_of_done htodo (hpoll ▸ hread)]
        exact burden_of_over htodo hreading hover hle _
      cases hattempt with
      | more got progress _ _ hgoing hless =>
          left
          rw [step_of_more htodo (Or.inl rfl) hread]
          simp only [burden, hreading, hgoing, Option.isNone_some]
          omega
      | done got rest later result _ _ _ hover hle => exact Or.inl (hdone rfl hover hle)
      | ended _ _ hover hle => exact Or.inl (hdone rfl hover hle)
      | overdue _ hover hle => exact Or.inl (hdone rfl hover hle)
      | silent time hnow hsame _ hsilent hle hstill =>
          rw [step_of_more htodo (Or.inr rfl) hread]
          simp only [burden, hsame]
          rcases hstill with hless | hstill
          · left
            omega
          · right
            exact ⟨by omega, time, hnow, hsilent, hstill⟩

/-- If time goes on without end, all reads come to an end. -/
theorem todo_of_clock (hends : Incoming.EndsWell r.codec.link.incoming)
    (hclock : ∀ time, ∃ n, ∀ m ≥ n, time ≤ clock m) : ∃ n, (r.run clock n).todo = [] := by
  by_contra hnever
  push Not at hnever
  exact Framed.not_forever (fun n => (r.run clock n).codec.SilentUntil)
    (fun n => (r.run clock n).burden) clock hclock
    fun n => step_burden (hnever n) (endsWell_run hends n) (clock n)

theorem run_of_nil {n : Nat} (h : (r.run clock n).todo = []) {m : Nat} (hm : n ≤ m) :
    r.run clock m = r.run clock n := by
  induction m, hm using Nat.le_induction with
  | base => rfl
  | succ m _ ih => rw [run, ih, step_of_nil h]

end Burden

/-! ## A whole run -/

/-- If time goes on without end, all reads come to an end, with what the parser
gives on the whole stream. -/
theorem exists_read_all {f : Framed Script} (hidle : f.inbound.reading = none)
    (hends : Incoming.EndsWell f.link.incoming) (kinds : List ReadKind) {clock : Nat → Nat}
    (hclock : ∀ time, ∃ n, ∀ m ≥ n, time ≤ clock m) :
    ∃ n, ∀ m ≥ n, ∀ r : Reader, r = run clock { codec := f, todo := kinds } m →
      r.todo = [] ∧ (r.InTime →
        oneShots f.inbound.limit kinds (f.unread []) = (r.results, r.codec.unread [])) := by
  obtain ⟨n, hn⟩ := todo_of_clock (r := { codec := f, todo := kinds }) hends hclock
  refine ⟨n, ?_⟩
  rintro m hm _ rfl
  rw [run_of_nil hn hm]
  refine ⟨hn, fun htime => ?_⟩
  obtain ⟨past, taken, h⟩ := follows_run hidle hends htime
  have hpast : kinds = past := by simpa [hn] using h.split
  rcases h.reading with ⟨-, rfl⟩ | ⟨_, _, _, _, htodo, -⟩
  · have hparsed := h.parsed
    rw [← hpast] at hparsed
    exact hparsed
  · rw [hn] at htodo
    cases htodo

/-- However a stream that ends is cut into pieces, with whatever silences in
between, and whenever the attempts to read it are made: as long as no read is too
late, the reads give at every moment what the parser gives on the whole stream,
and what is left is what the parser leaves; and if time goes on without end then
all reads come to an end. The parser reads what its rules say, and no read is too
late where reads may take as long as they like. -/
theorem reads_whole (f : Framed Script) (hidle : f.inbound.reading = none)
    (hends : Incoming.EndsWell f.link.incoming) (kinds : List ReadKind) (clock : Nat → Nat)
    (hclock : ∀ time, ∃ n, ∀ m ≥ n, time ≤ clock m) :
    (∀ kind octets result rest, oneShot f.inbound.limit kind octets = (result, rest) ↔
      Parses f.inbound.limit kind octets result rest) ∧
    (∀ n (r : Reader), r = run clock { codec := f, todo := kinds } n → r.InTime →
      ∃ past taken, kinds = past ++ r.todo ∧
        oneShots f.inbound.limit past (f.unread []) = (r.results, taken ++ r.codec.unread []) ∧
        (r.codec.inbound.reading = none → taken = [])) ∧
    (∃ n, ∀ m ≥ n, ∀ r : Reader, r = run clock { codec := f, todo := kinds } m →
      r.todo = [] ∧ (r.InTime →
        oneShots f.inbound.limit kinds (f.unread []) = (r.results, r.codec.unread []))) ∧
    (f.inbound.patience = none → ∀ n, (run clock { codec := f, todo := kinds } n).InTime) := by
  have hfollows (n : Nat) (htime : (run clock { codec := f, todo := kinds } n).InTime) :=
    follows_run hidle hends htime
  refine ⟨fun _ _ _ _ => oneShot_eq_iff, ?_, exists_read_all hidle hends kinds hclock,
    inTime_run hidle hends⟩
  rintro n _ rfl htime
  obtain ⟨past, taken, h⟩ := hfollows n htime
  refine ⟨past, taken, h.split, h.parsed, fun hnone => ?_⟩
  rcases h.reading with ⟨-, hnil⟩ | ⟨_, _, _, hsome, -⟩
  · exact hnil
  · rw [hnone] at hsome
    cases hsome

/-- A line, a frame and the beginning of another one, with cuts inside the line's
end, a length and a payload. -/
def inPieces : Framed Script :=
  { link :=
      { incoming := [.data [104, 105, 13], .wait 3, .data [10, 0, 0], .data [0, 2, 7], .wait 1,
          .data [8, 0, 0, 0, 9, 1], .ended] } }

theorem reads_whole_inPieces :
    (∃ n, ∀ m ≥ n, ∀ r : Reader,
      r = run id { codec := inPieces, todo := [.line, .frame, .skip, .line] } m →
      r.todo = [] ∧ r.codec.unread [] = [] ∧ r.results =
        [.ok (.line "hi"), .ok (.frame ⟨#[7, 8]⟩), .error .connectionClosed,
          .error .connectionClosed]) := by
  have hends : Incoming.EndsWell inPieces.link.incoming :=
    ⟨by simp [inPieces], by simp [inPieces]⟩
  obtain ⟨-, -, ⟨n, hn⟩, htime⟩ := reads_whole inPieces rfl hends [.line, .frame, .skip, .line] id
    (fun time => ⟨time, fun m hm => hm⟩)
  refine ⟨n, ?_⟩
  rintro m hm r rfl
  obtain ⟨htodo, hread⟩ := hn m hm _ rfl
  obtain ⟨hresults, hleft⟩ := Prod.mk.inj (hread (htime rfl m))
  refine ⟨htodo, hleft.symm, hresults.symm.trans ?_⟩
  rfl

end Reader

end Switchboard
