import Switchboard.Proofs.Frame.Segments

/-!
# Reading on after a read that failed

A read that is given up leaves the buffer alone, but what it had taken out of the
buffer is lost with it. A `Tally` writes down what every read of frames took of the
stream: a read that gave a frame took just that frame, a read that failed took a
part of a frame or nothing (`Cuts`). So it is safe to read on after a failure, a
timeout or any other, that came before the read had taken anything, and only then
(`retried_iff`): otherwise the next read begins inside a frame, and takes octets of
a payload for a length (`returned_unsent`).
-/

namespace Switchboard

/-- The payloads that were handed out. -/
def returned (results : List (Except LinkError Received)) : List ByteArray :=
  results.filterMap fun
    | .ok (.frame payload) => some payload
    | .ok .skipped | .ok (.line _) | .error _ => none

/-- No read that failed had taken anything of the stream. -/
def Harmless (results : List (Except LinkError Received)) (costs : List Nat) : Prop :=
  ∀ read ∈ results.zip costs, ∀ error, read.1 = .error error → read.2 = 0

/-- What a read that is over has taken of the stream: a frame, if it gave one, and
no whole frame if it failed. -/
inductive Spends (limit : Nat) : Except LinkError Received → Octets → Prop where
  | whole {skip : Bool} {payload : ByteArray} (hlimit : payload.size ≤ limit)
      (hsize : payload.size < 2 ^ 32) :
      Spends limit (.ok (.ofPayload skip payload)) (frameOctets payload)
  | lost {skip : Bool} {error : LinkError} {piece : Octets}
      (hpart : (∃ p, (Progress.length skip []).feed limit piece = .more p) ∨
        ∃ error, (Progress.length skip []).feed limit piece = .done (.error error) []) :
      Spends limit (.error error) piece

theorem ReadKind.ofSkip_inj {skip other : Bool} (h : ReadKind.ofSkip skip = .ofSkip other) :
    skip = other := by
  cases skip <;> cases other <;> first | rfl | cases h

section Found

variable {limit : Nat} {results : List (Except LinkError Received)} {pieces : List Octets}

/-- Where no failed read had taken anything, what the reads took are frames, and
what they handed out is some of the payloads. -/
theorem exists_found (h : List.Forall₂ (Spends limit) results pieces)
    (hharmless : Harmless results (pieces.map List.length)) :
    ∃ found : List ByteArray, (∀ payload ∈ found, payload.size < 2 ^ 32) ∧
      pieces.flatten = found.flatMap frameOctets ∧ (returned results).Sublist found := by
  induction h with
  | nil => exact ⟨[], by simp, rfl, .slnil⟩
  | @cons result piece results pieces hspends _ ih =>
      obtain ⟨hfirst, hrest⟩ := List.forall_mem_cons.mp hharmless
      obtain ⟨found, hfound, hflat, hsublist⟩ := ih hrest
      cases hspends with
      | @whole skip payload _ hsize =>
          refine ⟨payload :: found, List.forall_mem_cons.mpr ⟨hsize, hfound⟩, ?_, ?_⟩
          · rw [List.flatten_cons, hflat, List.flatMap_cons]
          · cases skip with
            | true => exact hsublist.cons payload
            | false => exact hsublist.cons_cons payload
      | @lost _ error =>
          have hnil : piece = [] := List.length_eq_zero_iff.mp (hfirst error rfl)
          refine ⟨found, hfound, ?_, hsublist⟩
          rw [List.flatten_cons, hnil, List.nil_append, hflat]

end Found

/-! ## What the reads cost -/

/-- A reader, and how much of the stream went into each of its reads. -/
structure Tally where
  reader : Reader
  /-- How many octets each read that is over had taken. -/
  costs : List Nat := []
  /-- How many octets the read under way has taken. -/
  held : Nat := 0

namespace Tally

/-- How many octets are not read yet. -/
def ahead (r : Reader) : Nat := (r.codec.unread []).length

/-- One attempt to get on, with what it takes put down to the read that made it. -/
def step (now : Nat) (t : Tally) : Tally :=
  let reader := t.reader.step now
  let held := t.held + (ahead t.reader - ahead reader)
  if reader.results.length = t.reader.results.length then { reader, costs := t.costs, held }
  else { reader, costs := t.costs ++ [held] }

/-- So many attempts, made at the times that the clock shows. -/
def run (clock : Nat → Nat) (t : Tally) : Nat → Tally
  | 0 => t
  | n + 1 => (t.run clock n).step (clock n)

/-- The tally changes nothing about the reads. -/
theorem reader_run (clock : Nat → Nat) (t : Tally) (n : Nat) :
    (t.run clock n).reader = t.reader.run clock n := by
  induction n with
  | zero => rfl
  | succ n ih =>
      show ((t.run clock n).step (clock n)).reader = (t.reader.run clock n).step (clock n)
      rw [← ih, step]
      split <;> rfl

/-- The stream was cut into these pieces, one for each read that is over, and what
the read under way has taken. -/
structure Cuts (limit : Nat) (stream : Octets) (t : Tally) (pieces : List Octets)
    (taken : Octets) : Prop where
  parts : List.Forall₂ (Spends limit) t.reader.results pieces
  costs : t.costs = pieces.map List.length
  held : t.held = taken.length
  stream : stream = pieces.flatten ++ taken ++ t.reader.codec.unread []
  frames : ∃ skips : List Bool, t.reader.todo = skips.map .ofSkip
  reads : ∀ skip todo, t.reader.todo = .ofSkip skip :: todo →
    t.reader.codec.Reads limit skip taken

namespace Cuts

variable {limit : Nat} {stream taken got : Octets} {t : Tally} {pieces : List Octets}
  {skip : Bool} {todo : List ReadKind} {codec : Framed Script} {now : Nat}

/-- A read goes on, and has taken more. -/
theorem more (h : Cuts limit stream t pieces taken) (htodo : t.reader.todo = .ofSkip skip :: todo)
    {poll : Poll (Except LinkError Received)} (hpoll : poll = .again ∨ poll = .blocked)
    (hread : t.reader.codec.read (.ofSkip skip) now = (poll, codec))
    (htook : t.reader.codec.Took got codec) (hreads : codec.Reads limit skip (taken ++ got)) :
    Cuts limit stream (t.step now) pieces (taken ++ got) := by
  have hunread := htook.unread []
  have hstep : t.step now = { t with
      reader := { t.reader with codec }
      held := t.held + (ahead t.reader - (codec.unread []).length) } := by
    unfold step
    rw [Reader.step_of_more htodo hpoll hread]
    simp [ahead]
  rw [hstep]
  refine ⟨h.parts, h.costs, ?_, ?_, h.frames, ?_⟩
  · dsimp only
    rw [ahead, hunread, List.length_append, List.length_append, h.held, Nat.add_sub_cancel]
  · rw [h.stream, hunread]
    simp only [List.append_assoc]
  · intro other rest hrest
    obtain ⟨hsame, -⟩ := List.cons.inj (htodo.symm.trans hrest)
    obtain rfl := ReadKind.ofSkip_inj hsame
    exact hreads

/-- A read is over, and what it has taken is a piece of its own. -/
theorem finish (h : Cuts limit stream t pieces taken)
    (htodo : t.reader.todo = .ofSkip skip :: todo) {result : Except LinkError Received}
    (hread : t.reader.codec.read (.ofSkip skip) now = (.done result, codec))
    (htook : t.reader.codec.Took got codec) (hidle : codec.IsIdle limit)
    (hspends : Spends limit result (taken ++ got)) :
    Cuts limit stream (t.step now) (pieces ++ [taken ++ got]) [] := by
  have hunread := htook.unread []
  have hstep : t.step now = {
      reader := { codec, todo, results := t.reader.results ++ [result] }
      costs := t.costs ++ [t.held + (ahead t.reader - (codec.unread []).length)] } := by
    unfold step
    rw [Reader.step_of_done htodo hread]
    simp [ahead]
  rw [hstep]
  refine ⟨List.rel_append h.parts (.cons hspends .nil), ?_, rfl, ?_, ?_, ?_⟩
  · dsimp only
    rw [h.costs, ahead, hunread, List.length_append, Nat.add_sub_cancel, h.held]
    simp
  · rw [h.stream, hunread]
    simp
  · obtain ⟨skips, hskips⟩ := h.frames
    rw [htodo] at hskips
    cases skips with
    | nil => cases hskips
    | cons first rest => exact ⟨rest, (List.cons.inj hskips).2⟩
  · intro other _ _
    exact hidle.reads other

/-- A read fails that finds no more of the stream, and what it has taken is lost. -/
theorem fail (h : Cuts limit stream t pieces taken)
    (htodo : t.reader.todo = .ofSkip skip :: todo) {error : LinkError} {p : Progress}
    (hread : t.reader.codec.read (.ofSkip skip) now = (.done (.error error), codec))
    (htook : t.reader.codec.Took [] codec) (hidle : codec.IsIdle limit)
    (hfed : (Progress.length skip []).feed limit taken = .more p) :
    ∃ pieces taken, Cuts limit stream (t.step now) pieces taken := by
  have hspends : Spends limit (.error error) (taken ++ []) := by
    rw [List.append_nil]
    exact .lost (.inl ⟨p, hfed⟩)
  exact ⟨_, _, h.finish htodo hread htook hidle hspends⟩

theorem step (h : Cuts limit stream t pieces taken) (now : Nat) :
    ∃ pieces taken, Cuts limit stream (t.step now) pieces taken := by
  obtain ⟨skips, hskips⟩ := h.frames
  cases skips with
  | nil =>
      refine ⟨pieces, taken, ?_⟩
      have hstep : t.step now = t := by
        unfold Tally.step
        rw [Reader.step_of_nil hskips]
        simp
      rw [hstep]
      exact h
  | cons skip rest =>
      have htodo : t.reader.todo = .ofSkip skip :: rest.map .ofSkip := hskips
      have hreads := h.reads skip _ htodo
      have hcases := Framed.read_cases hreads now
      generalize hread : t.reader.codec.read (.ofSkip skip) now = read at hcases
      obtain ⟨poll, codec⟩ := read
      dsimp only at hcases
      cases hcases with
      | awaited got hpoll htook hgoing => exact ⟨_, _, h.more htodo hpoll hread htook hgoing⟩
      | whole got payload hwhole =>
          refine ⟨_, _, h.finish htodo hread hwhole.took hwhole.idle ?_⟩
          rw [hwhole.frame]
          exact .whole hwhole.fits hwhole.short
      | tooLarge got length _ htook hfed hidle =>
          exact ⟨_, _, h.finish htodo hread htook hidle (.lost (.inr ⟨_, hfed⟩))⟩
      | ended p htook hfed _ _ hidle => exact h.fail htodo hread htook hidle hfed
      | failed p error _ htook hfed hidle => exact h.fail htodo hread htook hidle hfed
      | timeout p _ htook hfed hidle => exact h.fail htodo hread htook hidle hfed

end Cuts

/-- Everything that was taken went into the reads. -/
theorem cuts_run {f : Framed Script} (hidle : f.inbound.reading = none) (skips : List Bool)
    (clock : Nat → Nat) (n : Nat) :
    ∃ pieces taken, Cuts f.inbound.limit (f.unread [])
      (run clock { reader := { codec := f, todo := skips.map .ofSkip } } n) pieces taken := by
  induction n with
  | zero =>
      have hfirst : f.IsIdle f.inbound.limit := ⟨rfl, hidle⟩
      exact ⟨[], [], .nil, rfl, rfl, rfl, ⟨skips, rfl⟩, fun skip _ _ => hfirst.reads skip⟩
  | succ n ih =>
      obtain ⟨_, _, h⟩ := ih
      exact h.step (clock n)

/-! ## Between two frames -/

/-- What is not read yet are whole frames of those that were sent. -/
def AtFrame (payloads : List ByteArray) (t : Tally) : Prop :=
  ∃ left, left <:+ payloads ∧ t.reader.codec.unread [] = left.flatMap frameOctets

namespace Cuts

variable {limit : Nat} {taken : Octets} {t : Tally} {pieces : List Octets}
  {payloads : List ByteArray}

/-- Where no failed read had taken anything, only what was sent is handed out, and
the next read begins with a frame. -/
theorem returned_sublist (h : Cuts limit (payloads.flatMap frameOctets) t pieces taken)
    (hsizes : ∀ payload ∈ payloads, payload.size < 2 ^ 32)
    (hharmless : Harmless t.reader.results t.costs) :
    (returned t.reader.results).Sublist payloads ∧ (t.held = 0 → t.AtFrame payloads) := by
  rw [h.costs] at hharmless
  obtain ⟨found, hfound, hflat, hsublist⟩ := exists_found h.parts hharmless
  have hstream := h.stream
  rw [hflat, List.append_assoc] at hstream
  obtain ⟨left, rfl, hleft⟩ := prefix_of_frames hfound hsizes hstream.symm
  refine ⟨hsublist.trans (List.sublist_append_left found left), fun hheld => ?_⟩
  have hnil : taken = [] := List.length_eq_zero_iff.mp (h.held.symm.trans hheld)
  rw [hnil, List.nil_append] at hleft
  exact ⟨left, List.suffix_append found left, hleft⟩

/-- After the first failure that had taken something, the next read begins inside a
frame. -/
theorem atFrame_iff (h : Cuts limit (payloads.flatMap frameOctets) t pieces taken)
    (hsizes : ∀ payload ∈ payloads, payload.size < 2 ^ 32)
    {earlier : List (Except LinkError Received)} {error : LinkError} {costs : List Nat} {cost : Nat}
    (hresults : t.reader.results = earlier ++ [.error error]) (hcosts : t.costs = costs ++ [cost])
    (hlength : earlier.length = costs.length) (hharmless : Harmless earlier costs)
    (hheld : t.held = 0) : t.AtFrame payloads ↔ cost = 0 := by
  have hall (hcost : cost = 0) : Harmless t.reader.results t.costs := by
    rw [hresults, hcosts, Harmless, List.zip_append hlength]
    intro read hread other hother
    rcases List.mem_append.mp hread with hmem | hlast
    · exact hharmless read hmem other hother
    · obtain rfl := List.mem_singleton.mp hlast
      exact hcost
  refine ⟨?_, fun hcost => (h.returned_sublist hsizes (hall hcost)).2 hheld⟩
  rintro ⟨left, ⟨front, rfl⟩, hleft⟩
  have hnil : taken = [] := List.length_eq_zero_iff.mp (h.held.symm.trans hheld)
  -- The last piece is what the failed read had taken.
  have hpieces := h.costs
  rw [hcosts] at hpieces
  obtain ⟨before, last, rfl, hbeforeCosts, hlastCost⟩ := List.map_eq_append_iff.mp hpieces.symm
  obtain ⟨piece, rfl, rfl⟩ := List.map_eq_singleton_iff.mp hlastCost
  subst hbeforeCosts
  rw [List.length_map] at hlength
  have hparts := h.parts
  rw [hresults] at hparts
  have hbefore := List.forall₂_take_append _ _ _ hparts
  rw [List.take_left' hlength] at hbefore
  have hlast := List.forall₂_drop_append _ _ _ hparts
  rw [List.drop_left' hlength] at hlast
  have hspends : Spends limit (.error error) piece := (List.forall₂_cons.mp hlast).1
  obtain ⟨found, hfound, hflat, -⟩ := exists_found hbefore hharmless
  -- What was taken, to the end of that read, would be whole frames.
  have hstream := h.stream
  rw [hnil, hleft, List.append_nil, List.flatMap_append, List.flatten_append, hflat] at hstream
  have htaken := List.append_cancel_right hstream
  rw [List.flatten_singleton] at htaken
  obtain ⟨mid, rfl, hmid⟩ := prefix_of_frames hfound
    (fun payload hmem => hsizes payload (List.mem_append_left left hmem)) htaken.symm
  cases mid with
  | nil => exact congrArg List.length hmid
  | cons payload mid =>
      have hsize : payload.size < 2 ^ 32 := by
        refine hsizes payload (List.mem_append_left left (List.mem_append_right found ?_))
        exact List.mem_cons_self
      cases hspends with
      | lost hpart =>
          exact absurd hmid (Progress.no_frame_of_feed hpart hsize (mid.flatMap frameOctets))

end Cuts

/-- However frames come, in whatever pieces and with whatever silences and
failures, and whenever the attempts to read or to skip them are made: as long as no
read that failed, for its time or for anything else, had taken anything of the
stream, the payloads handed out are, in order, some of those that were sent, and
between two reads what is left are whole frames. And that is how far reading on
is safe: after the first failure of a read that had taken something the next read
begins inside a frame. -/
theorem retried_iff (f : Framed Script) (hidle : f.inbound.reading = none)
    (payloads : List ByteArray) (hsizes : ∀ payload ∈ payloads, payload.size < 2 ^ 32)
    (hstream : f.unread [] = payloads.flatMap frameOctets) (skips : List Bool)
    (clock : Nat → Nat) (n : Nat) (t : Tally)
    (ht : t = run clock { reader := { codec := f, todo := skips.map .ofSkip } } n) :
    (Harmless t.reader.results t.costs →
      (returned t.reader.results).Sublist payloads ∧ (t.held = 0 → t.AtFrame payloads)) ∧
    ∀ earlier error costs cost, t.reader.results = earlier ++ [.error error] →
      t.costs = costs ++ [cost] → Harmless earlier costs → t.held = 0 →
      (t.AtFrame payloads ↔ cost = 0) := by
  subst ht
  obtain ⟨pieces, taken, h⟩ := cuts_run hidle skips clock n
  rw [hstream] at h
  refine ⟨h.returned_sublist hsizes, ?_⟩
  intro earlier error costs cost hresults hcosts hharmless hheld
  have hlength : earlier.length = costs.length := by
    have hall : (run clock { reader := { codec := f, todo := skips.map .ofSkip } } n).reader.results.length =
        (run clock { reader := { codec := f, todo := skips.map .ofSkip } } n).costs.length := by
      rw [h.parts.length_eq, h.costs, List.length_map]
    rw [hresults, hcosts] at hall
    simpa using hall
  exact h.atFrame_iff hsizes hresults hcosts hlength hharmless hheld

/-- A frame of five octets, which comes in two pieces, and reads of 15 milliseconds
at most. -/
def late (before between : List Incoming) : Framed Script :=
  { link := { incoming := before ++ .data [0, 0, 0, 5] :: between ++ [.data [0, 0, 0, 1, 9]] }
    inbound := { patience := some 15 } }

/-- Two reads, after so many attempts. -/
def twice (f : Framed Script) (n : Nat) : Tally :=
  run (5 * ·) { reader := { codec := f, todo := [false, false].map .ofSkip } } n

theorem retried_twice :
    (returned (twice (late [.wait 20] []) 12).reader.results).Sublist [⟨#[0, 0, 0, 1, 9]⟩] ∧
    ¬ (twice (late [] [.wait 20]) 4).AtFrame [⟨#[0, 0, 0, 1, 9]⟩] := by
  have hharmless : Harmless (twice (late [.wait 20] []) 12).reader.results
      (twice (late [.wait 20] []) 12).costs := by
    show Harmless [.error (.timeout .receive), .ok (.frame ⟨#[0, 0, 0, 1, 9]⟩)] [0, 9]
    simp [Harmless]
  refine ⟨((retried_iff (late [.wait 20] []) rfl [⟨#[0, 0, 0, 1, 9]⟩] (by decide) rfl
    [false, false] (5 * ·) 12 _ rfl).1 hharmless).1, ?_⟩
  have hinside := (retried_iff (late [] [.wait 20]) rfl [⟨#[0, 0, 0, 1, 9]⟩] (by decide) rfl
    [false, false] (5 * ·) 4 (twice (late [] [.wait 20]) 4) rfl).2 [] (.timeout .receive) [] 4
      rfl rfl (by simp [Harmless]) rfl
  rw [hinside]
  decide

/-- The silence is inside the frame. The read that gives up has taken the length,
and the next one hands out a payload that was never sent. -/
theorem returned_unsent :
    (late [] [.wait 20]).unread [] = [⟨#[0, 0, 0, 1, 9]⟩].flatMap frameOctets ∧
    (twice (late [] [.wait 20]) 12).reader.results =
      [.error (.timeout .receive), .ok (.frame ⟨#[9]⟩)] ∧
    ¬ (returned (twice (late [] [.wait 20]) 12).reader.results).Sublist
      [⟨#[0, 0, 0, 1, 9]⟩] := by
  refine ⟨rfl, rfl, ?_⟩
  show ¬ [(⟨#[9]⟩ : ByteArray)].Sublist [⟨#[0, 0, 0, 1, 9]⟩]
  decide

end Tally

end Switchboard
