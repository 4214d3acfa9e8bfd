import Switchboard.Proofs.Client.Alignment
import Switchboard.Proofs.Client.Occasions
import Switchboard.Proofs.Client.Silence

/-!
# One end, one verdict

The receiver of a client leaves at most once. Everybody who waits then is told
the same, and that is reported, unless the owner had asked for the end
(`terminated_run`). What is told is the failure for which the receiver left, but
the end of the stream has two names: a shutdown if the owner asked for it, and an
unexpected end otherwise. Under its own name nobody is ever told of it, because a
writer finds the writing half closed only after the owner has closed, and then
does not write.
-/

namespace Switchboard

open Session (Deed Notice)

/-! ## Failures of writing -/

namespace Outbound

/-- While the writing was not given up, no step finds it so. -/
theorem step_ne {L : Type} [Link L] {o : Outbound} (h : o.aborted = false) (side : Side)
    (now : Nat) (link : L) : (o.step side now link).1 ≠ .done (.error .connectionClosed) := by
  cases hw : o.writing with
  | none =>
      rw [step_idle side now hw]
      exact nofun
  | some w =>
      have hstep := step_cases side now hw link
      generalize o.step side now link = step at hstep
      obtain ⟨poll, o', link'⟩ := step
      dsimp only at hstep ⊢
      cases hstep with
      | gone _ _ haborted =>
          rw [h] at haborted
          cases haborted
      | _ => exact nofun

end Outbound

namespace Framed

theorem write_ne_eof {f : Framed Script} (h : f.outbound.aborted = false) (r : Wire.Request)
    (args : Wire.Value) (now : Nat) : (f.write r args now).1 ≠ .done (.error .eof) := by
  have hlink {error : LinkError} (herror : CallError.ofLink error = .eof) :
      error = .connectionClosed := by
    cases error <;> first | rfl | cases herror
  unfold write
  split
  · -- Nothing that keeps a request from being begun is the end of a connection.
    have hbegins := Framed.begins_start r args f.outbound
    generalize (request r args).bind (f.outbound.start ·) = started at hbegins ⊢
    cases hbegins with
    | ok => exact nofun
    | error hrefuses =>
        intro heof
        cases hrefuses <;> cases hlink (Except.error.inj (Poll.done.inj heof))
  · have hstep := Outbound.step_ne h .near now f.link
    dsimp only
    generalize f.outbound.step .near now f.link = stepped at hstep ⊢
    obtain ⟨_ | _ | error | _, outbound, link⟩ := stepped
    · exact nofun
    · exact nofun
    · intro heof
      have hclosed := hlink (Except.error.inj (Poll.done.inj heof))
      rw [hclosed] at hstep
      exact hstep rfl
    · exact nofun

end Framed

/-! ## What is told -/

namespace CallError

theorem ofLink_ne_unexpectedEof (error : LinkError) : ofLink error ≠ .unexpectedEof := by
  cases error <;> exact nofun

end CallError

namespace Client

/-- What those who wait are told when reading ends for some failure, and the
warnings about it. -/
inductive EndsAs (closing : Bool) : CallError → CallError → List Event → Prop where
  /-- The stream ended, as the owner had asked. -/
  | asked (h : closing = true) : EndsAs closing .eof .shutdown []
  | unasked (h : closing = false) :
      EndsAs closing .eof .unexpectedEof [.protocolError .unexpectedEof]
  | broken {error : CallError} (h : error ≠ .eof) :
      EndsAs closing error error [.protocolError error]

/-- What is reported as a warning. -/
def warnings (c : Client) : List Event := c.events.filter (·.level = .warn)

/-- There are warnings about nothing but the end. -/
theorem warnings_eq (c : Client) : c.warnings = c.alarms.map .protocolError := by
  unfold warnings alarms
  induction c.events with
  | nil => rfl
  | cons e events ih =>
      cases e with
      | protocolError error =>
          rw [List.filter_cons_of_pos (by simp [Event.level]), ih]
          rfl
      | _ =>
          rw [List.filter_cons_of_neg (by simp [Event.level]), ih]
          rfl

theorem endsAs (closing : Bool) (error : CallError) :
    EndsAs closing error (verdict closing error)
      ((if isExpected closing error then [] else [verdict closing error]).map .protocolError) := by
  cases error with
  | eof =>
      cases closing with
      | true => exact .asked rfl
      | false => exact .unasked rfl
  | _ => exact .broken nofun

theorem verdict_ne_eof (closing : Bool) (error : CallError) : verdict closing error ≠ .eof := by
  cases error with
  | eof => cases closing <;> exact nofun
  | _ => exact nofun

end Client

namespace Session

section Framed

variable {s : Session (Framed Script)}

/-- Nothing that is read is unexpected by name. -/
theorem leaves_ne_unexpectedEof (s : Session (Framed Script)) (d : Deed Script.Twist) :
    s.leaves d ≠ some .unexpectedEof := by
  intro h
  rcases leaves_cases h with heq | ⟨cause, heq⟩ | ⟨cause, heq⟩
  · cases heq
  · exact CallError.ofLink_ne_unexpectedEof cause heq.symm
  · cases heq

/-- A request that is not written fails with a shutdown or a failure of the
connection, which was not closed yet. -/
theorem writeFailure_ne (hupright : s.client.closing = false → s.codec.outbound.aborted = false)
    {seq : UInt64} {now : Nat} {error : CallError} (h : s.writeFailure seq now = some error) :
    error ≠ .eof ∧ error ≠ .unexpectedEof := by
  have hstep := s.stepWriter_cases seq now
  rw [h] at hstep
  generalize hending : some error = failure at hstep
  generalize (s.stepWriter seq now).2 = s' at hstep
  cases hstep with
  | refused | cancelled =>
      cases hending
      exact ⟨nofun, nofun⟩
  | @written w result codec _ _ _ _ hclosing hwrite =>
      cases result with
      | ok => cases hending
      | error cause =>
          cases hending
          constructor
          · rintro rfl
            exact s.codec.write_ne_eof (hupright hclosing) w.request w.args now
              (congrArg Prod.fst hwrite)
          · rintro rfl
            obtain ⟨link, hlink⟩ := error_of_write hwrite
            exact CallError.ofLink_ne_unexpectedEof link hlink.symm
  | absent | asked | queued | begun | awaited => cases hending

/-- The end of the stream is told under its own name on no occasion, and after the
owner has closed not as unexpected. -/
theorem Occasion.named {d : Deed Script.Twist}
    {told : List (Pending × Except CallError Wire.Value)} {after : Client × Receiver}
    (h : s.Occasion d told after)
    (hupright : s.client.closing = false → s.codec.outbound.aborted = false) :
    ∀ t ∈ told, t.2 ≠ .error .eof ∧ (s.client.closing = true → t.2 ≠ .error .unexpectedEof) := by
  cases h with
  | nobody => simp
  | late p =>
      intro t ht
      rw [List.mem_singleton.mp ht]
      exact ⟨nofun, fun _ => nofun⟩
  | unsent _ herror =>
      intro t ht
      obtain ⟨p, _, rfl⟩ := List.mem_map.mp ht
      obtain ⟨heof, hunexpected⟩ := writeFailure_ne hupright herror
      exact ⟨fun h => heof (Except.error.inj h), fun _ h => hunexpected (Except.error.inj h)⟩
  | @replied _ _ _ result =>
      intro t ht
      rw [List.mem_singleton.mp ht]
      cases result <;> exact ⟨nofun, fun _ => nofun⟩
  | refuted =>
      intro t ht
      rw [List.mem_singleton.mp ht]
      exact ⟨nofun, fun _ => nofun⟩
  | @left _ error hleaves =>
      intro t ht
      rcases List.mem_append.mp ht with hinHand | hwaiting
      · unfold Receiver.lastTold at hinHand
        split at hinHand
        · rw [List.mem_singleton.mp hinHand]
          exact ⟨nofun, fun _ => nofun⟩
        all_goals cases hinHand
      · obtain ⟨entry, _, rfl⟩ := List.mem_map.mp hwaiting
        refine ⟨fun h => Client.verdict_ne_eof _ _ (Except.error.inj h), ?_⟩
        intro hclosing h
        have hverdict := Except.error.inj h
        rw [hclosing] at hverdict
        refine s.leaves_ne_unexpectedEof d (hleaves.trans ?_)
        cases error <;> first | rfl | cases hverdict

end Framed

end Session

namespace History

section Life

variable {ω κ : Type} [Codec κ] [Surroundings ω κ]

/-- With one more step the receiver leaves for a failure: everybody who waits is
told the same, and nobody waits after that. -/
structure LeavesFor (codec : κ) (earlier : List (Deed ω)) (now : Nat) (error told : CallError) :
    Prop where
  reading : (run codec earlier).session.receiver ≠ .ended
  lastWord : (run codec earlier).session.lastWord now = some error
  ended : (run codec (earlier ++ [.task .receiver now])).session.receiver = .ended
  empty : (run codec (earlier ++ [.task .receiver now])).session.client.table = []
  tells : (run codec earlier).session.client.Tells
    ((run codec earlier).session.receiver.lastTold ++
      (run codec earlier).session.client.table.map fun entry => (entry.2, .error told))
    (run codec (earlier ++ [.task .receiver now])).session.client

/-- The receiver still reads and nothing was reported, or it has left at some
moment, and what is reported is about that. -/
def ReadsOn (codec : κ) (deeds : List (Deed ω)) : Prop :=
  (run codec deeds).session.receiver ≠ .ended ∧ (run codec deeds).session.client.warnings = []

def HasLeft (codec : κ) (deeds : List (Deed ω)) : Prop :=
  (run codec deeds).session.receiver = .ended ∧ ∃ earlier now rest error told,
    deeds = earlier ++ [.task .receiver now] ++ rest ∧ LeavesFor codec earlier now error told ∧
      Client.EndsAs (run codec earlier).session.client.closing error told
        (run codec deeds).session.client.warnings

theorem readsOn_or_hasLeft (codec : κ) (deeds : List (Deed ω)) :
    ReadsOn codec deeds ∨ HasLeft codec deeds := by
  induction deeds using List.reverseRecOn with
  | nil => exact Or.inl ⟨nofun, rfl⟩
  | append_singleton deeds d ih =>
      obtain ⟨told, hoccasion, htells, _⟩ := announces_run codec deeds d
      have hsettled := isSettled_run codec deeds
      have hsettled' := isSettled_run codec (deeds ++ [d])
      cases hleaves : (run codec deeds).session.leaves d with
      | none =>
          obtain ⟨hshutdown, halarms⟩ := hoccasion.of_stays hleaves
          have hwarnings : (run codec (deeds ++ [d])).session.client.warnings =
              (run codec deeds).session.client.warnings := by
            rw [Client.warnings_eq, halarms, Client.warnings_eq]
          have hended : (run codec (deeds ++ [d])).session.receiver = .ended ↔
              (run codec deeds).session.receiver = .ended := by
            rw [hsettled'.ended, hshutdown, hsettled.ended]
          rw [ReadsOn, HasLeft, hwarnings, ne_eq, hended]
          refine ih.imp id ?_
          rintro ⟨hleft, earlier, now, rest, error, told, hdeeds, hrest⟩
          exact ⟨hleft, earlier, now, rest ++ [d], error, told, by rw [hdeeds, List.append_assoc],
            hrest⟩
      | some error =>
          obtain ⟨rfl, hended, hempty, -, halarms⟩ := hoccasion.of_leaves hleaves
          have hreading : (run codec deeds).session.receiver ≠ .ended := by
            intro h
            cases (Session.leaves_of_ended h d).symm.trans hleaves
          obtain ⟨now, rfl⟩ : ∃ now, d = .task .receiver now := by
            by_contra hd
            cases (Session.leaves_of_ne fun now h => hd ⟨now, h⟩).symm.trans hleaves
          have hnothing : (run codec deeds).session.client.alarms = [] := by
            rcases ih with ⟨_, hwarnings⟩ | ⟨hleft, _⟩
            · rwa [Client.warnings_eq, List.map_eq_nil_iff] at hwarnings
            · exact absurd hleft hreading
          refine Or.inr ⟨hended, deeds, now, [], error, _, (List.append_nil _).symm,
            ⟨hreading, hleaves, hended, hempty, htells⟩, ?_⟩
          rw [Client.warnings_eq, halarms, hnothing]
          exact Client.endsAs _ error

end Life

/-- From one moment to a later one the end of the stream is told to nobody under
its own name, and when the owner has closed it is not unexpected. -/
theorem named_run (codec : Framed Script) (hupright : codec.outbound.aborted = false)
    (deeds more : List (Deed Script.Twist)) :
    ∃ told, (run codec deeds).session.client.Tells told (run codec (deeds ++ more)).session.client ∧
      ∀ t ∈ told, t.1.call.IsOpen ∧ t.2 ≠ .error .eof ∧
        ((run codec deeds).session.client.closing = true → t.2 ≠ .error .unexpectedEof) := by
  induction more using List.reverseRecOn with
  | nil => exact ⟨[], by simp [Client.Tells], by simp⟩
  | append_singleton more d ih =>
      obtain ⟨told, htold, hnamed⟩ := ih
      obtain ⟨new, hoccasion, hnew, hopen⟩ := announces_run codec (deeds ++ more) d
      have hleaving := isLeaving_run Framed.counts_aborted codec (by rw [hupright]; rfl)
        (deeds ++ more)
      have hstill := (onward_run codec deeds more).closing
      rw [← List.append_assoc]
      refine ⟨told ++ new, htold.trans hnew, ?_⟩
      intro t ht
      rcases List.mem_append.mp ht with hold | hlast
      · exact hnamed t hold
      · have hname := hoccasion.named (fun hclosing => ?_) t hlast
        · exact ⟨hopen t hlast, hname.1, fun hclosing => hname.2 (hstill hclosing)⟩
        · unfold Session.IsLeaving at hleaving
          rw [hclosing] at hleaving
          simpa using hleaving.of_open.2

/-- Whatever happens to a client that speaks in frames, its receiver leaves once
at most, and then everybody who waits is told the same: a shutdown if the stream
ended and the owner had asked for that, an unexpected end if it just ended, and
otherwise the failure for which the receiver left. Nothing else is ever reported
as a warning, and in the first case not even that. To nobody is the end of the
stream told as such, nor as unexpected after the owner has closed. -/
theorem terminated_run (link : Script) (buffer : Octets) (limit : Nat) (patience : Option Nat)
    (longest : Nat) (stamina : Option Nat) (deeds : List (Deed Script.Twist)) :
    let codec := Framed.fresh link buffer limit patience { limit := longest, patience := stamina }
    let h := run codec deeds
    (h.session.receiver ≠ .ended → h.session.client.warnings = []) ∧
      (h.session.receiver = .ended → ∃ earlier now rest error told,
        deeds = earlier ++ [.task .receiver now] ++ rest ∧
          LeavesFor codec earlier now error told ∧
          Client.EndsAs (run codec earlier).session.client.closing error told
            h.session.client.warnings) ∧
      (∀ signal ∈ h.session.client.signals, signal.2.error ≠ some .eof) ∧
      ∀ earlier, earlier <+: deeds → (run codec earlier).session.client.closing = true →
        ∀ signal ∈ h.session.client.signals.drop
          (run codec earlier).session.client.signals.length,
          signal.2.error ≠ some .unexpectedEof := by
  intro codec h
  have hlife := readsOn_or_hasLeft codec deeds
  refine ⟨?_, ?_, ?_, ?_⟩
  · intro hreading
    exact (hlife.resolve_right fun hleft => hreading hleft.1).2
  · intro hended
    exact (hlife.resolve_left fun hreading => hreading.1 hended).2
  · obtain ⟨told, htold, hnamed⟩ := named_run codec rfl [] deeds
    intro signal hsignal heof
    rw [show h.session.client.signals = _ from htold] at hsignal
    obtain ⟨t, ht, rfl⟩ := List.mem_map.mp hsignal
    exact (hnamed t ht).2.1 ((hnamed t ht).1.eq_of_failed heof)
  · rintro earlier ⟨more, rfl⟩ hclosing signal hsignal hunexpected
    obtain ⟨told, htold, hnamed⟩ := named_run codec rfl earlier more
    rw [show h.session.client.signals = _ from htold, List.drop_left] at hsignal
    obtain ⟨t, ht, rfl⟩ := List.mem_map.mp hsignal
    exact (hnamed t ht).2.2 hclosing ((hnamed t ht).1.eq_of_failed hunexpected)

/-- Two calls. The first is refuted, and where the body of that answer should be
the stream ends. Then a third call comes too late. -/
def cutShort : List (Deed Script.Twist) :=
  let ask : Ask := ⟨0, "Arith.Multiply", .unit, .unit⟩
  [.go ask, .go ask] ++ List.replicate 6 (.task .receiver 0) ++ [.go ask]

/-- The header of an answer to the first call, with the error text "boom". -/
def refutation : Octets :=
  [0, 0, 0, 28] ++ [0, 0, 0, 0, 0, 0, 0, 0] ++ [0, 0, 0, 0, 0, 0, 0, 0] ++
    [4, 0, 0, 0, 0, 0, 0, 0] ++ [98, 111, 111, 109]

def cutShortRun : History (Framed Script) :=
  run (Framed.fresh { incoming := [.data refutation, .ended] } [] 100 none {}) cutShort

/-- The first call has its answer, the second is told for what the receiver left,
which is also reported, and the third that the client is shut down. -/
theorem terminated_of_cutShort :
    cutShortRun.session.receiver = .ended ∧
      cutShortRun.session.client.signals.map (fun s => (s.2.seq, s.2.error)) =
        [(some 0, some (.server "boom")), (some 1, some (.readingErrorBody .eof)),
          (none, some .shutdown)] ∧
      cutShortRun.session.client.warnings = [.protocolError (.readingErrorBody .eof)] ∧
      ∃ earlier now rest error told, cutShort = earlier ++ [.task .receiver now] ++ rest ∧
        LeavesFor (Framed.fresh { incoming := [.data refutation, .ended] } [] 100 none {}) earlier
          now error told ∧
        Client.EndsAs false error told cutShortRun.session.client.warnings := by
  have hended : cutShortRun.session.receiver = .ended := by rfl
  have hrun := terminated_run { incoming := [.data refutation, .ended] } [] 100 none maxPayload
    none cutShort
  obtain ⟨earlier, now, rest, error, told, hdeeds, hleaves, hends⟩ := hrun.2.1 hended
  refine ⟨hended, by rfl, by rfl, earlier, now, rest, error, told, hdeeds, hleaves, ?_⟩
  -- The owner closes at no time, so not before the receiver leaves either.
  have hopen : cutShortRun.session.client.closing = false := by rfl
  have honward := onward_run
    (Framed.fresh { incoming := [.data refutation, .ended] } [] 100 none {})
    earlier ([.task .receiver now] ++ rest)
  rw [← List.append_assoc, ← hdeeds] at honward
  have hearlier := Bool.eq_false_of_not_eq_true
    (mt honward.closing (ne_true_of_eq_false hopen))
  rwa [hearlier] at hends

end History

end Switchboard
