import Switchboard.Proofs.Channel.Crossing

/-!
# Messages arrive

As long as something is missing, one of the ends can get on (`ready_or_settled`), and
it stays so until that end has its turn. Every turn that is used leaves less to do, so
where both ends have turns again and again everything gets done. `delivered_run` says
of every talk over every carrier what the calls return and what the reads give.
-/

namespace Switchboard

open Wire (Value Form)

namespace Channel

/-! ## What is settled -/

namespace Talk

variable {t : Talk}

/-- Calls that fail might as well not have been made. -/
theorem messages_filter (t : Talk) :
    Talk.messages { t with calls := t.calls.filter fun call => (call.reply t.limit).isOk } =
      t.messages := by
  unfold messages
  dsimp only
  induction t.calls with
  | nil => rfl
  | cons call calls ih =>
      cases hreply : call.reply t.limit with
      | ok _ =>
          rw [List.filter_cons_of_pos (by rw [hreply]; rfl), List.flatMap_cons, List.flatMap_cons, ih]
      | error error =>
          rw [List.filter_cons_of_neg (by rw [hreply]; simp [Except.isOk, Except.toBool]),
            List.flatMap_cons, Call.sent_of_error hreply, ih]
          rfl

/-- Whatever one read makes of its message, the others do not notice. -/
theorem results_set (t : Talk) (want : Want) {j k : Nat} (h : j ≠ k) :
    (Talk.results { t with wants := t.wants.set k want })[j]? = t.results[j]? := by
  unfold results messages
  dsimp only
  rw [List.getElem?_zipWith, List.getElem?_zipWith, List.getElem?_set_ne h.symm]

theorem sendable (t : Talk) {v : Value} (hv : v ∈ t.messages) : IsSendable t.limit v := by
  obtain ⟨call, -, hsent⟩ := List.mem_flatMap.mp hv
  exact Call.sendable_of_sent hsent

/-- No reply and no result says that something took too long. -/
theorem noTimeout (t : Talk) (operation : Operation) :
    .error (.timeout operation) ∉ t.replies ∧ .error (.timeout operation) ∉ t.results := by
  constructor
  · intro hmem
    obtain ⟨call, -, hreply⟩ := List.mem_map.mp hmem
    cases Call.refuses_of_reply hreply
  · intro hmem
    obtain ⟨i, hi⟩ := List.mem_iff_getElem?.mp hmem
    rw [results, List.getElem?_zipWith_eq_some] at hi
    obtain ⟨want, v, -, hv, hresult⟩ := hi
    obtain ⟨fault, herror⟩ := Want.decode_of_result (t.sendable (List.mem_of_getElem? hv)) hresult
    cases herror

end Talk

variable {L : Type} [Link L]

namespace Crossing

variable {carrier : Carrier L} {t : Talk} {left : List Value} {taken : Octets} {c : Crossing L}
  {link : L} {schedule : Nat → Side} {clock : Nat → Nat}

/-- Everything that was asked for has come. Who asks for fewer messages than there
are may keep the sending end waiting. -/
structure Settled (t : Talk) (c : Crossing L) : Prop where
  results : c.results = t.results
  replies : t.messages.length ≤ t.wants.length → c.replies = t.replies

/-! ## Somebody can get on -/

/-- When all calls have returned and nothing is on the way, nothing is left. -/
theorem Carries.drained (h : c.Carries carrier t left taken) (hlimit : t.limit < 2 ^ 32)
    (hcalls : c.calls = []) (hnothing : c.inbound.buffer ++ carrier.held c.link = [])
    {r : Reading} (hreading : c.inbound.reading = some r) : left = [] := by
  have hidle : c.outbound.writing = none := by
    cases hw : c.outbound.writing with
    | none => rfl
    | some w =>
        obtain ⟨_, _, hsome, -⟩ := h.sends.begun (by rw [hw]; rfl)
        rw [hcalls] at hsome
        cases hsome
  have hbuffer : c.outbound.buffer = [] := by
    rcases h.sends.flushes with hlast | ⟨-, hempty⟩
    · rw [hcalls] at hlast
      cases hlast
    · exact hempty
  have hunread : c.unread carrier t.limit = [] := by
    rw [unread, underway, ← List.append_assoc, hnothing, Outbound.unsent_of_empty hbuffer, hcalls]
    simp [Outbound.unput, Outbound.pending, hidle, toCome, unbegun]
  have hstream := h.stream
  rw [hunread, List.append_nil] at hstream
  cases left with
  | nil => rfl
  | cons v others =>
      -- A read that has a whole frame is over.
      obtain ⟨want, _, -, hfed, -⟩ := h.receives.begun r hreading
      obtain ⟨b, hb, hsmall⟩ := h.receives.sendable v List.mem_cons_self
      rw [hstream, List.flatMap_cons, octets_of_payload hb,
        Progress.feed_frame hsmall (Nat.lt_of_le_of_lt hsmall hlimit)] at hfed
      cases hfed

theorem Carries.inTime (h : c.Carries carrier t left taken) : c.InTime := by
  have hreplies : c.replies <+: t.replies := ⟨_, h.sends.returned⟩
  have hresults : c.results <+: t.results := ⟨_, h.receives.yielded⟩
  exact ⟨fun hmem => (t.noTimeout .send).1 (hreplies.subset hmem),
    fun hmem => (t.noTimeout .receive).2 (hresults.subset hmem)⟩

theorem Carries.results_of_nothing (h : c.Carries carrier t left taken)
    (hnothing : c.wants = [] ∨ left = []) : c.results = t.results := by
  rw [← h.receives.yielded]
  rcases hnothing with hwants | rfl
  · rw [hwants, List.zipWith_nil_left, List.append_nil]
  · rw [List.zipWith_nil_right, List.append_nil]

/-- An end that reads no more has got all messages, if there were enough reads. -/
theorem Carries.left_nil (h : c.Carries carrier t left taken) (hwants : c.wants = [])
    (henough : t.messages.length ≤ t.wants.length) : left = [] := by
  have hresults := h.results_of_nothing (.inl hwants)
  have hlength : t.results.length = t.messages.length := by
    rw [Talk.results, List.length_zipWith, Nat.min_eq_right henough]
  have hreceived := h.receives.received
  rw [hresults, hlength] at hreceived
  exact List.eq_nil_of_length_eq_zero (by omega)

theorem ready_or_settled (h : c.Carries carrier t left taken) (hlimit : t.limit < 2 ^ 32) :
    (∃ side, c.IsReady carrier side) ∨ c.Settled t := by
  by_cases hfar : c.IsReady carrier .far
  · exact .inl ⟨.far, hfar⟩
  by_cases hnear : c.IsReady carrier .near
  · exact .inl ⟨.near, hnear⟩
  right
  have hwaits : c.wants ≠ [] →
      c.inbound.reading ≠ none ∧ c.inbound.buffer ++ carrier.held c.link = [] := by
    intro hwants
    by_contra hnot
    exact hfar ⟨hwants, by tauto⟩
  -- Nothing held the sending end up but what nobody takes.
  have hcalls : carrier.held c.link = [] → c.calls = [] := by
    intro hheld
    by_contra hsome
    exact hnear ⟨hsome, hheld⟩
  have hnothing : c.wants = [] ∨ left = [] := by
    by_cases hwants : c.wants = []
    · exact .inl hwants
    · obtain ⟨hreading, hempty⟩ := hwaits hwants
      obtain ⟨r, hr⟩ := Option.ne_none_iff_exists'.mp hreading
      exact .inr (h.drained hlimit (hcalls (List.append_eq_nil_iff.mp hempty).2) hempty hr)
  refine ⟨h.results_of_nothing hnothing, ?_⟩
  intro henough
  have hleft : left = [] := hnothing.elim (fun hwants => h.left_nil hwants henough) id
  have hheld : carrier.held c.link = [] := by
    have hstream := h.stream
    rw [hleft, unread, underway] at hstream
    simp only [List.flatMap_nil, List.append_eq_nil_iff] at hstream
    exact hstream.2.2.1
  rw [← h.sends.returned, hcalls hheld]
  simp

/-! ## A run -/

theorem Carries.start (hopen : carrier.isOpen link) (hempty : carrier.held link = [])
    (hflush : t.calls.getLast? = some .flush) :
    (Crossing.start t link).Carries carrier t t.messages [] where
  isOpen := hopen
  sends := by
    refine ⟨rfl, rfl, ⟨rfl, Nat.zero_le _, .inl rfl, Outbound.isPatient_idle rfl, ?_⟩, rfl, ?_,
      .inl hflush⟩
    · simp [Crossing.start, Outbound.pending]
    · simp [Crossing.start]
  receives := by
    refine ⟨rfl, rfl, rfl, Nat.zero_add _, fun v hv => t.sendable hv, ?_, fun _ => rfl⟩
    intro r hr
    cases hr
  stream := by
    have hcome : toCome t.limit (Crossing.start t link).outbound t.calls =
        t.messages.flatMap octets := by
      rw [toCome_of_none rfl, Talk.messages, List.flatMap_assoc]
    rw [unread, underway]
    show [] ++ ([] ++ (carrier.held link ++ ([] ++ ([] ++ _)))) = _
    rw [hempty, ← hcome]
    rfl

theorem grows_run {n m : Nat} (hle : n ≤ m) :
    (run schedule clock c n).Grows (run schedule clock c m) := by
  induction m, hle using Nat.le_induction with
  | base => exact .refl _
  | succ m _ ih => exact ih.trans (grows_turn _ _ _)

/-- At every moment the octets are on their way, unless something took too long. -/
theorem carries_run (hlimit : t.limit < 2 ^ 32) (h : c.Carries carrier t left taken) (n : Nat) :
    (∃ left taken, (run schedule clock c n).Carries carrier t left taken) ∨
      (t.sendWithin.isSome ∨ t.readWithin.isSome) ∧ ¬ (run schedule clock c n).InTime := by
  induction n with
  | zero => exact .inl ⟨left, taken, h⟩
  | succ n ih =>
      have hgrows : (run schedule clock c n).Grows (run schedule clock c (n + 1)) :=
        grows_run (Nat.le_succ n)
      rcases ih with ⟨left, taken, hcarries⟩ | ⟨hpatience, hlate⟩
      · have hturned := turned hlimit hcarries (schedule n) (clock n)
        rw [run]
        generalize (run schedule clock c n).turn (schedule n) (clock n) = c' at hturned
        cases hturned with
        | done hcarries' => exact .inl ⟨_, _, hcarries'⟩
        | idle hwaits => exact .inl ⟨left, taken, hcarries.relink hwaits.toKeeps⟩
        | late hpatience hlate => exact .inr ⟨hpatience, hlate⟩
      · exact .inr ⟨hpatience, fun hintime => hlate (hgrows.inTime hintime)⟩

/-! ## Everything comes -/

/-- What is left to do, and how many attempts may still come too early. -/
def rank (carrier : Carrier L) (limit : Nat) (c : Crossing L) : ℕ ×ₗ ℕ :=
  toLex (c.work carrier limit, carrier.delay c.link)

/-- A turn brings the end nearer, or the end of the connection that had it was not
ready and everything is as it was. -/
inductive Lowers (carrier : Carrier L) (t : Talk) (c : Crossing L) (side : Side)
    (c' : Crossing L) : Prop where
  | done {left : List Value} {taken : Octets} (hcarries : c'.Carries carrier t left taken)
      (hless : c'.rank carrier t.limit < c.rank carrier t.limit) : Lowers carrier t c side c'
  | idle {link : L} (hready : ¬ c.IsReady carrier side) (heq : c' = { c with link })
      (hkeeps : carrier.Keeps c.link link) (hle : c'.rank carrier t.limit ≤ c.rank carrier t.limit) :
      Lowers carrier t c side c'
  | late (hlate : ¬ c'.InTime) : Lowers carrier t c side c'

theorem lowers_turn (hlimit : t.limit < 2 ^ 32) (h : c.Carries carrier t left taken) (side : Side)
    (now : Nat) : Lowers carrier t c side (c.turn side now) := by
  have hturned := turned hlimit h side now
  generalize c.turn side now = c' at hturned
  cases hturned with
  | done hcarries hless => exact .done hcarries (Prod.Lex.toLex_lt_toLex.mpr (.inl hless))
  | @idle link hwaits =>
      have hrelinked := h.relink hwaits.toKeeps
      have hwork : Crossing.work carrier t.limit { c with link } = c.work carrier t.limit := by
        simp only [work, unread, underway, hwaits.held]
      rcases hwaits.why with hless | ⟨hready, hle⟩
      · exact .done hrelinked (Prod.Lex.toLex_lt_toLex.mpr (.inr ⟨hwork, hless⟩))
      · exact .idle hready rfl hwaits.toKeeps (Prod.Lex.toLex_le_toLex.mpr (.inr ⟨hwork, hle⟩))
  | late _ hlate => exact .late hlate

/-- An end that can get on does so when it has its turn, if nothing was done before. -/
theorem lowers_of_ready (hlimit : t.limit < 2 ^ 32) {side : Side} (k : Nat) {n : Nat}
    {c₀ : Crossing L} (h : (run schedule clock c₀ n).Carries carrier t left taken)
    (hready : (run schedule clock c₀ n).IsReady carrier side) (hturn : schedule (n + k) = side) :
    ∃ m ≥ n, (∃ left taken, (run schedule clock c₀ m).Carries carrier t left taken ∧
        (run schedule clock c₀ m).rank carrier t.limit <
          (run schedule clock c₀ n).rank carrier t.limit) ∨
      ¬ (run schedule clock c₀ m).InTime := by
  induction k generalizing n with
  | zero =>
      have hlowers := lowers_turn hlimit h (schedule n) (clock n)
      cases hlowers with
      | done hcarries hless => exact ⟨n + 1, Nat.le_succ n, .inl ⟨_, _, hcarries, hless⟩⟩
      | idle hnot => exact absurd (hturn ▸ hready) hnot
      | late hlate => exact ⟨n + 1, Nat.le_succ n, .inr hlate⟩
  | succ k ih =>
      have hlowers := lowers_turn hlimit h (schedule n) (clock n)
      cases hlowers with
      | done hcarries hless => exact ⟨n + 1, Nat.le_succ n, .inl ⟨_, _, hcarries, hless⟩⟩
      | @idle link hnot heq hkeeps hle =>
          have hcarries' : (run schedule clock c₀ (n + 1)).Carries carrier t left taken := by
            rw [run, heq]
            exact h.relink hkeeps
          have hready' : (run schedule clock c₀ (n + 1)).IsReady carrier side := by
            rw [run, heq]
            exact hready.relink hkeeps
          obtain ⟨m, hm, hless | hlate⟩ := ih hcarries' hready' (by rw [← hturn]; congr 1; omega)
          · obtain ⟨left', taken', hcarries, hless⟩ := hless
            exact ⟨m, by omega, .inl ⟨left', taken', hcarries, hless.trans_le hle⟩⟩
          · exact ⟨m, by omega, .inr hlate⟩
      | late hlate => exact ⟨n + 1, Nat.le_succ n, .inr hlate⟩

/-- Where both ends have turns again and again, everything comes. -/
theorem exists_settled (hlimit : t.limit < 2 ^ 32)
    (hfair : ∀ side n, ∃ m ≥ n, schedule m = side) {c₀ : Crossing L} {n : Nat}
    (h : (run schedule clock c₀ n).Carries carrier t left taken) :
    ∃ m ≥ n, (run schedule clock c₀ m).Settled t ∨ ¬ (run schedule clock c₀ m).InTime := by
  induction hrank : (run schedule clock c₀ n).rank carrier t.limit using WellFoundedLT.induction
    generalizing n left taken with
  | ind rank ih =>
      subst hrank
      rcases ready_or_settled h hlimit with ⟨side, hready⟩ | hsettled
      · obtain ⟨turn, hturn, hside⟩ := hfair side n
        obtain ⟨k, rfl⟩ := Nat.exists_eq_add_of_le hturn
        obtain ⟨m, hm, ⟨left', taken', hcarries, hless⟩ | hlate⟩ :=
          lowers_of_ready hlimit k h hready hside
        · obtain ⟨m', hm', hover⟩ := ih _ hless hcarries rfl
          exact ⟨m', hm.trans hm', hover⟩
        · exact ⟨m, hm, .inr hlate⟩
      · exact ⟨n, Nat.le_refl n, .inl hsettled⟩

/-- Whatever is sent over whatever carrier, in whatever pieces and with the turns in
whatever order: as long as nothing took too long, the calls returned and the reads
gave what is settled, one after the other. If each end has turns again and again,
all reads come for which there are messages, and all calls return if there are enough
reads. A read gets the message whose place it has, and gives it back if it is
of the type that is asked for. What a read makes of its message is nothing to the
other reads, and a call that fails is nothing to any of them. -/
theorem delivered_run (carrier : Carrier L) (t : Talk) (link : L) (schedule : Nat → Side)
    (clock : Nat → Nat) (hlimit : t.limit < 2 ^ 32) (hflush : t.calls.getLast? = some .flush)
    (hopen : carrier.isOpen link) (hempty : carrier.held link = [])
    (hfair : ∀ side n, ∃ m ≥ n, schedule m = side) :
    (∀ n c, c = run schedule clock (Crossing.start t link) n → c.InTime →
      c.replies <+: t.replies ∧ c.results <+: t.results) ∧
    (∃ n, ∀ m ≥ n, ∀ c, c = run schedule clock (Crossing.start t link) m → c.InTime →
      c.results = t.results ∧ (t.messages.length ≤ t.wants.length → c.replies = t.replies)) ∧
    (t.sendWithin = none → t.readWithin = none →
      ∀ n, (run schedule clock (Crossing.start t link) n).InTime) ∧
    (∀ type v, v ∈ t.messages → type.Admits v → (Want.receive type).result v = .ok (some v)) ∧
    (∀ want j k, j ≠ k →
      (Talk.results { t with wants := t.wants.set k want })[j]? = t.results[j]?) ∧
    Talk.messages { t with calls := t.calls.filter fun call => (call.reply t.limit).isOk } =
      t.messages := by
  have hstart : (Crossing.start t link).Carries carrier t t.messages [] := .start hopen hempty hflush
  have hprefix (n : Nat) (hintime : (run schedule clock (Crossing.start t link) n).InTime) :
      (run schedule clock (Crossing.start t link) n).replies <+: t.replies ∧
        (run schedule clock (Crossing.start t link) n).results <+: t.results := by
    rcases carries_run hlimit hstart n with ⟨left, taken, hcarries⟩ | ⟨-, hlate⟩
    · exact ⟨⟨_, hcarries.sends.returned⟩, ⟨_, hcarries.receives.yielded⟩⟩
    · exact absurd hintime hlate
  refine ⟨?_, ?_, ?_, ?_, fun want j k h => t.results_set want h, t.messages_filter⟩
  · rintro n c rfl hintime
    exact hprefix n hintime
  · obtain ⟨n, -, hover⟩ : ∃ n ≥ 0, (run schedule clock (Crossing.start t link) n).Settled t ∨
        ¬ (run schedule clock (Crossing.start t link) n).InTime :=
      exists_settled hlimit hfair (n := 0) hstart
    refine ⟨n, ?_⟩
    rintro m hm c rfl hintime
    have hgrows : (run schedule clock (Crossing.start t link) n).Grows
        (run schedule clock (Crossing.start t link) m) := grows_run hm
    obtain ⟨hreplies, hresults⟩ := hprefix m hintime
    rcases hover with hsettled | hlate
    · -- What had come by then is all there is.
      constructor
      · have hgrown := hgrows.results
        rw [hsettled.results] at hgrown
        exact hresults.eq_of_length_le hgrown.length_le
      · intro henough
        have hgrown := hgrows.replies
        rw [hsettled.replies henough] at hgrown
        exact hreplies.eq_of_length_le hgrown.length_le
    · exact absurd (hgrows.inTime hintime) hlate
  · intro hsend hread n
    rcases carries_run hlimit hstart n with ⟨left, taken, hcarries⟩ | ⟨hpatience, -⟩
    · exact hcarries.inTime
    · rw [hsend, hread] at hpatience
      simp at hpatience
  · intro type v hv htype
    exact Want.result_of_admits htype (t.sendable hv)

/-- Calls of every kind, two of which fail, and reads of which the first asks for
another type than the message has. -/
def mixed : Talk where
  limit := 16
  calls := [.feed (.string "no"), .feed .unsized, .send (.string "over the limit"),
    .sendEncoded [.number .u64 7, .bool true], .flush]
  wants := [.receive (.plain .bool), .receive (.plain (.number .u64)), .skip]

/-- The sending end has every second turn. -/
def byTurns (n : Nat) : Side := if n % 2 = 0 then .near else .far

theorem delivered_mixed : ∃ n, ∀ m ≥ n, ∀ c,
    c = run byTurns id (Crossing.start mixed ({ kind := .bounded 3 } : Pipe)) m →
      c.replies = [.ok (), .error (.encode .unknownLength), .error (.invalidFrame (.tooLarge 22)),
        .ok (), .ok ()] ∧
      c.results = [.error (.decode (.badBool 2)), .ok (some (.number .u64 7)), .ok none] := by
  have hfair : ∀ side n, ∃ m ≥ n, byTurns m = side := by
    intro side n
    cases side with
    | near => exact ⟨2 * n, by omega, by simp [byTurns]⟩
    | far =>
        refine ⟨2 * n + 1, by omega, ?_⟩
        rw [byTurns, if_neg (by omega)]
  obtain ⟨-, ⟨n, hsettled⟩, hintime, -⟩ := delivered_run Pipe.carrier mixed { kind := .bounded 3 }
    byTurns id (by decide) rfl ⟨rfl, by simp [PipeKind.bounded]⟩ rfl hfair
  refine ⟨n, ?_⟩
  rintro m hm c rfl
  obtain ⟨hresults, hreplies⟩ := hsettled m hm _ rfl (hintime rfl rfl m)
  exact ⟨hreplies (by decide), hresults⟩

end Crossing

end Channel

end Switchboard
