import Switchboard.Proofs.Frame.Inflow

/-!
# Passing over a frame

A frame can be read, or it can be passed over. The two wait for the same octets,
and what follows finds the same left of the stream. They fail together and for
the same reason, but for one case: if the connection says within a payload that
the stream ended early, then a read takes this for a closed connection, and
passing over hands the failure on as it is (`skipped_as_read`).
-/

namespace Switchboard

/-- Neither failed, or both for the same reason. -/
def FailAlike : Except LinkError Received → Except LinkError Received → Prop
  | .ok _, .ok _ => True
  | .error error, .error error' => error = error'
  | .ok _, .error _ | .error _, .ok _ => False

namespace Inflow

/-- A length that is no longer than it may be, and a part of the payload. -/
def CutsPayload (limit : Nat) (octets : Octets) : Prop :=
  ∃ length body, length ≤ limit ∧ length < 2 ^ 32 ∧ body.length < length ∧
    octets = bigEndian 4 length ++ body

/-- The end is met within a frame, or where one is to begin. -/
def EndsEarly (limit : Nat) (s : Inflow) : Prop :=
  (s.octets.length < 4 ∨ CutsPayload limit s.octets) ∧ s.sequel = .ended

/-- Within a payload an attempt fails. -/
def BreaksOff (limit : Nat) (error : IoError) (s : Inflow) : Prop :=
  CutsPayload limit s.octets ∧ ∃ octets sequel, s.sequel = .failure error octets sequel

/-- No failure within a payload says that the stream ended early. -/
def Plain (limit : Nat) (s : Inflow) : Prop :=
  ∀ error, s.BreaksOff limit error → error.kind ≠ .unexpectedEof

/-- What comes of reading a frame and of passing over it. -/
inductive Passes (limit : Nat) (s : Inflow) : Option (Except LinkError Received × Inflow) →
    Option (Except LinkError Received × Inflow) → Prop where
  | whole (payload : ByteArray) (left : Inflow) (hplain : s.Plain limit) :
      Passes limit s (some (.ok (.frame payload), left)) (some (.ok .skipped, left))
  | failed (error : LinkError) (left : Inflow) (hplain : s.Plain limit) :
      Passes limit s (some (.error error, left)) (some (.error error, left))
  | waits (hnothing : s.sequel = .nothing) (hplain : s.Plain limit) : Passes limit s none none
  | broken (error : IoError) (left : Inflow) (hbreaks : s.BreaksOff limit error)
      (hkind : error.kind = .unexpectedEof) :
      Passes limit s (some (.error .connectionClosed, left)) (some (.error (.io error), left))

section Passes

variable {limit : Nat} {octets rest : Octets} {sequel : Sequel}

/-- Reading and passing over that have used the same octets. -/
theorem passes_of_done {result result' : Except LinkError Received}
    (hframe : (Progress.length false []).feed limit octets = .done result rest)
    (hskip : (Progress.length true []).feed limit octets = .done result' rest)
    (h : Passes limit ⟨octets, sequel⟩ (some (result, ⟨rest, sequel⟩))
      (some (result', ⟨rest, sequel⟩))) :
    Passes limit ⟨octets, sequel⟩ (read limit .frame ⟨octets, sequel⟩)
      (read limit .skip ⟨octets, sequel⟩) := by
  have hread : read limit .frame ⟨octets, sequel⟩ = _ := read_of_done hframe sequel
  have hpass : read limit .skip ⟨octets, sequel⟩ = _ := read_of_done hskip sequel
  rw [hread, hpass]
  exact h

/-- Reading and passing over that run into what is behind the octets, where it
does not matter how far they had come. -/
theorem passes_of_more {p q : Progress}
    (hframe : (Progress.length false []).feed limit octets = .more p)
    (hskip : (Progress.length true []).feed limit octets = .more q)
    (hplain : Plain limit ⟨octets, sequel⟩)
    (hfailure : ∀ error octets' sequel', sequel = .failure error octets' sequel' →
      p.onFailure error = q.onFailure error) :
    Passes limit ⟨octets, sequel⟩ (read limit .frame ⟨octets, sequel⟩)
      (read limit .skip ⟨octets, sequel⟩) := by
  have hread : read limit .frame ⟨octets, sequel⟩ = _ := read_of_more hframe sequel
  have hpass : read limit .skip ⟨octets, sequel⟩ = _ := read_of_more hskip sequel
  have hisFrame {skip : Bool} : (Progress.length skip []).IsFrame := by simp [Progress.IsFrame]
  rw [hread, hpass]
  cases sequel with
  | nothing => exact .waits rfl hplain
  | ended =>
      rw [Sequel.meet, Sequel.meet,
        Framed.onEnd_of_isFrame (Progress.feed_of_more hisFrame hframe []).2,
        Framed.onEnd_of_isFrame (Progress.feed_of_more hisFrame hskip []).2]
      exact .failed _ _ hplain
  | failure error octets' sequel' =>
      rw [Sequel.meet, Sequel.meet, hfailure error octets' sequel' rfl]
      exact .failed _ _ hplain

/-- Whether a frame is read or passed over, the end of the stream is the end of
the connection. -/
theorem read_of_endsEarly {s : Inflow} (h : s.EndsEarly limit) (skip : Bool) :
    s.read limit (.ofSkip skip) = some (.error .connectionClosed, ⟨[], .ended⟩) := by
  obtain ⟨octets, sequel⟩ := s
  obtain ⟨hcut, rfl⟩ := h
  have hisFrame : (Progress.length skip []).IsFrame := by simp [Progress.IsFrame]
  have hmore : ∃ p, (Progress.start (.ofSkip skip)).feed limit octets = .more p := by
    rw [Progress.start_ofSkip]
    rcases hcut with hshort | ⟨length, body, hlimit, hsize, hshort, rfl⟩
    · exact ⟨_, Progress.feed_cutLength hshort⟩
    · exact ⟨_, Progress.feed_cutPayload hlimit hsize hshort⟩
  obtain ⟨p, hp⟩ := hmore
  rw [read_of_more hp, Sequel.meet]
  rw [Progress.start_ofSkip] at hp
  rw [Framed.onEnd_of_isFrame (Progress.feed_of_more hisFrame hp []).2]

/-- A failure within a payload is reported by a read as failures of reads are,
and as it is where the frame is passed over. -/
theorem read_of_breaksOff {s : Inflow} {error : IoError} (h : s.BreaksOff limit error) :
    ∃ left, s.read limit .frame = some (.error (.ofRead error), left) ∧
      s.read limit .skip = some (.error (.io error), left) := by
  obtain ⟨octets, sequel⟩ := s
  obtain ⟨⟨length, body, hlimit, hsize, hshort, rfl⟩, octets', sequel', rfl⟩ := h
  have hread : read limit .frame _ = _ :=
    read_of_more (Progress.feed_cutPayload hlimit hsize hshort) (.failure error octets' sequel')
  have hpass : read limit .skip _ = _ :=
    read_of_more (Progress.feed_cutPayload hlimit hsize hshort) (.failure error octets' sequel')
  exact ⟨⟨octets', sequel'⟩, hread, hpass⟩

/-- Whatever there is, one of the four comes of it. -/
theorem passes (limit : Nat) (s : Inflow) :
    s.Passes limit (s.read limit .frame) (s.read limit .skip) := by
  by_cases hplain : s.Plain limit
  · obtain ⟨octets, sequel⟩ := s
    obtain ⟨result, rest, hparses⟩ := exists_parsesFrame limit false octets
    cases hparses with
    | whole payload _ hlimit hsize =>
        exact passes_of_done (Progress.feed_frame hlimit hsize rest)
          (Progress.feed_frame hlimit hsize rest) (.whole payload _ hplain)
    | tooLarge length _ hlimit hsize =>
        have hrefused (skip : Bool) :
            (Progress.length skip []).feed limit (bigEndian 4 length ++ rest) =
              .done (.error (.invalidFrame (.tooLarge length))) rest := by
          rw [Progress.feed_bigEndian hsize, Progress.feedAnnounced, if_pos hlimit]
        exact passes_of_done (hrefused false) (hrefused true) (.failed _ _ hplain)
    | cutLength _ hshort =>
        exact passes_of_more (Progress.feed_cutLength hshort) (Progress.feed_cutLength hshort)
          hplain fun error _ _ _ => rfl
    | cutPayload length body hlimit hsize hshort =>
        refine passes_of_more (Progress.feed_cutPayload hlimit hsize hshort)
          (Progress.feed_cutPayload hlimit hsize hshort) hplain ?_
        rintro error octets' sequel' rfl
        have hkind := hplain error
          ⟨⟨length, body, hlimit, hsize, hshort, rfl⟩, octets', sequel', rfl⟩
        exact if_neg hkind
  · unfold Plain at hplain
    push Not at hplain
    obtain ⟨error, hbreaks, hkind⟩ := hplain
    obtain ⟨left, hread, hpass⟩ := read_of_breaksOff hbreaks
    rw [hread, hpass, LinkError.ofRead, if_pos hkind]
    exact .broken error left hbreaks hkind

end Passes

/-- What a program of reads comes to that begins with a frame, beside what the
same program comes to that passes over the frame. -/
structure PassedOver (limit : Nat) (s : Inflow) (kinds : List ReadKind) (h h' : Harvest) :
    Prop where
  left : h.left = h'.left
  /-- Both wait for ever, or both come to an end and go on alike. -/
  gave :
    (s.sequel = .nothing ∧ h.results = [] ∧ h.todo = .frame :: kinds ∧
      h'.results = [] ∧ h'.todo = .skip :: kinds) ∨
    ∃ result result' later, h.results = result :: later ∧ h'.results = result' :: later ∧
      h.todo = h'.todo ∧
      ((∃ payload, result = .ok (.frame payload)) ↔ result' = .ok .skipped) ∧
      (s.EndsEarly limit → result = .error .connectionClosed ∧
        result' = .error .connectionClosed) ∧
      (FailAlike result result' ↔ s.Plain limit) ∧
      ∀ error, s.BreaksOff limit error → error.kind = .unexpectedEof →
        result = .error .connectionClosed ∧ result' = .error (.io error)

theorem reads_passedOver (limit : Nat) (patient : Bool) (kinds : List ReadKind) (s : Inflow) :
    s.PassedOver limit kinds (s.reads limit patient (.frame :: kinds))
      (s.reads limit patient (.skip :: kinds)) := by
  have hpasses := passes limit s
  have hends (hends : s.EndsEarly limit) :
      s.read limit .frame = some (.error .connectionClosed, ⟨[], .ended⟩) ∧
        s.read limit .skip = some (.error .connectionClosed, ⟨[], .ended⟩) :=
    ⟨read_of_endsEarly hends false, read_of_endsEarly hends true⟩
  -- Where no such failure is, anything follows from one.
  have hnever (hplain : s.Plain limit) (result result' : Except LinkError Received)
      (error : IoError) (hbreaks : s.BreaksOff limit error) (hkind : error.kind = .unexpectedEof) :
      result = .error .connectionClosed ∧ result' = .error (.io error) :=
    absurd hkind (hplain error hbreaks)
  rw [reads, reads]
  generalize s.read limit .frame = read at hpasses hends ⊢
  generalize s.read limit .skip = pass at hpasses hends ⊢
  cases hpasses with
  | whole payload left hplain =>
      refine ⟨rfl, .inr ⟨_, _, _, rfl, rfl, rfl, ?_, ?_, ?_, hnever hplain _ _⟩⟩
      · simp
      · intro hearly
        cases (hends hearly).1
      · simpa [FailAlike] using hplain
  | failed error left hplain =>
      refine ⟨rfl, .inr ⟨_, _, _, rfl, rfl, rfl, ?_, ?_, ?_, hnever hplain _ _⟩⟩
      · simp
      · intro hearly
        cases (hends hearly).1
        exact ⟨rfl, rfl⟩
      · simpa [FailAlike] using hplain
  | waits hnothing hplain =>
      cases patient with
      | true => exact ⟨rfl, .inl ⟨hnothing, rfl, rfl, rfl, rfl⟩⟩
      | false =>
          refine ⟨rfl, .inr ⟨_, _, _, rfl, rfl, rfl, ?_, ?_, ?_, hnever hplain _ _⟩⟩
          · simp
          · intro hearly
            cases (hends hearly).1
          · simpa [FailAlike] using hplain
  | broken error left hbreaks hkind =>
      refine ⟨rfl, .inr ⟨_, _, _, rfl, rfl, rfl, ?_, ?_, ?_, ?_⟩⟩
      · simp
      · intro hearly
        cases (hends hearly).2
      · simp only [FailAlike, reduceCtorEq, false_iff]
        exact fun hplain => hplain error hbreaks hkind
      · rintro other ⟨_, octets, sequel, hother⟩ -
        obtain ⟨-, _, _, heq⟩ := hbreaks
        rw [heq] at hother
        obtain ⟨rfl, -, -⟩ := Sequel.failure.inj hother
        exact ⟨rfl, rfl⟩

end Inflow

namespace Reader

/-- However what there is to read is cut into pieces, and wherever it fails or
ends: a frame is passed over if and only if it is read, and whatever came of it
all that follows is the same. The two fail for the same reason if and only if no
failure within the payload says that the stream ended early. -/
theorem skipped_as_read (f : Framed Script) (hidle : f.inbound.reading = none)
    (hcalm : f.inbound.patience = none ∨ Incoming.Prompt f.link.incoming)
    (kinds : List ReadKind) (clock clock' : Nat → Nat)
    (hclock : ∀ time, ∃ n, ∀ m ≥ n, time ≤ clock m)
    (hclock' : ∀ time, ∃ n, ∀ m ≥ n, time ≤ clock' m) :
    ∃ n, ∀ m ≥ n, ∀ reader skipper : Reader,
      reader = run clock { codec := f, todo := .frame :: kinds } m →
      skipper = run clock' { codec := f, todo := .skip :: kinds } m →
      f.inflow.PassedOver f.inbound.limit kinds
        ⟨reader.results, reader.todo, reader.codec.inflow⟩
        ⟨skipper.results, skipper.todo, skipper.codec.inflow⟩ := by
  obtain ⟨n, hread⟩ := exists_harvest hidle hcalm (.frame :: kinds) hclock
  obtain ⟨n', hskip⟩ := exists_harvest hidle hcalm (.skip :: kinds) hclock'
  refine ⟨max n n', ?_⟩
  rintro m hm reader skipper hreader hskipper
  rw [← hread m (le_of_max_le_left hm) reader hreader,
    ← hskip m (le_of_max_le_right hm) skipper hskipper]
  exact Inflow.reads_passedOver _ _ _ _

/-- Within the payload of a frame the connection says that the stream ended
early; then there is another frame. -/
def cutShort : Framed Script :=
  { link :=
      { incoming := [.data [0, 0], .data [0, 5, 1], .data [2], .failure ⟨.unexpectedEof, "odd"⟩,
          .data [0, 0, 0, 1], .data [9], .ended] } }

theorem skipped_as_read_cutShort :
    ∃ n, ∀ m ≥ n, ∀ reader skipper : Reader,
      reader = run id { codec := cutShort, todo := [.frame, .frame, .line] } m →
      skipper = run (2 * ·) { codec := cutShort, todo := [.skip, .frame, .line] } m →
      reader.codec.inflow = skipper.codec.inflow ∧
        ∃ later, reader.results = .error .connectionClosed :: later ∧
          skipper.results = .error (.io ⟨.unexpectedEof, "odd"⟩) :: later := by
  have hbreaks : cutShort.inflow.BreaksOff maxPayload ⟨.unexpectedEof, "odd"⟩ :=
    ⟨⟨5, [1, 2], by decide, by decide, by decide, rfl⟩, [0, 0, 0, 1, 9], .ended, rfl⟩
  obtain ⟨n, hn⟩ := skipped_as_read cutShort rfl (.inl rfl) [.frame, .line] id (2 * ·)
    (fun time => ⟨time, fun m hm => hm⟩)
    (fun time => ⟨time, fun m hm => Nat.le_trans hm (Nat.le_mul_of_pos_left m (by decide))⟩)
  refine ⟨n, ?_⟩
  rintro m hm reader skipper hreader hskipper
  obtain ⟨hleft, ⟨hnothing, -⟩ | ⟨result, result', later, hread, hskip, -, -, -, -, hodd⟩⟩ :=
    hn m hm reader skipper hreader hskipper
  · cases hnothing
  · obtain ⟨rfl, rfl⟩ := hodd _ hbreaks rfl
    exact ⟨hleft, later, hread, hskip⟩

/-- The read says that the connection is closed; passing over the frame does
not. -/
theorem cutShort_not_closed :
    (run id { codec := cutShort, todo := [.frame, .frame] } 12).results =
      [.error .connectionClosed, .ok (.frame ⟨#[9]⟩)] ∧
    (run id { codec := cutShort, todo := [.skip, .frame] } 12).results =
      [.error (.io ⟨.unexpectedEof, "odd"⟩), .ok (.frame ⟨#[9]⟩)] ∧
    ¬ FailAlike (.error .connectionClosed) (.error (.io ⟨.unexpectedEof, "odd"⟩)) := by
  refine ⟨rfl, rfl, ?_⟩
  simp [FailAlike]

end Reader

end Switchboard
