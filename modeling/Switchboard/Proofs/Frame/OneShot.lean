import Switchboard.Proofs.Frame.Arrival

/-!
# Reading octets that are all there

`oneShot` reads once from a stretch of octets that ends the stream, and `Parses`
says the same by its rules, one for each way a read can end; the two agree
(`oneShot_eq_iff`). A read that is fed with octets as they come is done when
`oneShot` is done with what it was fed, whatever follows (`oneShot_of_done`), and
if it still needs more then the end of the stream makes of it what `oneShot`
makes of what it was fed (`oneShot_of_more`).
-/

namespace Switchboard

/-! ## The rules -/

/-- A read of a frame from octets that are all there: what it gives and what it
leaves. -/
inductive ParsesFrame (limit : Nat) (skip : Bool) :
    Octets → Except LinkError Received → Octets → Prop where
  | whole (payload : ByteArray) (rest : Octets) (hlimit : payload.size ≤ limit)
      (hsize : payload.size < 2 ^ 32) :
      ParsesFrame limit skip (frameOctets payload ++ rest) (.ok (.ofPayload skip payload)) rest
  /-- Just the length is consumed. -/
  | tooLarge (length : Nat) (rest : Octets) (hlimit : limit < length) (hsize : length < 2 ^ 32) :
      ParsesFrame limit skip (bigEndian 4 length ++ rest)
        (.error (.invalidFrame (.tooLarge length))) rest
  | cutLength (octets : Octets) (hshort : octets.length < 4) :
      ParsesFrame limit skip octets (.error .connectionClosed) []
  | cutPayload (length : Nat) (body : Octets) (hlimit : length ≤ limit) (hsize : length < 2 ^ 32)
      (hshort : body.length < length) :
      ParsesFrame limit skip (bigEndian 4 length ++ body) (.error .connectionClosed) []

/-- A line without the carriage returns before its end. -/
def lineBody (line : Octets) : Octets := line.rdropWhile (· == carriageReturn)

/-- A read of a line from octets that are all there. -/
inductive ParsesLine : Octets → Except LinkError Received → Octets → Prop where
  | text (text : String) (line rest : Octets) (hline : newline ∉ line)
      (hshort : line.length < maxLine) (htext : lineBody line = text.toByteArray.octets) :
      ParsesLine (line ++ newline :: rest) (.ok (.line text)) rest
  | notUtf8 (fault : Utf8.Fault) (line rest : Octets) (hline : newline ∉ line)
      (hshort : line.length < maxLine)
      (hfault : Utf8.decode (Octets.toBytes (lineBody line)) = .error fault) :
      ParsesLine (line ++ newline :: rest) (.error (.invalidFrame (.notUtf8 fault))) rest
  | unfinished (octets : Octets) (hsome : octets ≠ []) (hline : newline ∉ octets.take maxLine) :
      ParsesLine octets (.error (.invalidFrame .unfinishedLine)) (octets.drop maxLine)
  | nothing : ParsesLine [] (.error .connectionClosed) []

/-- A read from octets that are all there. -/
def Parses (limit : Nat) : ReadKind → Octets → Except LinkError Received → Octets → Prop
  | .frame => ParsesFrame limit false
  | .skip => ParsesFrame limit true
  | .line => ParsesLine

/-! ## The parser -/

def oneFrame (limit : Nat) (skip : Bool) (octets : Octets) :
    Except LinkError Received × Octets :=
  let length := ofBigEndian (octets.take 4)
  let rest := octets.drop 4
  if octets.length < 4 then (.error .connectionClosed, [])
  else if limit < length then (.error (.invalidFrame (.tooLarge length)), rest)
  else if rest.length < length then (.error .connectionClosed, [])
  else (.ok (.ofPayload skip (Octets.toBytes (rest.take length))), rest.drop length)

def oneLine (octets : Octets) : Except LinkError Received × Octets :=
  let line := octets.takeWhile (· != newline)
  if line.length < octets.length ∧ line.length < maxLine then
    (lineText line, octets.drop (line.length + 1))
  else if octets.isEmpty then (.error .connectionClosed, [])
  else (.error (.invalidFrame .unfinishedLine), octets.drop maxLine)

/-- One read from octets that are all there. -/
def oneShot (limit : Nat) : ReadKind → Octets → Except LinkError Received × Octets
  | .frame => oneFrame limit false
  | .skip => oneFrame limit true
  | .line => oneLine

/-- One read after the other from octets that are all there. -/
def oneShots (limit : Nat) : List ReadKind → Octets → List (Except LinkError Received) × Octets
  | [], octets => ([], octets)
  | kind :: kinds, octets =>
      let (result, rest) := oneShot limit kind octets
      let (results, rest) := oneShots limit kinds rest
      (result :: results, rest)

theorem oneShots_append (limit : Nat) (kinds more : List ReadKind) (octets : Octets) :
    oneShots limit (kinds ++ more) octets =
      ((oneShots limit kinds octets).1 ++
          (oneShots limit more (oneShots limit kinds octets).2).1,
        (oneShots limit more (oneShots limit kinds octets).2).2) := by
  induction kinds generalizing octets with
  | nil => rfl
  | cons kind kinds ih => simp [oneShots, ih]

theorem length_oneShots (limit : Nat) (kinds : List ReadKind) (octets : Octets) :
    (oneShots limit kinds octets).1.length = kinds.length := by
  induction kinds generalizing octets with
  | nil => rfl
  | cons kind kinds ih => simp [oneShots, ih]

theorem oneShots_append_singleton {limit : Nat} {kinds : List ReadKind} {octets rest rest' : Octets}
    {results : List (Except LinkError Received)} {kind : ReadKind}
    {result : Except LinkError Received} (h : oneShots limit kinds octets = (results, rest))
    (hlast : oneShot limit kind rest = (result, rest')) :
    oneShots limit (kinds ++ [kind]) octets = (results ++ [result], rest') := by
  rw [oneShots_append, h]
  simp only [oneShots, hlast]

/-! ## Frames -/

section Frame

variable {limit : Nat} {skip : Bool} {octets rest : Octets} {result : Except LinkError Received}

/-- Every stretch of octets is read as a frame in some way. -/
theorem exists_parsesFrame (limit : Nat) (skip : Bool) (octets : Octets) :
    ∃ result rest, ParsesFrame limit skip octets result rest := by
  by_cases hshort : octets.length < 4
  · exact ⟨_, _, .cutLength octets hshort⟩
  · have hfour : (octets.take 4).length = 4 := by
      rw [List.length_take]
      omega
    have hsize := ofBigEndian_lt hfour
    -- The octets begin with the number that is read from them.
    have hsplit : octets = bigEndian 4 (ofBigEndian (octets.take 4)) ++ octets.drop 4 := by
      rw [bigEndian_ofBigEndian hfour, List.take_append_drop]
    generalize ofBigEndian (octets.take 4) = length at hsize hsplit
    generalize octets.drop 4 = body at hsplit
    subst hsplit
    by_cases hlimit : limit < length
    · exact ⟨_, _, .tooLarge length body hlimit hsize⟩
    · by_cases hcut : body.length < length
      · exact ⟨_, _, .cutPayload length body (Nat.not_lt.mp hlimit) hsize hcut⟩
      · have hpayload : (Octets.toBytes (body.take length)).size = length := by
          rw [Octets.size_toBytes, List.length_take]
          omega
        have hbody : bigEndian 4 length ++ body =
            frameOctets (Octets.toBytes (body.take length)) ++ body.drop length := by
          rw [frameOctets, hpayload, Octets.octets_toBytes, List.append_assoc,
            List.take_append_drop]
        rw [hbody]
        exact ⟨_, _, .whole _ _ (by omega) (by omega)⟩

theorem oneFrame_of_parses (h : ParsesFrame limit skip octets result rest) :
    oneFrame limit skip octets = (result, rest) := by
  have hnumber {length : Nat} (hsize : length < 2 ^ 32) (body : Octets) :
      ofBigEndian ((bigEndian 4 length ++ body).take 4) = length ∧
        (bigEndian 4 length ++ body).drop 4 = body ∧
        ¬ (bigEndian 4 length ++ body).length < 4 := by
    have hfour : (bigEndian 4 length).length = 4 := length_bigEndian 4 length
    refine ⟨?_, List.drop_left' hfour, by rw [List.length_append]; omega⟩
    rw [List.take_left' hfour, ofBigEndian_bigEndian]
    exact Nat.mod_eq_of_lt hsize
  unfold oneFrame
  dsimp only
  cases h with
  | whole payload _ hlimit hsize =>
      rw [frameOctets, List.append_assoc]
      obtain ⟨hlength, hdrop, hlong⟩ := hnumber hsize (payload.octets ++ rest)
      have hpayload : payload.octets.length = payload.size := Octets.length_octets payload
      rw [hlength, hdrop, if_neg hlong, if_neg (Nat.not_lt.mpr hlimit),
        if_neg (by rw [List.length_append]; omega), List.take_left' hpayload,
        List.drop_left' hpayload, Octets.toBytes_octets]
  | tooLarge length _ hlimit hsize =>
      obtain ⟨hlength, hdrop, hlong⟩ := hnumber hsize rest
      rw [hlength, hdrop, if_neg hlong, if_pos hlimit]
  | cutLength _ hshort => rw [if_pos hshort]
  | cutPayload length body hlimit hsize hshort =>
      obtain ⟨hlength, hdrop, hlong⟩ := hnumber hsize body
      rw [hlength, hdrop, if_neg hlong, if_neg (Nat.not_lt.mpr hlimit), if_pos hshort]

end Frame

/-! ## Lines -/

section Line

variable {line octets rest : Octets} {result : Except LinkError Received}

/-- Either a line ends within so many octets, or no line end is among them. -/
theorem line_cases (room : Nat) (octets : Octets) :
    (∃ line rest, octets = line ++ newline :: rest ∧ newline ∉ line ∧ line.length < room) ∨
      newline ∉ octets.take room := by
  by_cases hmem : newline ∈ octets.take room
  · left
    obtain ⟨line, left, htake, hline⟩ := List.eq_append_cons_of_mem hmem
    have hlength := congrArg List.length htake
    rw [List.length_take, List.length_append, List.length_cons] at hlength
    refine ⟨line, left ++ octets.drop room, ?_, hline, by omega⟩
    rw [← List.cons_append, ← List.append_assoc, ← htake, List.take_append_drop]
  · exact Or.inr hmem

theorem takeWhile_open (hopen : newline ∉ octets) : octets.takeWhile (· != newline) = octets := by
  rw [List.takeWhile_eq_self_iff]
  intro b hb
  simpa using fun heq : b = newline => hopen (heq ▸ hb)

theorem takeWhile_line (hline : newline ∉ line) (rest : Octets) :
    (line ++ newline :: rest).takeWhile (· != newline) = line := by
  rw [List.takeWhile_append_of_pos]
  · simp
  · intro b hb
    simpa using fun heq : b = newline => hline (heq ▸ hb)

theorem lineText_ok {text : String}
    (h : Utf8.decode (Octets.toBytes (lineBody line)) = .ok text) :
    lineText line = .ok (.line text) := by
  rw [lineBody, List.rdropWhile] at h
  simp only [lineText]
  rw [h]

theorem lineText_error {fault : Utf8.Fault}
    (h : Utf8.decode (Octets.toBytes (lineBody line)) = .error fault) :
    lineText line = .error (.invalidFrame (.notUtf8 fault)) := by
  rw [lineBody, List.rdropWhile] at h
  simp only [lineText]
  rw [h]

/-- A line that ends gives its text, or what is wrong with it. -/
theorem parsesLine_lineText (hline : newline ∉ line) (hshort : line.length < maxLine)
    (rest : Octets) : ParsesLine (line ++ newline :: rest) (lineText line) rest := by
  cases hdecode : Utf8.decode (Octets.toBytes (lineBody line)) with
  | ok text =>
      rw [lineText_ok hdecode]
      refine .text text line rest hline hshort ?_
      rw [← Utf8.eq_toByteArray_of_decode hdecode, Octets.octets_toBytes]
  | error fault =>
      rw [lineText_error hdecode]
      exact .notUtf8 fault line rest hline hshort hdecode

/-- What is read as a line either has its end within the longest line, or does
not. -/
theorem ParsesLine.ended_or_open (h : ParsesLine octets result rest) :
    (∃ line, octets = line ++ newline :: rest ∧ newline ∉ line ∧ line.length < maxLine ∧
        result = lineText line) ∨
      newline ∉ octets.take maxLine ∧ rest = octets.drop maxLine ∧
        result = .error (Progress.line octets).onEnd := by
  cases h with
  | text text line _ hline hshort htext =>
      refine Or.inl ⟨line, rfl, hline, hshort, (lineText_ok ?_).symm⟩
      rw [htext, Octets.toBytes_octets, Utf8.decode_toByteArray]
  | notUtf8 fault line _ hline hshort hfault =>
      exact Or.inl ⟨line, rfl, hline, hshort, (lineText_error hfault).symm⟩
  | unfinished _ hsome hopen =>
      refine Or.inr ⟨hopen, rfl, ?_⟩
      obtain ⟨b, bs, rfl⟩ := List.exists_cons_of_ne_nil hsome
      rfl
  | nothing => exact Or.inr ⟨by simp, rfl, rfl⟩

/-- Every stretch of octets is read as a line in some way. -/
theorem exists_parsesLine (octets : Octets) : ∃ result rest, ParsesLine octets result rest := by
  rcases line_cases maxLine octets with ⟨line, rest, rfl, hline, hshort⟩ | hopen
  · exact ⟨_, _, parsesLine_lineText hline hshort rest⟩
  · by_cases hnil : octets = []
    · subst hnil
      exact ⟨_, _, .nothing⟩
    · exact ⟨_, _, .unfinished octets hnil hopen⟩

theorem oneLine_of_parses (h : ParsesLine octets result rest) :
    oneLine octets = (result, rest) := by
  unfold oneLine
  dsimp only
  rcases h.ended_or_open with ⟨line, rfl, hline, hshort, rfl⟩ | ⟨hopen, rfl, rfl⟩
  · rw [takeWhile_line hline, if_pos ⟨by simp, hshort⟩]
    simp
  · rw [if_neg]
    · cases octets with
      | nil => rfl
      | cons b bs => rfl
    · rintro ⟨hless, hshort⟩
      -- A line end is somewhere, so it is within the longest line.
      rcases line_cases octets.length octets with ⟨line, rest, rfl, hline, _⟩ | hnone
      · rw [takeWhile_line hline] at hshort
        refine hopen (List.mem_take_iff_getElem.mpr ⟨line.length, ?_, by simp⟩)
        rw [List.length_append, List.length_cons]
        omega
      · rw [List.take_length] at hnone
        rw [takeWhile_open hnone] at hless
        exact Nat.lt_irrefl _ hless

/-- There is one way to read a line. -/
theorem ParsesLine.unique {result' : Except LinkError Received} {rest' : Octets}
    (h : ParsesLine octets result rest) (h' : ParsesLine octets result' rest') :
    result = result' ∧ rest = rest' :=
  Prod.mk.inj ((oneLine_of_parses h).symm.trans (oneLine_of_parses h'))

end Line

theorem exists_parses (limit : Nat) (kind : ReadKind) (octets : Octets) :
    ∃ result rest, Parses limit kind octets result rest := by
  cases kind with
  | frame => exact exists_parsesFrame limit false octets
  | skip => exact exists_parsesFrame limit true octets
  | line => exact exists_parsesLine octets

/-- The parser follows the rules, and the rules leave it no choice. -/
theorem oneShot_eq_iff {limit : Nat} {kind : ReadKind} {octets rest : Octets}
    {result : Except LinkError Received} :
    oneShot limit kind octets = (result, rest) ↔ Parses limit kind octets result rest := by
  have hparse {result : Except LinkError Received} {rest : Octets}
      (h : Parses limit kind octets result rest) : oneShot limit kind octets = (result, rest) := by
    cases kind with
    | frame => exact oneFrame_of_parses h
    | skip => exact oneFrame_of_parses h
    | line => exact oneLine_of_parses h
  refine ⟨fun h => ?_, hparse⟩
  obtain ⟨_, _, hparses⟩ := exists_parses limit kind octets
  obtain ⟨rfl, rfl⟩ := Prod.mk.inj ((hparse hparses).symm.trans h)
  exact hparses

namespace Progress

/-! ## Feeding a line -/

section Line

variable {seen line octets rest : Octets} {result : Except LinkError Received} {p : Progress}

theorem feedLine_ended (hline : newline ∉ line) (hshort : seen.length + line.length < maxLine)
    (rest : Octets) :
    feedLine seen (line ++ newline :: rest) = .done (lineText (seen ++ line)) rest := by
  obtain ⟨room, hroom⟩ := Nat.exists_eq_add_of_lt hshort
  have hwindow : (line ++ newline :: rest).take (maxLine - seen.length) =
      line ++ newline :: rest.take room := by
    rw [List.take_append, List.take_of_length_le (by omega),
      show maxLine - seen.length - line.length = room + 1 by omega, List.take_succ_cons]
  unfold feedLine
  dsimp only
  rw [hwindow, takeWhile_line hline, if_pos (by simp)]
  simp

theorem feedLine_open (hopen : newline ∉ octets)
    (hshort : seen.length + octets.length < maxLine) :
    feedLine seen octets = .more (.line (seen ++ octets)) := by
  unfold feedLine
  dsimp only
  rw [List.take_of_length_le (by omega), takeWhile_open hopen, if_neg (Nat.lt_irrefl _),
    if_pos (by omega)]

theorem feedLine_full (hopen : newline ∉ octets.take (maxLine - seen.length))
    (hlong : maxLine ≤ seen.length + octets.length) :
    feedLine seen octets = .done (.error (.invalidFrame .unfinishedLine))
      (octets.drop (maxLine - seen.length)) := by
  unfold feedLine
  dsimp only
  rw [takeWhile_open hopen, if_neg (Nat.lt_irrefl _), if_neg (by rw [List.length_take]; omega)]

/-- What a read of a line that has seen something comes to. -/
theorem feedLine_cases (seen octets : Octets) (hseen : seen.length < maxLine) :
    (∃ line rest, octets = line ++ newline :: rest ∧ newline ∉ line ∧
        seen.length + line.length < maxLine ∧
        feedLine seen octets = .done (lineText (seen ++ line)) rest) ∨
      (newline ∉ octets ∧ seen.length + octets.length < maxLine ∧
        feedLine seen octets = .more (.line (seen ++ octets))) ∨
      newline ∉ octets.take (maxLine - seen.length) ∧ maxLine ≤ seen.length + octets.length ∧
        feedLine seen octets = .done (.error (.invalidFrame .unfinishedLine))
          (octets.drop (maxLine - seen.length)) := by
  rcases line_cases (maxLine - seen.length) octets with ⟨line, rest, rfl, hline, hroom⟩ | hopen
  · have hshort : seen.length + line.length < maxLine := by omega
    exact Or.inl ⟨line, rest, rfl, hline, hshort, feedLine_ended hline hshort rest⟩
  · by_cases hlong : maxLine ≤ seen.length + octets.length
    · exact Or.inr (Or.inr ⟨hopen, hlong, feedLine_full hopen hlong⟩)
    · have hshort : seen.length + octets.length < maxLine := Nat.not_le.mp hlong
      rw [List.take_of_length_le (by omega)] at hopen
      exact Or.inr (Or.inl ⟨hopen, hshort, feedLine_open hopen hshort⟩)

theorem feedLine_of_more (h : feedLine [] octets = .more p) (more : Octets) :
    feedLine [] (octets ++ more) = feedLine octets more ∧ p = .line octets := by
  have hnil : ([] : Octets).length < maxLine := by decide
  rcases feedLine_cases [] octets hnil with ⟨_, _, rfl, _, _, hdone⟩ | ⟨hopen, hshort, hfed⟩ |
    ⟨_, _, hdone⟩
  · rw [hdone] at h
    cases h
  · rw [hfed] at h
    refine ⟨?_, (Fed.more.inj h).symm⟩
    rw [List.length_nil, Nat.zero_add] at hshort
    rcases feedLine_cases octets more hshort with ⟨line, rest, rfl, hline, hroom, hmore⟩ |
      ⟨hopen', hroom, hmore⟩ | ⟨hopen', hlong, hmore⟩
    · rw [hmore, ← List.append_assoc, feedLine_ended]
      · rw [List.nil_append]
      · simp [hopen, hline]
      · simpa using hroom
    · rw [hmore, feedLine_open]
      · rw [List.nil_append]
      · simp [hopen, hopen']
      · simpa using hroom
    · have htake : octets.take maxLine = octets := List.take_of_length_le (Nat.le_of_lt hshort)
      have hdrop : octets.drop maxLine = [] := List.drop_eq_nil_of_le (Nat.le_of_lt hshort)
      rw [hmore, feedLine_full]
      · rw [List.length_nil, Nat.sub_zero, List.drop_append, hdrop, List.nil_append]
      · rw [List.length_nil, Nat.sub_zero, List.take_append, htake]
        simp [hopen, hopen']
      · simpa using hlong
  · rw [hdone] at h
    cases h

/-- A line that goes on has not ended, and may still get longer. -/
theorem open_of_feedLine (h : feedLine [] octets = .more p) :
    newline ∉ octets ∧ octets.length < maxLine := by
  have hnil : ([] : Octets).length < maxLine := by decide
  rcases feedLine_cases [] octets hnil with ⟨_, _, _, _, _, hdone⟩ | ⟨hopen, hshort, _⟩ |
    ⟨_, _, hdone⟩
  · rw [hdone] at h
    cases h
  · exact ⟨hopen, by simpa using hshort⟩
  · rw [hdone] at h
    cases h

theorem feedLine_of_done (h : feedLine [] octets = .done result rest) (more : Octets) :
    feedLine [] (octets ++ more) = .done result (rest ++ more) := by
  have hnil : ([] : Octets).length < maxLine := by decide
  rcases feedLine_cases [] octets hnil with ⟨_, _, rfl, hline, hshort, hdone⟩ | ⟨_, _, hmore⟩ |
    ⟨hopen, hlong, hdone⟩
  · rw [hdone] at h
    cases h
    rw [List.append_assoc, List.cons_append, feedLine_ended hline hshort]
  · rw [hmore] at h
    cases h
  · rw [hdone] at h
    cases h
    rw [List.length_nil, Nat.zero_add] at hlong
    rw [List.length_nil, Nat.sub_zero] at hopen ⊢
    rw [feedLine_full, List.length_nil, Nat.sub_zero, List.drop_append_of_le_length hlong]
    · rw [List.length_nil, Nat.sub_zero, List.take_append_of_le_length hlong]
      exact hopen
    · rw [List.length_nil, List.length_append]
      omega

end Line

/-! ## Feeding and parsing -/

section Start

variable {limit : Nat} {kind : ReadKind} {octets rest : Octets}
  {result : Except LinkError Received} {p : Progress}

/-- A read that needs more goes on where it was. -/
theorem feed_start_of_more (h : (start kind).feed limit octets = .more p) (more : Octets) :
    (start kind).feed limit (octets ++ more) = p.feed limit more := by
  cases kind with
  | frame => exact (feed_of_more (by simp [start, IsFrame]) h more).1
  | skip => exact (feed_of_more (by simp [start, IsFrame]) h more).1
  | line =>
      obtain ⟨hfed, rfl⟩ := feedLine_of_more h more
      exact hfed

/-- A read that is done leaves alone what comes behind. -/
theorem feed_start_of_done (h : (start kind).feed limit octets = .done result rest)
    (more : Octets) : (start kind).feed limit (octets ++ more) = .done result (rest ++ more) := by
  cases kind with
  | frame => exact (feed_of_done (by simp [start, IsFrame]) h more).1
  | skip => exact (feed_of_done (by simp [start, IsFrame]) h more).1
  | line => exact feedLine_of_done h more

/-- A read of a frame waits for the rest of a length. -/
theorem feed_cutLength {skip : Bool} (hshort : octets.length < 4) :
    (length skip []).feed limit octets = .more (.length skip octets) := by
  rw [feed, feedLength_eq, if_pos (by simpa using hshort), List.nil_append]

/-- A read of a frame waits for the rest of a payload. -/
theorem feed_cutPayload {skip : Bool} {length : Nat} {body : Octets} (hlimit : length ≤ limit)
    (hsize : length < 2 ^ 32) (hshort : body.length < length) :
    (Progress.length skip []).feed limit (bigEndian 4 length ++ body) =
      .more (if skip then .skipping (length - body.length)
        else .payload body (length - body.length)) := by
  have hneed : length - body.length ≠ 0 := by omega
  rw [feed_bigEndian hsize, feedAnnounced, if_neg (Nat.not_lt.mpr hlimit)]
  cases skip with
  | true =>
      rw [if_pos rfl, feedSkipping]
      exact if_neg hneed
  | false =>
      rw [if_neg Bool.false_ne_true, feedPayload,
        List.take_of_length_le (Nat.le_of_lt hshort), List.nil_append]
      exact if_neg hneed

/-- A read that is given octets which are parsed as a frame. -/
theorem feed_of_parsesFrame {skip : Bool} (h : ParsesFrame limit skip octets result rest) :
    (length skip []).feed limit octets = .done result rest ∨
      ∃ p, (length skip []).feed limit octets = .more p ∧ result = .error p.onEnd ∧ rest = [] := by
  have hstart : (length skip []).IsFrame := by simp [IsFrame]
  -- A stream that ends too early.
  have hmore {p : Progress} (hfed : (length skip []).feed limit octets = .more p)
      (hclosed : result = .error .connectionClosed) (hrest : rest = []) :
      ∃ p, (length skip []).feed limit octets = .more p ∧ result = .error p.onEnd ∧ rest = [] :=
    ⟨p, hfed, by rw [Framed.onEnd_of_isFrame (feed_of_more hstart hfed []).2, hclosed], hrest⟩
  cases h with
  | whole payload _ hlimit hsize => exact Or.inl (feed_frame hlimit hsize rest)
  | tooLarge length _ hlimit hsize =>
      refine Or.inl ?_
      rw [feed_bigEndian hsize, feedAnnounced, if_pos hlimit]
  | cutLength _ hshort => exact Or.inr (hmore (feed_cutLength hshort) rfl rfl)
  | cutPayload length body hlimit hsize hshort =>
      exact Or.inr (hmore (feed_cutPayload hlimit hsize hshort) rfl rfl)

/-- A read that is given octets is done as they are parsed, or the end of the
stream does the rest. -/
theorem feed_of_parses (h : Parses limit kind octets result rest) :
    (start kind).feed limit octets = .done result rest ∨
      ∃ p, (start kind).feed limit octets = .more p ∧ result = .error p.onEnd ∧ rest = [] := by
  cases kind with
  | frame => exact feed_of_parsesFrame h
  | skip => exact feed_of_parsesFrame h
  | line =>
      rcases ParsesLine.ended_or_open h with ⟨line, rfl, hline, hshort, rfl⟩ | ⟨hopen, rfl, rfl⟩
      · exact Or.inl (feedLine_ended hline (by simpa using hshort) rest)
      · by_cases hlong : maxLine ≤ octets.length
        · obtain ⟨b, bs, rfl⟩ := List.exists_cons_of_length_pos
            (Nat.lt_of_lt_of_le (by decide : 0 < maxLine) hlong)
          have hfull := @feedLine_full [] _ hopen (by simpa using hlong)
          exact Or.inl hfull
        · have hshort : octets.length < maxLine := Nat.not_le.mp hlong
          rw [List.take_of_length_le (Nat.le_of_lt hshort)] at hopen
          exact Or.inr ⟨_, feedLine_open hopen (by simpa using hshort), rfl,
            List.drop_eq_nil_of_le (Nat.le_of_lt hshort)⟩

theorem oneShot_of_done (h : (start kind).feed limit octets = .done result rest) :
    oneShot limit kind octets = (result, rest) := by
  obtain ⟨_, _, hparses⟩ := exists_parses limit kind octets
  rcases feed_of_parses hparses with hdone | ⟨_, hmore, _⟩
  · rw [h] at hdone
    obtain ⟨rfl, rfl⟩ := Fed.done.inj hdone
    exact oneShot_eq_iff.mpr hparses
  · rw [h] at hmore
    cases hmore

theorem oneShot_of_more (h : (start kind).feed limit octets = .more p) :
    oneShot limit kind octets = (.error p.onEnd, []) := by
  obtain ⟨_, _, hparses⟩ := exists_parses limit kind octets
  rcases feed_of_parses hparses with hdone | ⟨_, hmore, rfl, rfl⟩
  · rw [h] at hdone
    cases hdone
  · rw [h] at hmore
    obtain rfl := Fed.more.inj hmore
    exact oneShot_eq_iff.mpr hparses

end Start

end Progress

end Switchboard
