import Switchboard.Proofs.Frame.OneShot
import Switchboard.Tunnel

/-!
# The answer to a request for a tunnel

A server answers in text: a status line, header lines and an empty line. The
rules `Judges`, `Headers` and `Answers` say which octets agree and what is wrong
with those that do not, and what is left behind them for the frames. Every
stretch of octets has exactly one answer in it (`exists_answers`,
`Answers.unique`), and the octets that agree are those of the right form
(`answers_ok_iff`).
-/

namespace Switchboard

/-! ## Blanks -/

namespace Text

/-- `core` is what is left of a text without the blanks around it. -/
structure Trims (s core : String) : Prop where
  blanks : ∃ before after, s.toList = before ++ core.toList ++ after ∧
    (∀ c ∈ before, isBlank c) ∧ ∀ c ∈ after, isBlank c
  first : ∀ c ∈ core.toList.head?, isBlank c = false
  last : ∀ c ∈ core.toList.getLast?, isBlank c = false

variable {s core : String}

theorem toList_trim (s : String) :
    (trim s).toList = (s.toList.dropWhile isBlank).rdropWhile isBlank := by
  rw [trim, String.toList_ofList, List.rdropWhile]

theorem trims_trim (s : String) : Trims s (trim s) where
  blanks := by
    refine ⟨s.toList.takeWhile isBlank, (s.toList.dropWhile isBlank).rtakeWhile isBlank, ?_, ?_, ?_⟩
    · rw [toList_trim, List.append_assoc, List.rdropWhile_append_rtakeWhile,
        List.takeWhile_append_dropWhile]
    · intro c hc
      exact List.mem_takeWhile_imp hc
    · intro c hc
      exact List.mem_rtakeWhile_imp hc
  first := by
    intro c hc
    rw [toList_trim] at hc
    -- What is cut off at the end leaves the beginning as it is.
    obtain ⟨after, hfront⟩ := List.rdropWhile_prefix isBlank (s.toList.dropWhile isBlank)
    have hhead : (s.toList.dropWhile isBlank).head? = some c := by
      rw [← hfront, List.head?_append, hc]
      rfl
    have hnot := List.head?_dropWhile_not isBlank s.toList
    rw [hhead] at hnot
    exact hnot
  last := by
    intro c hc
    rw [toList_trim] at hc
    obtain ⟨front, hcore⟩ := List.getLast?_eq_some_iff.mp hc
    have hnot := List.rdropWhile_last_not isBlank (s.toList.dropWhile isBlank) (by simp [hcore])
    simpa [hcore] using hnot

theorem Trims.eq_trim (h : Trims s core) : trim s = core := by
  obtain ⟨⟨before, after, hs, hbefore, hafter⟩, hfirst, hlast⟩ := h
  rw [String.ext_iff, toList_trim, hs, List.append_assoc, List.dropWhile_append_of_pos hbefore]
  rcases hcore : core.toList with _ | ⟨c, cs⟩
  · rw [List.nil_append, List.dropWhile_eq_nil_iff.mpr hafter]
    rfl
  · rw [hcore] at hfirst hlast
    have hc : isBlank c = false := hfirst c rfl
    rw [List.cons_append, List.dropWhile_cons_of_neg (by simp [hc]), ← List.cons_append]
    rw [List.rdropWhile, List.reverse_append, List.dropWhile_append_of_pos (by simpa using hafter),
      ← List.rdropWhile, List.rdropWhile_eq_self_iff]
    intro hne
    have hend := hlast _ (List.getLast?_eq_some_getLast hne)
    simp [hend]

theorem trim_eq_iff : trim s = core ↔ Trims s core :=
  ⟨fun h => h ▸ trims_trim s, Trims.eq_trim⟩

end Text

namespace Tunnel

/-! ## The status line -/

/-- The verdict on a line as a status line. -/
inductive Judges : String → Except CallError Unit → Prop where
  | agrees (protocol rest : String) (hsplit : ' ' ∉ protocol.toList)
      (hhttp : "HTTP/".toList <+: protocol.toList) (hstatus : Text.Trims rest connected) :
      Judges (protocol ++ " " ++ rest) (.ok ())
  | differs (protocol rest status : String) (hsplit : ' ' ∉ protocol.toList)
      (hhttp : "HTTP/".toList <+: protocol.toList) (hstatus : Text.Trims rest status)
      (hsome : status ≠ "") (hother : status ≠ connected) :
      Judges (protocol ++ " " ++ rest) (.error (.unexpectedHttpResponse status))
  | blank (protocol rest : String) (hsplit : ' ' ∉ protocol.toList)
      (hhttp : "HTTP/".toList <+: protocol.toList) (hstatus : Text.Trims rest "") :
      Judges (protocol ++ " " ++ rest)
        (.error (.unexpectedHttpResponse (protocol ++ " " ++ rest)))
  | otherProtocol (protocol rest : String) (hsplit : ' ' ∉ protocol.toList)
      (hhttp : ¬ "HTTP/".toList <+: protocol.toList) :
      Judges (protocol ++ " " ++ rest)
        (.error (.unexpectedHttpResponse (protocol ++ " " ++ rest)))
  | noSpace (line : String) (hsplit : ' ' ∉ line.toList) :
      Judges line (.error (.unexpectedHttpResponse line))

theorem splitAtSpace_none {line : String} (hsplit : ' ' ∉ line.toList) :
    splitAtSpace line = none := by
  have hall : line.toList.dropWhile (· != ' ') = [] := by
    rw [List.dropWhile_eq_nil_iff]
    intro c hc
    simpa using fun heq : c = ' ' => hsplit (heq ▸ hc)
  simp only [splitAtSpace, hall]

theorem splitAtSpace_some {protocol : String} (hsplit : ' ' ∉ protocol.toList) (rest : String) :
    splitAtSpace (protocol ++ " " ++ rest) = some (protocol, rest) := by
  have hall : ∀ c ∈ protocol.toList, (c != ' ') = true := by
    intro c hc
    simpa using fun heq : c = ' ' => hsplit (heq ▸ hc)
  have hline : (protocol ++ " " ++ rest).toList = protocol.toList ++ ' ' :: rest.toList := by
    simp
  simp only [splitAtSpace, hline, List.dropWhile_append_of_pos hall,
    List.takeWhile_append_of_pos hall]
  simp

theorem status_of_http {protocol : String} (hsplit : ' ' ∉ protocol.toList)
    (hhttp : "HTTP/".toList <+: protocol.toList) (rest : String) :
    status (protocol ++ " " ++ rest) = Text.trim rest := by
  simp only [status, splitAtSpace_some hsplit]
  rw [if_pos (String.startsWith_string_iff.mpr hhttp)]

theorem judge_of_judges {line : String} {verdict : Except CallError Unit}
    (h : Judges line verdict) : judge line = verdict := by
  unfold judge
  dsimp only
  cases h with
  | agrees protocol rest hsplit hhttp hstatus =>
      rw [status_of_http hsplit hhttp, hstatus.eq_trim]
      rfl
  | differs protocol rest status hsplit hhttp hstatus hsome hother =>
      rw [status_of_http hsplit hhttp, hstatus.eq_trim, if_neg (by simpa using hsome),
        if_pos hother]
  | blank protocol rest hsplit hhttp hstatus =>
      rw [status_of_http hsplit hhttp, hstatus.eq_trim]
      rfl
  | otherProtocol protocol rest hsplit hhttp =>
      have hnone : status (protocol ++ " " ++ rest) = "" := by
        simp only [status, splitAtSpace_some hsplit]
        rw [if_neg fun hstarts => hhttp (String.startsWith_string_iff.mp hstarts)]
      rw [hnone]
      rfl
  | noSpace _ hsplit =>
      simp only [status, splitAtSpace_none hsplit]
      rfl

theorem exists_judges (line : String) : ∃ verdict, Judges line verdict := by
  by_cases hsplit : ' ' ∈ line.toList
  · obtain ⟨protocol, rest, hline, hprotocol⟩ := List.eq_append_cons_of_mem hsplit
    obtain rfl : line = .ofList protocol ++ " " ++ .ofList rest := by
      rw [String.ext_iff, hline]
      simp
    rw [← @String.toList_ofList protocol] at hprotocol
    generalize String.ofList protocol = protocol at hprotocol
    generalize String.ofList rest = rest
    by_cases hhttp : "HTTP/".toList <+: protocol.toList
    · have htrims := Text.trims_trim rest
      by_cases hblank : Text.trim rest = ""
      · rw [hblank] at htrims
        exact ⟨_, .blank protocol rest hprotocol hhttp htrims⟩
      · by_cases hconnected : Text.trim rest = connected
        · rw [hconnected] at htrims
          exact ⟨_, .agrees protocol rest hprotocol hhttp htrims⟩
        · exact ⟨_, .differs protocol rest _ hprotocol hhttp htrims hblank hconnected⟩
    · exact ⟨_, .otherProtocol protocol rest hprotocol hhttp⟩
  · exact ⟨_, .noSpace line hsplit⟩

theorem judge_eq_iff {line : String} {verdict : Except CallError Unit} :
    judge line = verdict ↔ Judges line verdict := by
  constructor
  · rintro rfl
    obtain ⟨verdict, hjudges⟩ := exists_judges line
    rw [judge_of_judges hjudges]
    exact hjudges
  · exact judge_of_judges

/-! ## Lines -/

/-- Octets that are a line of text, without its end. -/
structure IsText (line : Octets) (text : String) : Prop where
  whole : newline ∉ line
  short : line.length < maxLine
  spells : lineBody line = text.toByteArray.octets

theorem parsesLine_text_iff {octets rest : Octets} {text : String} :
    ParsesLine octets (.ok (.line text)) rest ↔
      ∃ line, octets = line ++ newline :: rest ∧ IsText line text := by
  constructor
  · intro h
    cases h with
    | text _ line _ hline hshort htext => exact ⟨line, rfl, hline, hshort, htext⟩
  · rintro ⟨line, rfl, hline, hshort, htext⟩
    exact .text text line rest hline hshort htext

/-- What is read as a line is text. -/
theorem exists_text {octets rest : Octets} {received : Received}
    (h : ParsesLine octets (.ok received) rest) : ∃ text, received = .line text := by
  cases h with
  | text text => exact ⟨text, rfl⟩

/-- Why no line begins here: the octets are over, or they are no line. -/
inductive NoLine : Octets → CallError → Octets → Prop where
  | ended : NoLine [] .eof []
  | malformed {octets rest : Octets} {fault : FrameFault}
      (hline : ParsesLine octets (.error (.invalidFrame fault)) rest) :
      NoLine octets (.transport (.invalidFrame fault)) rest

/-- Header lines, up to an empty one. -/
inductive Headers : Octets → Except CallError Unit → Octets → Prop where
  | finished {octets rest : Octets} (hline : ParsesLine octets (.ok (.line "")) rest) :
      Headers octets (.ok ()) rest
  | header {octets others rest : Octets} {text : String} {verdict : Except CallError Unit}
      (hline : ParsesLine octets (.ok (.line text)) others) (hsome : text ≠ "")
      (hothers : Headers others verdict rest) : Headers octets verdict rest
  | broken {octets rest : Octets} {error : CallError} (hbroken : NoLine octets error rest) :
      Headers octets (.error error) rest

/-- The answer of a server, and what comes behind it. -/
inductive Answers : Octets → Except CallError Unit → Octets → Prop where
  | agreed {octets headers rest : Octets} {text : String} {verdict : Except CallError Unit}
      (hline : ParsesLine octets (.ok (.line text)) headers) (hjudges : Judges text (.ok ()))
      (hheaders : Headers headers verdict rest) : Answers octets verdict rest
  | refused {octets rest : Octets} {text : String} {error : CallError}
      (hline : ParsesLine octets (.ok (.line text)) rest) (hjudges : Judges text (.error error)) :
      Answers octets (.error error) rest
  | broken {octets rest : Octets} {error : CallError} (hbroken : NoLine octets error rest) :
      Answers octets (.error error) rest

theorem noLine_iff {octets rest : Octets} {error : CallError} :
    NoLine octets error rest ↔
      ∃ fault, ParsesLine octets (.error fault) rest ∧ error = .ofLink fault := by
  constructor
  · intro h
    cases h with
    | ended => exact ⟨.connectionClosed, .nothing, rfl⟩
    | malformed hline => exact ⟨_, hline, rfl⟩
  · rintro ⟨fault, hline, rfl⟩
    cases hline with
    | notUtf8 fault line _ hopen hshort hfault =>
        exact .malformed (.notUtf8 fault line rest hopen hshort hfault)
    | unfinished _ hsome hopen => exact .malformed (.unfinished octets hsome hopen)
    | nothing => exact .ended

/-- Where a line should begin there is one, or there is none. -/
theorem line_or_noLine (octets : Octets) :
    (∃ text rest, ParsesLine octets (.ok (.line text)) rest) ∨
      ∃ error rest, NoLine octets error rest := by
  obtain ⟨result, rest, hline⟩ := exists_parsesLine octets
  cases result with
  | error fault => exact .inr ⟨_, rest, noLine_iff.mpr ⟨fault, hline, rfl⟩⟩
  | ok received =>
      obtain ⟨text, rfl⟩ := exists_text hline
      exact .inl ⟨text, rest, hline⟩

section Unique

variable {octets rest rest' : Octets} {error error' : CallError}
  {verdict verdict' : Except CallError Unit}

theorem NoLine.unique (h : NoLine octets error rest) (h' : NoLine octets error' rest') :
    error = error' ∧ rest = rest' := by
  obtain ⟨fault, hline, rfl⟩ := noLine_iff.mp h
  obtain ⟨fault', hline', rfl⟩ := noLine_iff.mp h'
  obtain ⟨hsame, hrest⟩ := hline.unique hline'
  obtain rfl := Except.error.inj hsame
  exact ⟨rfl, hrest⟩

theorem NoLine.not_line (h : NoLine octets error rest) {text : String}
    (hline : ParsesLine octets (.ok (.line text)) rest') : False := by
  obtain ⟨_, hfault, -⟩ := noLine_iff.mp h
  cases (hfault.unique hline).1

theorem Headers.unique (h : Headers octets verdict rest) (h' : Headers octets verdict' rest') :
    verdict = verdict' ∧ rest = rest' := by
  induction h with
  | finished hline =>
      cases h' with
      | finished hline' => exact ⟨rfl, (hline.unique hline').2⟩
      | header hline' hsome =>
          obtain ⟨hsame, -⟩ := hline.unique hline'
          cases hsame
          exact absurd rfl hsome
      | broken hbroken => exact (hbroken.not_line hline).elim
  | header hline hsome hothers ih =>
      cases h' with
      | finished hline' =>
          obtain ⟨hsame, -⟩ := hline.unique hline'
          cases hsame
          exact absurd rfl hsome
      | header hline' _ hothers' =>
          obtain ⟨-, rfl⟩ := hline.unique hline'
          exact ih hothers'
      | broken hbroken => exact (hbroken.not_line hline).elim
  | broken hbroken =>
      cases h' with
      | finished hline' => exact (hbroken.not_line hline').elim
      | header hline' => exact (hbroken.not_line hline').elim
      | broken hbroken' =>
          obtain ⟨rfl, hrest⟩ := hbroken.unique hbroken'
          exact ⟨rfl, hrest⟩

theorem Answers.unique (h : Answers octets verdict rest) (h' : Answers octets verdict' rest') :
    verdict = verdict' ∧ rest = rest' := by
  have hverdict {text : String} {judged judged' : Except CallError Unit}
      (hj : Judges text judged) (hj' : Judges text judged') : judged = judged' :=
    (judge_of_judges hj).symm.trans (judge_of_judges hj')
  cases h with
  | agreed hline hjudges hheaders =>
      cases h' with
      | agreed hline' _ hheaders' =>
          obtain ⟨-, rfl⟩ := hline.unique hline'
          exact hheaders.unique hheaders'
      | refused hline' hjudges' =>
          obtain ⟨hsame, -⟩ := hline.unique hline'
          cases hsame
          cases hverdict hjudges hjudges'
      | broken hbroken => exact (hbroken.not_line hline).elim
  | refused hline hjudges =>
      cases h' with
      | agreed hline' hjudges' =>
          obtain ⟨hsame, -⟩ := hline.unique hline'
          cases hsame
          cases hverdict hjudges hjudges'
      | refused hline' hjudges' =>
          obtain ⟨hsame, hrest⟩ := hline.unique hline'
          cases hsame
          exact ⟨hverdict hjudges hjudges', hrest⟩
      | broken hbroken => exact (hbroken.not_line hline).elim
  | broken hbroken =>
      cases h' with
      | agreed hline' => exact (hbroken.not_line hline').elim
      | refused hline' => exact (hbroken.not_line hline').elim
      | broken hbroken' =>
          obtain ⟨rfl, hrest⟩ := hbroken.unique hbroken'
          exact ⟨rfl, hrest⟩

end Unique

/-! ## Every stretch of octets has an answer in it -/

/-- What octets are is no matter of time. -/
theorem NoLine.not_timeout {octets rest : Octets} {error : CallError}
    (h : NoLine octets error rest) (operation : Operation) :
    error ≠ .transport (.timeout operation) := by
  cases h <;> simp

theorem Headers.not_timeout {octets rest : Octets} {verdict : Except CallError Unit}
    (h : Headers octets verdict rest) (operation : Operation) :
    verdict ≠ .error (.transport (.timeout operation)) := by
  induction h with
  | finished => simp
  | header _ _ _ ih => exact ih
  | broken hbroken => simpa using hbroken.not_timeout operation

theorem Answers.not_timeout {octets rest : Octets} {verdict : Except CallError Unit}
    (h : Answers octets verdict rest) (operation : Operation) :
    verdict ≠ .error (.transport (.timeout operation)) := by
  cases h with
  | agreed _ _ hheaders => exact hheaders.not_timeout operation
  | refused _ hjudges => cases hjudges <;> simp
  | broken hbroken => simpa using hbroken.not_timeout operation

theorem exists_headers (octets : Octets) : ∃ verdict rest, Headers octets verdict rest := by
  -- The header lines get fewer, and so do the octets.
  induction hlength : octets.length using Nat.strong_induction_on generalizing octets with
  | _ length ih =>
      rcases line_or_noLine octets with ⟨text, rest, hline⟩ | ⟨error, rest, hbroken⟩
      · by_cases hblank : text = ""
        · subst hblank
          exact ⟨_, _, .finished hline⟩
        · have hless : rest.length < length := by
            obtain ⟨line, rfl, -⟩ := parsesLine_text_iff.mp hline
            rw [← hlength, List.length_append, List.length_cons]
            omega
          obtain ⟨verdict, left, hheaders⟩ := ih _ hless rest rfl
          exact ⟨_, _, .header hline hblank hheaders⟩
      · exact ⟨_, _, .broken hbroken⟩

theorem exists_answers (octets : Octets) : ∃ verdict rest, Answers octets verdict rest := by
  rcases line_or_noLine octets with ⟨text, rest, hline⟩ | ⟨error, rest, hbroken⟩
  · obtain ⟨judged, hjudges⟩ := exists_judges text
    cases judged with
    | error error => exact ⟨_, _, .refused hline hjudges⟩
    | ok =>
        obtain ⟨verdict, left, hheaders⟩ := exists_headers rest
        exact ⟨_, _, .agreed hline hjudges hheaders⟩
  · exact ⟨_, _, .broken hbroken⟩

/-! ## The form of octets that agree -/

section Form

variable {octets rest : Octets}

/-- Lines, each with its end. -/
def ofLines (lines : List Octets) : Octets := lines.flatMap (· ++ [newline])

theorem ofLines_cons_append (line : Octets) (lines : List Octets) (rest : Octets) :
    ofLines (line :: lines) ++ rest = line ++ newline :: (ofLines lines ++ rest) := by
  simp [ofLines]

theorem headers_ok_iff :
    Headers octets (.ok ()) rest ↔
      ∃ headers last, octets = ofLines headers ++ (last ++ newline :: rest) ∧
        (∀ line ∈ headers, ∃ text, IsText line text ∧ text ≠ "") ∧ IsText last "" := by
  constructor
  · intro h
    generalize hverdict : Except.ok () = verdict at h
    induction h with
    | finished hline =>
        obtain ⟨last, hoctets, hlast⟩ := parsesLine_text_iff.mp hline
        exact ⟨[], last, hoctets, by simp, hlast⟩
    | header hline hsome _ ih =>
        obtain ⟨line, hoctets, htext⟩ := parsesLine_text_iff.mp hline
        obtain ⟨headers, last, rfl, hheaders, hlast⟩ := ih hverdict
        refine ⟨line :: headers, last, ?_, ?_, hlast⟩
        · rw [hoctets, ofLines_cons_append]
        · intro other hother
          rcases List.mem_cons.mp hother with rfl | hmem
          · exact ⟨_, htext, hsome⟩
          · exact hheaders other hmem
    | broken => cases hverdict
  · rintro ⟨headers, last, rfl, hheaders, hlast⟩
    induction headers with
    | nil => exact .finished (parsesLine_text_iff.mpr ⟨last, rfl, hlast⟩)
    | cons line headers ih =>
        obtain ⟨text, htext, hsome⟩ := hheaders line List.mem_cons_self
        have hothers := ih fun other hother => hheaders other (List.mem_cons_of_mem _ hother)
        rw [ofLines_cons_append]
        exact .header (parsesLine_text_iff.mpr ⟨line, rfl, htext⟩) hsome hothers

/-- Octets of the right form: a status line that agrees, lines that are not empty,
and an empty line; all else is left behind them. -/
def Agrees (octets rest : Octets) : Prop :=
  ∃ status headers last,
    octets = ofLines (status :: headers) ++ (last ++ newline :: rest) ∧
    (∃ text, IsText status text ∧ Judges text (.ok ())) ∧
    (∀ line ∈ headers, ∃ text, IsText line text ∧ text ≠ "") ∧ IsText last ""

theorem answers_ok_iff : Answers octets (.ok ()) rest ↔ Agrees octets rest := by
  constructor
  · intro h
    cases h with
    | agreed hline hjudges hheaders =>
        obtain ⟨status, rfl, hstatus⟩ := parsesLine_text_iff.mp hline
        obtain ⟨headers, last, rfl, hheaders, hlast⟩ := headers_ok_iff.mp hheaders
        exact ⟨status, headers, last, (ofLines_cons_append _ _ _).symm, ⟨_, hstatus, hjudges⟩,
          hheaders, hlast⟩
  · rintro ⟨status, headers, last, rfl, ⟨text, hstatus, hjudges⟩, hheaders, hlast⟩
    rw [ofLines_cons_append]
    exact .agreed (parsesLine_text_iff.mpr ⟨status, rfl, hstatus⟩) hjudges
      (headers_ok_iff.mpr ⟨headers, last, rfl, hheaders, hlast⟩)

end Form

end Tunnel

end Switchboard
