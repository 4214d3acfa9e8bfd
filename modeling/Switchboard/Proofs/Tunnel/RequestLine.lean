import Switchboard.Proofs.Frame.Inflow
import Switchboard.Proofs.Tunnel.Outcome

/-!
# The lines of a request

A request for a tunnel is a text, and the server takes it for lines. A handshake that
waits for an answer has sent the octets of that text and sends no others
(`Course.sent_of_awaits`); however they are cut into pieces, what the server reads in
them is what it reads in all of them (`Framed.Receives.comesTo_iff`). It finds the line
that was meant, the empty line and then what comes behind, whatever else it reads, if
no line end is in the path and the line is not too long, and otherwise it does not
(`Course.requested_iff`): nothing looks at the path, so a line end in it ends the line,
and what is behind that is for the server to read on.
-/

namespace Switchboard

/-! ## Line ends in a text -/

/-- A text is written character by character. -/
theorem octets_string (s : String) :
    s.toByteArray.octets = s.toList.flatMap String.utf8EncodeChar := by
  rw [← String.utf8Encode_toList]
  exact List.toList_data_toByteArray

theorem octets_string_append (s t : String) :
    (s ++ t).toByteArray.octets = s.toByteArray.octets ++ t.toByteArray.octets := by
  rw [octets_string, octets_string, octets_string, String.toList_append, List.flatMap_append]

/-- In a character of several octets every one of them is high. -/
theorem high_of_mem_utf8EncodeChar {c : Char} (hsize : c.utf8Size ≠ 1) {b : UInt8}
    (hb : b ∈ String.utf8EncodeChar c) : 128 ≤ b.toNat := by
  have hor (b : UInt8) {mark : UInt8} (hmark : 128 ≤ mark.toNat) : 128 ≤ (b ||| mark).toNat := by
    rw [UInt8.toNat_or]
    exact hmark.trans Nat.right_le_or
  rcases Char.utf8Size_eq c with heq | heq | heq | heq
  · exact absurd heq hsize
  · rw [String.utf8EncodeChar_eq_cons_cons heq] at hb
    simp only [List.mem_cons, List.not_mem_nil, or_false] at hb
    rcases hb with rfl | rfl <;> exact hor _ (by decide)
  · rw [String.utf8EncodeChar_eq_cons_cons_cons heq] at hb
    simp only [List.mem_cons, List.not_mem_nil, or_false] at hb
    rcases hb with rfl | rfl | rfl <;> exact hor _ (by decide)
  · rw [String.utf8EncodeChar_eq_cons_cons_cons_cons heq] at hb
    simp only [List.mem_cons, List.not_mem_nil, or_false] at hb
    rcases hb with rfl | rfl | rfl | rfl <;> exact hor _ (by decide)

theorem newline_mem_utf8EncodeChar (c : Char) :
    newline ∈ String.utf8EncodeChar c ↔ c = '\n' := by
  by_cases hsize : c.utf8Size = 1
  · have hsmall : c.val.toNat ≤ 127 := UInt32.le_iff_toNat_le.mp (Char.utf8Size_eq_one_iff.mp hsize)
    rw [String.utf8EncodeChar_eq_singleton hsize, List.mem_singleton]
    constructor
    · intro heq
      have hval := congrArg UInt8.toNat heq
      rw [UInt32.toNat_toUInt8, Nat.mod_eq_of_lt (by omega)] at hval
      exact Char.ext (UInt32.toNat_inj.mp hval.symm)
    · rintro rfl
      rfl
  · constructor
    · intro hmem
      exact absurd (high_of_mem_utf8EncodeChar hsize hmem) (by decide)
    · rintro rfl
      exact absurd rfl hsize

theorem newline_mem_octets {s : String} : newline ∈ s.toByteArray.octets ↔ '\n' ∈ s.toList := by
  simp [octets_string, newline_mem_utf8EncodeChar]

namespace Tunnel

/-- The line with which a tunnel is asked for. -/
def requestLine (path : String) : String := "CONNECT " ++ path ++ " HTTP/1.0"

theorem requestOctets_eq (path : String) :
    requestOctets path = (requestLine path).toByteArray.octets ++ [newline, newline] := by
  have hrequest : request path = requestLine path ++ "\n\n" := by
    simp only [request, requestLine, String.append_assoc]
    rfl
  rw [requestOctets, hrequest, octets_string_append]
  rfl

/-- A path with a line end in it is cut there. -/
theorem requestOctets_cut (front back : String) :
    requestOctets (front ++ "\n" ++ back) =
      ("CONNECT " ++ front).toByteArray.octets ++
        newline :: (back ++ " HTTP/1.0\n\n").toByteArray.octets := by
  have hrequest : request (front ++ "\n" ++ back) =
      "CONNECT " ++ front ++ "\n" ++ (back ++ " HTTP/1.0\n\n") := by
    simp only [request, String.append_assoc]
  rw [requestOctets, hrequest, octets_string_append, octets_string_append, List.append_assoc]
  rfl

theorem lineBody_requestLine (path : String) :
    lineBody (requestLine path).toByteArray.octets = (requestLine path).toByteArray.octets := by
  rw [requestLine, octets_string_append]
  apply List.rdropWhile_eq_self_iff.mpr
  intro hne
  rw [List.getLast_append_of_ne_nil _ (by decide)]
  decide

theorem mem_requestLine {path : String} :
    '\n' ∈ (requestLine path).toList ↔ '\n' ∈ path.toList := by
  simp [requestLine]

end Tunnel

/-! ## Reading what was sent -/

namespace Inflow

variable {limit : Nat} {line : Octets} {sequel : Sequel}

theorem read_line (hline : newline ∉ line) (hshort : line.length < maxLine) (rest : Octets)
    (sequel : Sequel) :
    read limit .line ⟨line ++ newline :: rest, sequel⟩ =
      some (lineText line, ⟨rest, sequel⟩) := by
  have hroom : ([] : Octets).length + line.length < maxLine := by simpa using hshort
  have hfed : (Progress.start .line).feed limit (line ++ newline :: rest) =
      .done (lineText line) rest := Progress.feedLine_ended hline hroom rest
  exact read_of_done hfed sequel

/-- A line that is read is there. -/
theorem exists_line {s : Inflow} {text : String} {rest : Inflow}
    (h : s.read limit .line = some (.ok (.line text), rest)) :
    ∃ line, s.octets = line ++ newline :: rest.octets ∧ newline ∉ line ∧ line.length < maxLine ∧
      lineBody line = text.toByteArray.octets := by
  obtain ⟨octets, sequel⟩ := s
  cases hfed : (Progress.start .line).feed limit octets with
  | more p =>
      rw [read_of_more hfed] at h
      cases sequel <;> simp [Sequel.meet] at h
  | done result left =>
      rw [read_of_done hfed] at h
      obtain ⟨rfl, rfl⟩ := Prod.mk.inj (Option.some.inj h)
      have hparses : ParsesLine octets (.ok (.line text)) left :=
        oneShot_eq_iff.mp (Progress.oneShot_of_done hfed)
      cases hparses with
      | text _ line _ hline hshort htext => exact ⟨line, rfl, hline, hshort, htext⟩

/-- What reads come to that begin with a success. -/
theorem read_of_reads {patient : Bool} {kind : ReadKind} {kinds : List ReadKind} {s : Inflow}
    {received : Received} {results : List (Except LinkError Received)} {h : Harvest}
    (heq : s.reads limit patient (kind :: kinds) = h.after (.ok received :: results)) :
    ∃ rest, s.read limit kind = some (.ok received, rest) := by
  rw [reads] at heq
  cases hread : s.read limit kind with
  | some read =>
      obtain ⟨result, rest⟩ := read
      rw [hread] at heq
      have hresults := congrArg Harvest.results heq
      obtain rfl : result = .ok received := (List.cons.inj hresults).1
      exact ⟨rest, rfl⟩
  | none =>
      rw [hread] at heq
      cases patient with
      | true =>
          have hresults := congrArg Harvest.results heq
          cases hresults
      | false =>
          have hresults := congrArg Harvest.results heq
          cases (List.cons.inj hresults).1

end Inflow

namespace Tunnel

theorem lineText_requestLine (path : String) :
    lineText (requestLine path).toByteArray.octets = .ok (.line (requestLine path)) := by
  apply lineText_ok
  rw [lineBody_requestLine, Octets.toBytes_octets, Utf8.decode_toByteArray]

/-- The two lines of a request. -/
def requestLines (path : String) : List (Except LinkError Received) :=
  [.ok (.line (requestLine path)), .ok (.line "")]

variable {limit : Nat} {patient : Bool} {path : String} {more : Octets} {sequel : Sequel}
  {kinds : List ReadKind}

/-- The request is read as its two lines, and what is behind it is left for the reads
that follow, if and only if the path lets the first line end where it should. -/
theorem reads_request_iff :
    Inflow.reads limit patient (.line :: .line :: kinds) ⟨requestOctets path ++ more, sequel⟩ =
        (Inflow.reads limit patient kinds ⟨more, sequel⟩).after (requestLines path) ↔
      '\n' ∉ path.toList ∧ (requestLine path).utf8ByteSize < maxLine := by
  have hlength : (requestLine path).toByteArray.octets.length = (requestLine path).utf8ByteSize :=
    Octets.length_octets _
  rw [← hlength, ← mem_requestLine, ← newline_mem_octets]
  constructor
  · intro hreads
    obtain ⟨_, hread⟩ := Inflow.read_of_reads hreads
    obtain ⟨line, -, hline, hshort, htext⟩ := Inflow.exists_line hread
    -- The text is a front of the line that was found, which has no end in it.
    have hfront : lineBody line <+: line := List.rdropWhile_prefix _ _
    rw [htext] at hfront
    exact ⟨fun hmem => hline (hfront.subset hmem), Nat.lt_of_le_of_lt hfront.length_le hshort⟩
  · rintro ⟨hline, hshort⟩
    have hoctets : requestOctets path ++ more =
        (requestLine path).toByteArray.octets ++ newline :: ([] ++ newline :: more) := by
      rw [requestOctets_eq, List.append_assoc]
      rfl
    have hempty : lineText [] = .ok (.line "") := lineText_ok (by decide)
    rw [hoctets, Inflow.reads, Inflow.read_line hline hshort, lineText_requestLine]
    dsimp only
    rw [Inflow.reads, Inflow.read_line (by simp) (by decide), hempty]
    dsimp only
    rw [Harvest.after_after]
    rfl

/-- With a line end in the path, the first line ends there. -/
theorem reads_cut {front : String} (hfront : '\n' ∉ front.toList)
    (hshort : ("CONNECT " ++ front).utf8ByteSize < maxLine) (back : String) :
    Inflow.reads limit patient (.line :: kinds)
        ⟨requestOctets (front ++ "\n" ++ back) ++ more, sequel⟩ =
      (Inflow.reads limit patient kinds
        ⟨(back ++ " HTTP/1.0\n\n").toByteArray.octets ++ more, sequel⟩).after
          [lineText ("CONNECT " ++ front).toByteArray.octets] := by
  have hline : newline ∉ ("CONNECT " ++ front).toByteArray.octets := by
    rw [newline_mem_octets]
    simpa using hfront
  have hlength : ("CONNECT " ++ front).toByteArray.octets.length < maxLine :=
    (Octets.length_octets _).trans_lt hshort
  rw [requestOctets_cut, List.append_assoc, List.cons_append, Inflow.reads,
    Inflow.read_line hline hlength]

end Tunnel

/-! ## The server -/

namespace Reader

/-- Sooner or later a reader has come to this, and stays there. -/
def ComesTo (clock : Nat → Nat) (h : Harvest) (r : Reader) : Prop :=
  ∃ n, ∀ m ≥ n, ∀ r', r' = run clock r m → h = ⟨r'.results, r'.todo, r'.codec.inflow⟩

variable {clock : Nat → Nat} {h h' : Harvest} {r : Reader}

theorem ComesTo.unique (hcomes : r.ComesTo clock h) (hcomes' : r.ComesTo clock h') : h = h' := by
  obtain ⟨n, hn⟩ := hcomes
  obtain ⟨n', hn'⟩ := hcomes'
  have hleft := hn (max n n') (le_max_left n n') _ rfl
  have hright := hn' (max n n') (le_max_right n n') _ rfl
  exact hleft.trans hright.symm

end Reader

namespace Framed

/-- A server that is about to read what came in these contacts, and then something
else. -/
structure Receives (contacts : List Contact) (more : Octets) (sequel : Sequel)
    (server : Framed Script) : Prop where
  idle : server.inbound.reading = none
  calm : server.inbound.patience = none ∨ Incoming.Prompt server.link.incoming
  inflow : server.inflow = ⟨sentIn contacts ++ more, sequel⟩

/-- What the reads of a server come to with this before it. -/
def harvest (server : Framed Script) (kinds : List ReadKind) (s : Inflow) : Harvest :=
  s.reads server.inbound.limit server.inbound.patience.isNone kinds

theorem Receives.comesTo_iff {contacts : List Contact} {more : Octets} {sequel : Sequel}
    {server : Framed Script} (h : server.Receives contacts more sequel) (kinds : List ReadKind)
    {clock : Nat → Nat} (hclock : ∀ time, ∃ n, ∀ m ≥ n, time ≤ clock m) (goal : Harvest) :
    Reader.ComesTo clock goal { codec := server, todo := kinds } ↔
      server.harvest kinds ⟨sentIn contacts ++ more, sequel⟩ = goal := by
  have hcomes : Reader.ComesTo clock (server.harvest kinds server.inflow)
      { codec := server, todo := kinds } := Reader.exists_harvest h.idle h.calm kinds hclock
  rw [h.inflow] at hcomes
  constructor
  · intro hgoal
    exact hcomes.unique hgoal
  · rintro rfl
    exact hcomes

end Framed

/-! ## Nothing but the request -/

namespace Course

variable {L : Type} [Link L]

/-- A handshake that waits for an answer has sent the request, and sends nothing else. -/
theorem sent_of_awaits (c : Course L) {n : Nat} (hgoing : (c.dial n).result = none)
    (hawaits : (c.dial n).handshake.Awaits) {m : Nat} (hm : n ≤ m) :
    sentIn (c.contacts m) = Tunnel.requestOctets c.path := by
  have hflushed : .flush (.ok ()) ∈ c.contacts n := by
    rw [← c.notes_unnoted n] at hgoing hawaits
    have hother {phase : HandshakePhase} (hphase : (c.notes n).handshake.phase = phase) :
        phase = .status ∨ phase = .headers := hphase ▸ hawaits
    cases (going hgoing).stage with
    | opening _ hphase | called _ hphase | sending hphase => simpa using hother hphase
    | hearing _ htold => exact htold.flushed
  exact (c.minds m).whole ((contacts_extend hm).subset hflushed)

/-- When the request is out, a server that reads two lines and then goes on reads the line
that was meant and the empty line, and goes on with what there is behind the request, if
and only if no line end is in the path and the line is not too long. A line end in the
path ends the first line, and what is behind it in the path is read next. -/
theorem requested_iff (c : Course L) {n : Nat} (hgoing : (c.dial n).result = none)
    (hawaits : (c.dial n).handshake.Awaits) {m : Nat} (hm : n ≤ m)
    {more : Octets} {sequel : Sequel} {server : Framed Script}
    (hserver : server.Receives (c.contacts m) more sequel)
    (kinds : List ReadKind) {clock : Nat → Nat} (hclock : ∀ time, ∃ n, ∀ m ≥ n, time ≤ clock m) :
    (Reader.ComesTo clock
        ((server.harvest kinds ⟨more, sequel⟩).after (Tunnel.requestLines c.path))
        { codec := server, todo := .line :: .line :: kinds } ↔
      '\n' ∉ c.path.toList ∧ (Tunnel.requestLine c.path).utf8ByteSize < maxLine) ∧
    ∀ front back, c.path = front ++ "\n" ++ back → '\n' ∉ front.toList →
      ("CONNECT " ++ front).utf8ByteSize < maxLine →
      Reader.ComesTo clock
        ((server.harvest (.line :: kinds)
          ⟨(back ++ " HTTP/1.0\n\n").toByteArray.octets ++ more, sequel⟩).after
            [lineText ("CONNECT " ++ front).toByteArray.octets])
        { codec := server, todo := .line :: .line :: kinds } := by
  have hcomes := hserver.comesTo_iff (.line :: .line :: kinds) hclock
  rw [c.sent_of_awaits hgoing hawaits hm] at hcomes
  constructor
  · rw [hcomes]
    exact Tunnel.reads_request_iff
  · intro front back hpath hfront hshort
    rw [hcomes, hpath]
    exact Tunnel.reads_cut hfront hshort back

/-- A path with characters of several octets and a carriage return, over a connection that
takes everything. -/
def asking : Course Script where
  path := "/é\r"
  start := { link := {} }
  fresh := ⟨rfl, rfl, rfl, rfl, rfl⟩
  clock := id
  acts := fun _ => id

/-- A server that gets the request in two pieces. -/
def asked : Framed Script where
  link := { incoming :=
    [.data ((Tunnel.requestOctets asking.path).take 10), .wait 3,
      .data ((Tunnel.requestOctets asking.path).drop 10)] }
  inbound := {}
  outbound := {}

theorem requested_asked :
    (asking.dial 6).result = none ∧ (asking.dial 6).handshake.phase = .status ∧
      asked.Receives (asking.contacts 6) [] .nothing ∧
      Reader.ComesTo id
        ((asked.harvest [.frame] ⟨[], .nothing⟩).after (Tunnel.requestLines "/é\r"))
        { codec := asked, todo := [.line, .line, .frame] } := by
  have hgoing : (asking.dial 6).result = none := by decide
  have hphase : (asking.dial 6).handshake.phase = .status := by decide
  have hserver : asked.Receives (asking.contacts 6) [] .nothing :=
    ⟨rfl, .inl rfl, by decide⟩
  have hread := (requested_iff asking hgoing (.inl hphase) (Nat.le_refl 6) hserver [.frame]
    (fun time => ⟨time, fun _ hm => hm⟩)).1.mpr ⟨by decide, by decide⟩
  exact ⟨hgoing, hphase, hserver, hread⟩

/-- A path with the rest of a request in it, and a frame. -/
def smuggling : Course Script where
  path := "/ HTTP/1.0\n\n\x00\x00\x00\x01A"
  start := { link := {} }
  fresh := ⟨rfl, rfl, rfl, rfl, rfl⟩
  clock := id
  acts := fun _ => id

/-- A server to which that request has come. -/
def smuggled : Framed Script where
  link := { incoming := [.data (Tunnel.requestOctets smuggling.path)] }
  inbound := {}
  outbound := {}

/-- The server reads another line than was meant, and a frame out of the path. -/
theorem smuggled_frame :
    (smuggling.dial 6).result = none ∧ (smuggling.dial 6).handshake.phase = .status ∧
      (Tunnel.requestLine smuggling.path).utf8ByteSize < maxLine ∧
      smuggled.Receives (smuggling.contacts 6) [] .nothing ∧
      Reader.ComesTo id
        ⟨[.ok (.line "CONNECT / HTTP/1.0"), .ok (.line ""), .ok (.frame "A".toByteArray)], [],
          ⟨" HTTP/1.0\n\n".toByteArray.octets, .nothing⟩⟩
        { codec := smuggled, todo := [.line, .line, .frame] } ∧
      ¬ Reader.ComesTo id
        ((smuggled.harvest [.frame] ⟨[], .nothing⟩).after (Tunnel.requestLines smuggling.path))
        { codec := smuggled, todo := [.line, .line, .frame] } := by
  have hserver : smuggled.Receives (smuggling.contacts 6) [] .nothing :=
    ⟨rfl, .inl rfl, by decide⟩
  have hclock (time : Nat) : ∃ n, ∀ m ≥ n, time ≤ id m := ⟨time, fun _ hm => hm⟩
  have hcomes := hserver.comesTo_iff [.line, .line, .frame] hclock
  have hread := (hcomes ⟨[.ok (.line "CONNECT / HTTP/1.0"), .ok (.line ""),
    .ok (.frame "A".toByteArray)], [], ⟨" HTTP/1.0\n\n".toByteArray.octets, .nothing⟩⟩).mpr rfl
  refine ⟨by decide, by decide, by decide, hserver, hread, ?_⟩
  intro hlines
  obtain ⟨hfirst, -⟩ := List.cons.inj (congrArg Harvest.results (hread.unique hlines))
  have htext := Received.line.inj (Except.ok.inj hfirst)
  exact absurd htext (by decide)

end Course

end Switchboard
