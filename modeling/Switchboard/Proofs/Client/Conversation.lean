import Switchboard.Proofs.Client.Correlation
import Switchboard.Proofs.Client.Quiet

/-!
# A client and a service

A client and a service hold a conversation over one connection (`Conversation`).
Callers make calls at any time; the connection takes and brings octets in any
pieces; the service answers, at any time and in any order, requests that it has
heard as a whole, each once. Nobody closes and nothing fails.

What the calls should have been told is kept in an account of the frames
(`Reference`), and it stays truthful: whoever was told something was told what
the service answers to its own method and arguments, or why its own request
cannot be sent (`Truthful`).
-/

namespace Switchboard

open Session (Deed Notice)

/-- A deed of the callers or of the client's own tasks, which closes nothing. -/
def Session.Deed.isOwn {ω : Type} : Deed ω → Bool
  | .close | .hangUp | .outside _ => false
  | _ => true

structure Conversation where
  /-- The client, with what was noted down of its life. -/
  client : History (Framed Script)
  /-- The requests that were answered, with their places among those that were
  heard, in the order of the answers. -/
  answered : List (Nat × Query) := []
  /-- What of the answers has not come to the client yet. -/
  outgoing : Octets := []

namespace Conversation

inductive Event where
  /-- A caller does something, or a task of the client takes a step. -/
  | client (d : Deed Script.Twist) (own : d.isOwn = true)
  /-- From here on the connection takes so much. -/
  | accept (credit : Option Nat)
  /-- The service answers the request at a place, if it was heard and was not
  answered yet. -/
  | answer (place : Nat)
  /-- So many octets of the answers come to the client, in one piece. -/
  | deliver (count : Nat)

/-- The requests that the service has heard. -/
def heard (c : Conversation) : List Query := queries c.client.session.codec.link.taken

/-- The requests that were answered, in the order of the answers. -/
def answers (c : Conversation) : List Query := c.answered.map (·.2)

/-- Something is done to the client. -/
def live (d : Deed Script.Twist) (c : Conversation) : Conversation :=
  { c with client := c.client.perform d }

/-- The service answers the request at a place. -/
def answer (v : Service) (place : Nat) (q : Query) (c : Conversation) : Conversation :=
  { c with
    answered := c.answered ++ [(place, q)]
    outgoing := c.outgoing ++ (v.frames q).flatMap frameOctets }

/-- A request that was not heard, or was answered, is not answered. -/
def turnTo (v : Service) (place : Nat) (c : Conversation) : Conversation :=
  match c.heard[place]? with
  | none => c
  | some q => if place ∈ c.answered.map (·.1) then c else c.answer v place q

def perform (v : Service) (c : Conversation) : Event → Conversation
  | .client d _ => c.live d
  | .accept credit => c.live (.outside (.accept credit .wait))
  | .answer place => c.turnTo v place
  | .deliver count =>
      { c.live (.outside (.arrive [.data (c.outgoing.take count)])) with
        outgoing := c.outgoing.drop count }

/-- What becomes of a new conversation. -/
def run (v : Service) (o : Opening) (events : List Event) : Conversation :=
  events.foldl (perform v) { client := { session := { codec := o.codec } } }

@[simp] theorem run_append_singleton (v : Service) (o : Opening) (events : List Event)
    (e : Event) : run v o (events ++ [e]) = (run v o events).perform v e := by
  simp [run]

theorem turnTo_cases (v : Service) (place : Nat) (c : Conversation) :
    c.turnTo v place = c ∧ (∀ q, c.heard[place]? = some q → place ∈ c.answered.map (·.1)) ∨
      ∃ q, c.heard[place]? = some q ∧ place ∉ c.answered.map (·.1) ∧
        c.turnTo v place = c.answer v place q := by
  cases hheard : c.heard[place]? with
  | none => exact .inl ⟨by simp [turnTo, hheard], fun _ hnone => nomatch hnone⟩
  | some q =>
      by_cases hold : place ∈ c.answered.map (·.1)
      · exact .inl ⟨by simp only [turnTo, hheard, if_pos hold], fun _ _ => hold⟩
      · exact .inr ⟨q, rfl, hold, by simp only [turnTo, hheard, if_neg hold]⟩

@[simp] theorem answers_answer (v : Service) (place : Nat) (q : Query) (c : Conversation) :
    (c.answer v place q).answers = c.answers ++ [q] := by
  simp [answer, answers]

/-- An event does one thing to the client, or nothing. -/
theorem client_perform (v : Service) (e : Event) (c : Conversation) :
    (c.perform v e).client = c.client ∨
      ∃ d : Deed Script.Twist, (c.perform v e).client = c.client.perform d := by
  cases e with
  | client d => exact .inr ⟨d, rfl⟩
  | accept credit => exact .inr ⟨_, rfl⟩
  | answer place =>
      left
      show (c.turnTo v place).client = c.client
      rcases c.turnTo_cases v place with ⟨hsame, _⟩ | ⟨q, _, _, hturned⟩
      · rw [hsame]
      · rw [hturned]
        rfl
  | deliver count => exact .inr ⟨_, rfl⟩

end Conversation

/-! ## The account of a conversation -/

/-- A service answers these requests next, and this is how far its answers were
read. -/
inductive Service.Stage (v : Service) (limit : Nat) :
    List Query → Option Awaited → List ByteArray → Prop where
  | header (rest : List Query) : Stage v limit rest none (rest.flatMap v.frames)
  | reply {q : Query} {rest : List Query} {p : Pending} {reply : Wire.Value} {body : ByteArray}
      (hquery : p.parcel.query limit = some q)
      (hanswer : v.answer q.request.method q.args = .ok reply)
      (hbody : Wire.decode p.shape body = .ok reply) :
      Stage v limit (q :: rest) (some (.reply p)) (body :: rest.flatMap v.frames)
  | refusal {q : Query} {rest : List Query} {p : Pending} {text : String} {body : ByteArray}
      (hquery : p.parcel.query limit = some q)
      (hanswer : v.answer q.request.method q.args = .error text) :
      Stage v limit (q :: rest) (some (.refusal p text)) (body :: rest.flatMap v.frames)

theorem Service.outcome_of_query {v : Service} {limit : Nat} {p : Pending} {q : Query}
    (h : p.parcel.query limit = some q) :
    v.outcome limit p = (v.answer q.request.method q.args).mapError .server := by
  obtain ⟨header, hunit, hrequest⟩ := Parcel.query_eq_some h
  simp only [outcome, hunit, hrequest]
  rfl

namespace Reference

/-- Of the answers of a service, `done` were read as a whole and `rest` were not.
Whoever was told something was told the right thing. -/
structure Truthful (v : Service) (limit : Nat) (done rest : List Query) (r : Reference) :
    Prop where
  stage : v.Stage limit rest r.awaited r.frames
  answered : ∀ q ∈ done, ∃ t ∈ r.told, t.1.parcel.query limit = some q
  told : ∀ t ∈ r.told, t.2 = v.outcome limit t.1 ∧
    ((∃ q ∈ done, t.1.parcel.query limit = some q) ∨ t.1.parcel.query limit = none)

namespace Truthful

variable {v : Service} {limit : Nat} {done rest : List Query} {r : Reference}

theorem register (h : r.Truthful v limit done rest) (p : Pending) :
    (r.register p).Truthful v limit done rest := by
  unfold Reference.register
  split
  · exact h
  · exact ⟨h.stage, h.answered, h.told⟩

/-- One more request is answered. -/
theorem more (h : r.Truthful v limit done rest) (q : Query) :
    Truthful v limit done (rest ++ [q]) { r with frames := r.frames ++ v.frames q } := by
  refine ⟨?_, h.answered, h.told⟩
  have hflat (rest : List Query) : rest.flatMap v.frames ++ v.frames q =
      (rest ++ [q]).flatMap v.frames := by
    rw [List.flatMap_append, List.flatMap_singleton]
  obtain ⟨frames, table, awaited, told⟩ := r
  have hstage := h.stage
  dsimp only at hstage ⊢
  cases hstage with
  | header rest =>
      rw [hflat]
      exact .header _
  | @reply _ rest _ _ body hquery hanswer hbody =>
      rw [List.cons_append, List.cons_append, hflat]
      exact .reply hquery hanswer hbody
  | @refusal _ rest _ _ body hquery hanswer =>
      rw [List.cons_append, List.cons_append, hflat]
      exact .refusal hquery hanswer

/-- A call is told what it must be told. -/
theorem tell (h : r.Truthful v limit done rest) {p : Pending}
    (hp : p.parcel.query limit = none) :
    (r.tell p (v.outcome limit p)).Truthful v limit done rest where
  stage := h.stage
  answered q hq := by
    obtain ⟨t, ht, hquery⟩ := h.answered q hq
    exact ⟨t, List.mem_append_left _ ht, hquery⟩
  told t ht := by
    rcases List.mem_append.mp ht with hold | hnew
    · exact h.told t hold
    · rw [List.mem_singleton.mp hnew]
      exact ⟨rfl, .inr hp⟩

/-- A request was not written, for a reason that is its own. -/
theorem unsent (h : r.Truthful v limit done rest) {seq : UInt64} {error : CallError}
    (hown : ∀ p, r.table.lookup seq = some p → p.parcel.verdict limit = .error error) :
    (r.unsent seq error).Truthful v limit done rest := by
  unfold Reference.unsent
  split
  · exact h
  · rename_i p hlookup
    have hverdict := hown p hlookup
    unfold Parcel.verdict at hverdict
    cases hunit : p.parcel.unit limit with
    | ok payloads =>
        rw [hunit] at hverdict
        cases hverdict
    | error refusal =>
        rw [hunit] at hverdict
        obtain rfl := Except.error.inj hverdict
        have hquery : p.parcel.query limit = none := by simp only [Parcel.query, hunit]
        have houtcome : v.outcome limit p = .error (.ofLink refusal) := by
          simp only [Service.outcome, hunit]
        have htaken : Truthful v limit done rest
            { r with table := r.table.filter (·.1 != seq) } := ⟨h.stage, h.answered, h.told⟩
        rw [← houtcome]
        exact htaken.tell hquery

/-- The header of an answer is read, to a call that waits for it. -/
theorem header {q : Query} {payload : ByteArray} {frames : List ByteArray}
    (h : r.Truthful v limit done (q :: rest)) (hawaited : r.awaited = none)
    (hframes : r.frames = payload :: frames) {p : Pending}
    (hlookup : r.table.lookup q.request.seq = some p) (hquery : p.parcel.query limit = some q)
    {most : Nat} (hsuits : v.Suits most p.shape q) : r.read.Truthful v limit done (q :: rest) := by
  obtain ⟨header, body, response, hpayloads, _, hdecode, hseq, hanswer⟩ := hsuits.frames_eq
  have hstage := h.stage
  rw [hawaited, hframes] at hstage
  generalize hnext : payload :: frames = next at hstage
  cases hstage with
  | header =>
      rw [List.flatMap_cons, hpayloads] at hnext
      obtain ⟨rfl, rfl⟩ := List.cons.inj hnext
      rw [read_header hawaited hframes]
      simp only [Reference.header, hdecode, hseq, hlookup]
      refine ⟨?_, h.answered, h.told⟩
      rcases hanswer with ⟨reply, hanswer, herror, hbody⟩ | ⟨text, hanswer, herror⟩
      · simp only [herror]
        exact .reply hquery hanswer hbody
      · simp only [herror]
        exact .refusal hquery hanswer

/-- The body of an answer is read. -/
theorem body {awaited : Awaited} (h : r.Truthful v limit done rest)
    (hawaited : r.awaited = some awaited) :
    ∃ q rest', rest = q :: rest' ∧ r.read.Truthful v limit (done ++ [q]) rest' := by
  have hstage := h.stage
  rw [hawaited] at hstage
  generalize hframes : r.frames = frames at hstage
  -- What is told is what the service answers, and it is told to who asked.
  have htell (rest : List Query) {q : Query} {p : Pending}
      (hquery : p.parcel.query limit = some q) :
      ({ r with frames := rest.flatMap v.frames, awaited := none }.tell p
        (v.outcome limit p)).Truthful v limit (done ++ [q]) rest := by
    refine ⟨.header rest, ?_, ?_⟩
    · intro q' hq'
      rcases List.mem_append.mp hq' with hold | hnew
      · obtain ⟨t, ht, hmatch⟩ := h.answered q' hold
        exact ⟨t, List.mem_append_left _ ht, hmatch⟩
      · rw [List.mem_singleton.mp hnew]
        exact ⟨_, List.mem_append_right _ (List.mem_singleton_self _), hquery⟩
    · intro t ht
      rcases List.mem_append.mp ht with hold | hnew
      · obtain ⟨houtcome, hmatch⟩ := h.told t hold
        refine ⟨houtcome, hmatch.imp ?_ id⟩
        rintro ⟨q', hq', hquery'⟩
        exact ⟨q', List.mem_append_left _ hq', hquery'⟩
      · rw [List.mem_singleton.mp hnew]
        exact ⟨rfl, .inl ⟨q, List.mem_append_right _ (List.mem_singleton_self q), hquery⟩⟩
  cases hstage with
  | @reply q rest p reply body hquery hanswer hbody =>
      refine ⟨q, rest, rfl, ?_⟩
      have htold := htell rest hquery
      rw [Service.outcome_of_query hquery, hanswer] at htold
      rw [read_body hawaited hframes]
      simp only [Reference.body, hbody]
      exact htold
  | @refusal q rest p text body hquery hanswer =>
      refine ⟨q, rest, rfl, ?_⟩
      have htold := htell rest hquery
      rw [Service.outcome_of_query hquery, hanswer] at htold
      rw [read_body hawaited hframes]
      exact htold

end Truthful

end Reference

end Switchboard
