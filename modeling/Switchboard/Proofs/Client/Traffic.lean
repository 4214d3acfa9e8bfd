import Switchboard.Proofs.Client.WriteLock

/-!
# The lock and what it protects

Many deeds come near the connection, but each of them does little to it. It
reads, it writes with the lock, it closes with the lock, or something happens
outside. `Traffic` is the list of all that a deed can do to the codec and to the
lock, together with what the owner asked for; whoever wants to know what happens
on a connection over a whole life goes through this list.
-/

namespace Switchboard

open Session (Deed)

/-- What comes of a codec when its reading half is used. -/
inductive Codec.Reading {κ : Type} [Codec κ] (k : κ) : κ → Prop where
  | header (now : Nat) : Reading k (Codec.readHeader now k).2
  | body (shape : Wire.Shape) (now : Nat) : Reading k (Codec.readBody shape now k).2
  | discarded (now : Nat) : Reading k (Codec.discardBody now k).2
  | cancelled : Reading k (Codec.cancelRead k)
  | dropped {k' : κ} (h : Reading k k') : Reading k (Codec.dropReader k')

namespace Session

variable {ω κ : Type} [Codec κ] [Surroundings ω κ]

/-- What a deed does: whether the owner has asked for the end, the lock and the
codec after it. -/
inductive Traffic (s : Session κ) : Deed ω → Bool → Lock → κ → Prop where
  | idle (d : Deed ω) : Traffic s d s.client.closing s.lock s.codec
  | read (now : Nat) {codec : κ} (h : Codec.Reading s.codec codec) :
      Traffic s (.task .receiver now) s.client.closing s.lock codec
  | asked (seq : UInt64) (now : Nat) :
      Traffic s (.task (.writer seq) now) s.client.closing (s.lock.ask (.writer seq)) s.codec
  /-- A writer has the lock and finds the client over. -/
  | refused (seq : UInt64) (now : Nat) (hholder : s.lock.holder = some (.writer seq))
      (hover : s.client.isOver = true) :
      Traffic s (.task (.writer seq) now) s.client.closing s.lock.release s.codec
  /-- The owner closed while a request was being written. -/
  | cancelled (seq : UInt64) (now : Nat) (hholder : s.lock.holder = some (.writer seq))
      (hclosing : s.client.closing = true) :
      Traffic s (.task (.writer seq) now) s.client.closing s.lock.release
        (Codec.cancelWrite s.codec)
  | writing {w : Writer} (now : Nat) (hholder : s.lock.holder = some (.writer w.request.seq))
      (hclosing : s.client.closing = false) :
      Traffic s (.task (.writer w.request.seq) now) s.client.closing s.lock
        (Codec.write w.request w.args now s.codec).2
  | written {w : Writer} (now : Nat) (hholder : s.lock.holder = some (.writer w.request.seq))
      (hclosing : s.client.closing = false) :
      Traffic s (.task (.writer w.request.seq) now) s.client.closing s.lock.release
        (Codec.write w.request w.args now s.codec).2
  | closed (hopen : s.client.isOver = false) :
      Traffic s .close true (s.lock.ask .closer) s.codec
  | hungUp (hholder : s.lock.holder = some .closer) :
      Traffic s .hangUp s.client.closing s.lock.release (Codec.close s.codec).2
  | outside (event : ω) :
      Traffic s (.outside event) s.client.closing s.lock (Surroundings.act event s.codec)

omit [Codec κ] [Surroundings ω κ] in
@[simp] theorem closing_issue (call : Call) (shape : Wire.Shape) (mailbox : Nat) (c : Client) :
    (c.issue call shape mailbox).2.closing = c.closing := by
  cases hover : c.isOver with
  | true =>
      rw [Client.issue_over hover]
      simp [Client.updateMailbox]
  | false =>
      rw [Client.issue_open hover]
      rfl

theorem reading_stepReceiver (now : Nat) (s : Session κ) :
    (s.stepReceiver now).2.lock = s.lock ∧
      ((s.stepReceiver now).2.codec = s.codec ∨
        Codec.Reading s.codec (s.stepReceiver now).2.codec) := by
  have hstep := s.stepReceiver_cases now
  generalize s.readEnding now = failure at hstep
  generalize (s.stepReceiver now).2 = s' at hstep ⊢
  cases hstep with
  | ended => exact ⟨rfl, .inl rfl⟩
  | cancelled => exact ⟨rfl, .inr (.dropped .cancelled)⟩
  | headerAwaited _ _ hread =>
      have hreading := Codec.Reading.header (k := s.codec) now
      rw [hread] at hreading
      exact ⟨rfl, .inr hreading⟩
  | @header response codec _ _ hread =>
      have hreading := Codec.Reading.header (k := s.codec) now
      rw [hread] at hreading
      obtain ⟨hcodec, -, hlock, -⟩ := frame_route response { s with codec }
      rw [hcodec]
      exact ⟨hlock, .inr hreading⟩
  | noHeader _ _ hread =>
      have hreading := Codec.Reading.header (k := s.codec) now
      rw [hread] at hreading
      exact ⟨rfl, .inr (.dropped hreading)⟩
  | @bodyAwaited p _ _ _ hread | @body p _ _ _ hread =>
      have hreading := Codec.Reading.body (k := s.codec) p.shape now
      rw [hread] at hreading
      exact ⟨rfl, .inr hreading⟩
  | discardAwaited _ hread | passed _ hread | refuted _ hread =>
      have hreading := Codec.Reading.discarded (k := s.codec) now
      rw [hread] at hreading
      exact ⟨rfl, .inr hreading⟩
  | notPassed _ hread | refutedLast _ hread =>
      have hreading := Codec.Reading.discarded (k := s.codec) now
      rw [hread] at hreading
      exact ⟨rfl, .inr (.dropped hreading)⟩

/-- Whoever is found among the writers has the number that was looked for. -/
theorem seq_of_find {ws : List Writer} {seq : UInt64} {w : Writer}
    (hfind : ws.find? (·.request.seq = seq) = some w) : w.request.seq = seq := by
  simpa using List.find?_some hfind

theorem traffic_stepWriter (seq : UInt64) (now : Nat) (s : Session κ) :
    Traffic s (.task (.writer seq) now : Deed ω) (s.stepWriter seq now).2.client.closing
      (s.stepWriter seq now).2.lock (s.stepWriter seq now).2.codec := by
  have hstep := s.stepWriter_cases seq now
  generalize s.writeFailure seq now = failure at hstep
  generalize (s.stepWriter seq now).2 = s' at hstep ⊢
  cases hstep with
  | absent | queued | begun => exact .idle _
  | asked => exact .asked seq now
  | refused _ _ hholder _ hover =>
      simpa [endWriter] using Traffic.refused seq now hholder hover
  | cancelled _ _ hholder _ hclosing =>
      simpa [endWriter] using Traffic.cancelled seq now hholder hclosing
  | awaited hfind _ hholder _ hclosing hwrite =>
      obtain rfl := seq_of_find hfind
      have hwriting := Traffic.writing (ω := ω) now hholder hclosing
      rwa [hwrite] at hwriting
  | @written w result codec hfind _ hholder _ hclosing hwrite =>
      obtain rfl := seq_of_find hfind
      have hwritten := Traffic.written (ω := ω) now hholder hclosing
      rw [hwrite] at hwritten
      cases result with
      | ok => exact hwritten
      | error error => simpa [endWriter] using hwritten

theorem traffic_perform (d : Deed ω) (s : Session κ) :
    Traffic s d (s.perform d).client.closing (s.perform d).lock (s.perform d).codec := by
  have hidle : Traffic s d s.client.closing s.lock s.codec := .idle d
  cases d with
  | go a => simpa [perform, go, Client.addMailbox] using hidle
  | goWith a mailbox =>
      by_cases hmailbox : mailbox < s.client.mailboxes.length <;>
        simpa [perform, hmailbox] using hidle
  | completion capacity =>
      cases hopened : s.client.completion capacity with
      | error error => simpa [perform, hopened] using hidle
      | ok opened => simpa [perform, hopened, (Client.Alike.completion hopened).closing] using hidle
  | take mailbox =>
      cases htaken : s.client.takeCall mailbox with
      | none => simpa [perform, htaken] using hidle
      | some taken => simpa [perform, htaken, (Client.Alike.takeCall htaken).closing] using hidle
  | task t now =>
      cases t with
      | receiver =>
          obtain ⟨hlock, hcodec⟩ := reading_stepReceiver now s
          simp only [perform, step, hlock, closing_stepReceiver]
          rcases hcodec with hsame | hreading
          · rw [hsame]
            exact hidle
          · exact .read now hreading
      | writer seq => exact traffic_stepWriter seq now s
      | caller place =>
          have hstep := s.stepCaller_cases place
          simp only [perform, step]
          generalize (s.stepCaller place).2 = s' at hstep ⊢
          cases hstep with
          | made => simpa [Client.addMailbox] using hidle
          | taken _ htake => simpa [(Client.Alike.takeCall htake).closing] using hidle
          | absent | turnedAway | bereft | awaited | finished => exact hidle
  | close =>
      cases hover : s.client.isOver with
      | true => simpa [perform, beginClose, Client.beginClose, hover] using hidle
      | false => simpa [perform, beginClose, Client.beginClose, hover] using Traffic.closed hover
  | hangUp =>
      by_cases hholder : s.lock.holder = some .closer
      · simpa [perform, stepClose, hholder] using Traffic.hungUp hholder
      · simpa [perform, stepClose, hholder] using hidle
  | outside event => exact .outside event
  | call | dropHandle | deafen => exact hidle

end Session

end Switchboard
