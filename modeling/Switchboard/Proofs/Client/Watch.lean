import Switchboard.Proofs.Client.Steps

/-!
# Watching a codec

What a client asks of the writing half of its codec shows in nothing that the
client keeps. A codec that is `Watched` keeps a list of it and otherwise is the
codec that it was, and a client that speaks it lives the life that it would have
lived without (`unwatched_run`). So what is said of the list is said of every
codec.
-/

namespace Switchboard

open Session (Deed Notice)

/-! ## Codecs that behave alike -/

/-- One codec answers what the other answers, and goes on alike. -/
structure Codec.Hom {κ κ' : Type} [Codec κ] [Codec κ'] (f : κ → κ') : Prop where
  readHeader : ∀ now k, Codec.readHeader now (f k) = (Codec.readHeader now k).map id f
  readBody : ∀ shape now k,
    Codec.readBody shape now (f k) = (Codec.readBody shape now k).map id f
  discardBody : ∀ now k, Codec.discardBody now (f k) = (Codec.discardBody now k).map id f
  cancelRead : ∀ k, Codec.cancelRead (f k) = f (Codec.cancelRead k)
  write : ∀ request args now k,
    Codec.write request args now (f k) = (Codec.write request args now k).map id f
  cancelWrite : ∀ k, Codec.cancelWrite (f k) = f (Codec.cancelWrite k)
  close : ∀ k, Codec.close (f k) = (Codec.close k).map id f
  dropReader : ∀ k, Codec.dropReader (f k) = f (Codec.dropReader k)

namespace Session

variable {ω κ κ' : Type}

/-- The session with another codec in the place of its own. -/
def map (f : κ → κ') (s : Session κ) : Session κ' :=
  ⟨s.client, f s.codec, s.receiver, s.writers, s.lock, s.callers⟩

section Map

variable [Codec κ] [Codec κ'] {f : κ → κ'} (hf : Codec.Hom f) (s : Session κ)

include hf

theorem stepReceiver_map (now : Nat) :
    ((s.map f).stepReceiver now).2 = (s.stepReceiver now).2.map f := by
  obtain ⟨client, codec, receiver, writers, lock, callers⟩ := s
  cases receiver with
  | ended => rfl
  | header =>
      cases hclosing : client.closing with
      | true => simp [map, stepReceiver, hclosing, endReceiver, hf.cancelRead, hf.dropReader]
      | false =>
          simp only [map, stepReceiver, hclosing, hf.readHeader]
          rcases Codec.readHeader now codec with ⟨_ | _ | error | response, codec'⟩
          · rfl
          · rfl
          · simp [endReceiver, hf.dropReader]
          · simp only [Prod.map, id, route]
            cases client.remove response.seq with
            | none => rfl
            | some found => cases response.remoteError <;> rfl
  | body p =>
      simp only [map, stepReceiver, hf.readBody]
      rcases Codec.readBody p.shape now codec with ⟨_ | _ | result, codec'⟩ <;> rfl
  | unknown =>
      simp only [map, stepReceiver, hf.discardBody]
      rcases Codec.discardBody now codec with ⟨_ | _ | error | _, codec'⟩
      · rfl
      · rfl
      · simp [endReceiver, hf.dropReader]
      · rfl
  | errorBody p text =>
      simp only [map, stepReceiver, hf.discardBody]
      rcases Codec.discardBody now codec with ⟨_ | _ | error | _, codec'⟩
      · rfl
      · rfl
      · simp [endReceiver, hf.dropReader]
      · rfl

theorem readEnding_map (now : Nat) : (s.map f).readEnding now = s.readEnding now := by
  obtain ⟨client, codec, receiver, writers, lock, callers⟩ := s
  cases receiver <;> simp [map, readEnding, hf.readHeader, hf.readBody, hf.discardBody]

theorem stepWriter_map (seq : UInt64) (now : Nat) :
    ((s.map f).stepWriter seq now).2 = (s.stepWriter seq now).2.map f := by
  obtain ⟨client, codec, receiver, writers, lock, callers⟩ := s
  cases hfind : writers.find? (·.request.seq = seq) with
  | none => simp [map, stepWriter, hfind]
  | some w =>
      cases hqueued : w.queued with
      | false => simp [map, stepWriter, hfind, hqueued, updateWriter]
      | true =>
          by_cases hholder : lock.holder = some (.writer seq)
          · cases hbegun : w.begun with
            | false =>
                cases hover : client.isOver <;>
                  simp [map, stepWriter, hfind, hqueued, hholder, hbegun, hover, endWriter,
                    updateWriter]
            | true =>
                cases hclosing : client.closing with
                | true =>
                    simp [map, stepWriter, hfind, hqueued, hholder, hbegun, hclosing, endWriter,
                      hf.cancelWrite]
                | false =>
                    rcases hwrite : Codec.write w.request w.args now codec with
                      ⟨_ | _ | error | _, codec'⟩ <;>
                      simp [map, stepWriter, hfind, hqueued, hholder, hbegun, hclosing, endWriter,
                        hf.write, hwrite]
          · simp [map, stepWriter, hfind, hqueued, hholder]

theorem writeFailure_map (seq : UInt64) (now : Nat) :
    (s.map f).writeFailure seq now = s.writeFailure seq now := by
  simp only [map, writeFailure, hf.write, Prod.map_fst, id]
  rfl

omit hf [Codec κ] [Codec κ'] in
theorem issue_map (call : Call) (shape : Wire.Shape) (mailbox : Nat) :
    (s.map f).issue call shape mailbox = (s.issue call shape mailbox).map f := by
  simp only [map, issue]
  split <;> rfl

omit hf [Codec κ] [Codec κ'] in
theorem stepCaller_map (place : Nat) :
    ((s.map f).stepCaller place).2 = (s.stepCaller place).2.map f := by
  obtain ⟨client, codec, receiver, writers, lock, callers⟩ := s
  cases hcaller : callers[place]? with
  | none => simp [map, stepCaller, hcaller]
  | some caller =>
      cases caller with
      | fresh call shape =>
          cases hover : client.isOver with
          | true => simp [map, stepCaller, hcaller, hover]
          | false =>
              have hissue := issue_map (f := f)
                ⟨(client.addMailbox { capacity := 1, handles := 0 }).2, codec, receiver, writers,
                  lock, callers⟩ call shape client.mailboxes.length
              simp only [map] at hissue
              simp [map, stepCaller, hcaller, hover, Client.addMailbox] at hissue ⊢
              simp [hissue]
      | waiting mailbox =>
          cases htake : client.takeCall mailbox with
          | some taken => simp [map, stepCaller, hcaller, htake]
          | none =>
              cases hclosed : client.isClosed mailbox <;>
                simp [map, stepCaller, hcaller, htake, hclosed]
      | finished result => simp [map, stepCaller, hcaller]

variable [Surroundings ω κ] [Surroundings ω κ']
  (hact : ∀ (event : ω) (k : κ), Surroundings.act event (f k) = f (Surroundings.act event k))

omit [Surroundings ω κ] [Surroundings ω κ'] in
theorem notices_map (d : Deed ω) : (s.map f).notices d = s.notices d := by
  cases d with
  | task t now =>
      cases t with
      | receiver =>
          simp only [notices, noteStep, readEnding_map hf]
      | writer seq => simp only [notices, noteStep, writeFailure_map hf]
      | caller place => rfl
  | go | goWith | call | completion | take | dropHandle | deafen | close | hangUp | outside => rfl

include hact

theorem perform_map (d : Deed ω) : (s.map f).perform d = (s.perform d).map f := by
  cases d with
  | go a =>
      exact issue_map { s with client := (s.client.addMailbox _).2 } a.call a.shape
        s.client.mailboxes.length
  | goWith a mailbox =>
      by_cases hmailbox : mailbox < s.client.mailboxes.length
      · simpa [perform, hmailbox, map] using issue_map (f := f) s a.call a.shape mailbox
      · simp [perform, hmailbox, map]
  | completion capacity =>
      cases hopened : s.client.completion capacity <;> simp [perform, map, hopened]
  | take mailbox =>
      cases htaken : s.client.takeCall mailbox <;> simp [perform, map, htaken]
  | task t now =>
      cases t with
      | receiver => exact stepReceiver_map hf s now
      | writer seq => exact stepWriter_map hf s seq now
      | caller place => exact stepCaller_map s place
  | close =>
      cases hover : s.client.isOver <;>
        simp [perform, map, beginClose, Client.beginClose, hover]
  | hangUp =>
      by_cases hholder : s.lock.holder = some .closer <;>
        simp [perform, map, stepClose, hholder, hf.close]
  | outside event => simp [perform, map, hact]
  | call | dropHandle | deafen => rfl

end Map

end Session

/-! ## Keeping a list -/

/-- What is asked of the writing half of a codec. -/
inductive Touch where
  /-- The request with this number is begun, or gone on with. -/
  | write (seq : UInt64)
  | close
  deriving DecidableEq

structure Watched (κ : Type) where
  codec : κ
  /-- Oldest first. -/
  touches : List Touch := []

namespace Watched

variable {ω κ : Type} [Codec κ] [Surroundings ω κ]

/-- Something that is done to the codec and is no touch. -/
def apart {α : Type} (act : κ → α × κ) (w : Watched κ) : α × Watched κ :=
  ((act w.codec).1, ⟨(act w.codec).2, w.touches⟩)

def note {α : Type} (touch : Touch) (act : κ → α × κ) (w : Watched κ) : α × Watched κ :=
  ((act w.codec).1, ⟨(act w.codec).2, w.touches ++ [touch]⟩)

instance : Codec (Watched κ) where
  readHeader now := apart (Codec.readHeader now)
  readBody shape now := apart (Codec.readBody shape now)
  discardBody now := apart (Codec.discardBody now)
  cancelRead w := { w with codec := Codec.cancelRead w.codec }
  write request args now := note (.write request.seq) (Codec.write request args now)
  cancelWrite w := { w with codec := Codec.cancelWrite w.codec }
  close := note .close Codec.close
  dropReader w := { w with codec := Codec.dropReader w.codec }
  dropWriter w := { w with codec := Codec.dropWriter w.codec }
  canRead now w := Codec.canRead now w.codec
  canWrite now w := Codec.canWrite now w.codec
  alarm now w := Codec.alarm now w.codec

instance : Surroundings ω (Watched κ) where
  act event w := { w with codec := Surroundings.act event w.codec }

theorem hom_codec : Codec.Hom (Watched.codec : Watched κ → κ) where
  readHeader _ _ := rfl
  readBody _ _ _ := rfl
  discardBody _ _ := rfl
  cancelRead _ := rfl
  write _ _ _ _ := rfl
  cancelWrite _ := rfl
  close _ := rfl
  dropReader _ := rfl

end Watched

namespace History

variable {ω κ : Type} [Codec κ] [Surroundings ω κ]

/-- The life as it looks to somebody who does not see the list. -/
def unwatched (h : History (Watched κ)) : History κ := ⟨h.session.map Watched.codec, h.notices⟩

/-- The list has no influence on the life. -/
theorem unwatched_run (codec : κ) (deeds : List (Deed ω)) :
    (run ({ codec } : Watched κ) deeds).unwatched = run codec deeds := by
  induction deeds using List.reverseRecOn with
  | nil => rfl
  | append_singleton deeds d ih =>
      have hact (event : ω) (w : Watched κ) :
          Surroundings.act event w.codec = (Surroundings.act event w).codec := rfl
      rw [run_append_singleton, run_append_singleton, ← ih]
      simp only [unwatched, perform, Session.notices_map Watched.hom_codec,
        Session.perform_map Watched.hom_codec _ hact]

end History

end Switchboard
