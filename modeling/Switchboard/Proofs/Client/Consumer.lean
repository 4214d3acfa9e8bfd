import Mathlib
import Switchboard.Proofs.Client.Signals

/-!
# Clients that are the same beyond one mailbox

How much a mailbox can hold, what is in it and whether anybody listens is the concern
of its owner. `Client.Beyond` holds of two clients that are the same but for this, in one
mailbox, and for what became of the calls that were put there. Whatever is done to both of them
preserves it, and what the owner does preserves it when it is done to one alone.
-/

namespace Switchboard

namespace Client

/-! ## Telling -/

/-- What is reported when a finished call is put into a mailbox. -/
def tidings (place : Nat) (call : Call) (delivery : Delivery) : List Event :=
  .finished place call delivery ::
    match delivery with
    | .overflow => [.overflow call.seq call.method]
    | .delivered | .unheard => []

/-- Two reports that differ at most in what became of the calls of one mailbox. -/
inductive TellAlike (place : Nat) : List Event → List Event → Prop
  | start : TellAlike place [] []
  | log {es es' : List Event} (h : TellAlike place es es') (e : Event) :
      TellAlike place (es ++ [e]) (es' ++ [e])
  | own {es es' : List Event} (h : TellAlike place es es') (call : Call)
      (delivery delivery' : Delivery) :
      TellAlike place (es ++ tidings place call delivery) (es' ++ tidings place call delivery')

namespace TellAlike

variable {place : Nat} {es es' : List Event}

theorem refl (place : Nat) (es : List Event) : TellAlike place es es := by
  induction es using List.reverseRecOn with
  | nil => exact .start
  | append_singleton es e ih => exact .log ih e

theorem symm (h : TellAlike place es es') : TellAlike place es' es := by
  induction h with
  | start => exact .start
  | log _ e ih => exact .log ih e
  | own _ call delivery delivery' ih => exact .own ih call delivery' delivery

theorem append (h : TellAlike place es es') (more : List Event) :
    TellAlike place (es ++ more) (es' ++ more) := by
  induction more using List.reverseRecOn with
  | nil =>
      rw [List.append_nil, List.append_nil]
      exact h
  | append_singleton more e ih =>
      rw [← List.append_assoc, ← List.append_assoc]
      exact .log ih e

/-- The same calls were told, in the same order and with the same outcomes. -/
theorem signals (h : TellAlike place es es') :
    es.filterMap Event.signal? = es'.filterMap Event.signal? := by
  have htidings (call : Call) (delivery : Delivery) :
      (tidings place call delivery).filterMap Event.signal? = [(place, call)] := by
    cases delivery <;> rfl
  induction h with
  | start => rfl
  | log _ e ih => rw [List.filterMap_append, List.filterMap_append, ih]
  | own _ call delivery delivery' ih =>
      rw [List.filterMap_append, List.filterMap_append, ih, htidings, htidings]

end TellAlike

/-! ## The same beyond one mailbox -/

/-- Two clients that are the same beyond one mailbox, which has the same handles. -/
structure Beyond (place : Nat) (c c' : Client) : Prop where
  table : c.table = c'.table
  nextSeq : c.nextSeq = c'.nextSeq
  shutdown : c.shutdown = c'.shutdown
  closing : c.closing = c'.closing
  others : ∀ m, m ≠ place → c.mailboxes[m]? = c'.mailboxes[m]?
  own : ∃ b b', c.mailboxes[place]? = some b ∧ c'.mailboxes[place]? = some b' ∧
    b.handles = b'.handles
  events : TellAlike place c.events c'.events

theorem finish_of_mailbox {c : Client} {p : Pending} {m : Mailbox}
    (h : c.mailboxes[p.mailbox]? = some m) (outcome : Except CallError Wire.Value) :
    c.finish p outcome =
      { c with
        mailboxes := c.mailboxes.set p.mailbox (m.put (p.call.finish outcome)).2.dropHandle
        events := c.events ++
          tidings p.mailbox (p.call.finish outcome) (m.put (p.call.finish outcome)).1 } := by
  unfold finish
  rw [h]
  dsimp only
  generalize m.put (p.call.finish outcome) = put
  obtain ⟨delivery, m'⟩ := put
  cases delivery <;> simp [log, tidings]

theorem finish_of_none {c : Client} {p : Pending} (h : c.mailboxes[p.mailbox]? = none)
    (outcome : Except CallError Wire.Value) : c.finish p outcome = c := by
  unfold finish
  rw [h]

end Client

theorem Mailbox.handles_put (call : Call) (m : Mailbox) : (m.put call).2.handles = m.handles := by
  unfold put
  split
  · rfl
  · split <;> rfl

namespace Client.Beyond

variable {place : Nat} {c c' : Client}

theorem symm (h : Beyond place c c') : Beyond place c' c where
  table := h.table.symm
  nextSeq := h.nextSeq.symm
  shutdown := h.shutdown.symm
  closing := h.closing.symm
  others m hm := (h.others m hm).symm
  own := by
    obtain ⟨b, b', hb, hb', hhandles⟩ := h.own
    exact ⟨b', b, hb', hb, hhandles.symm⟩
  events := h.events.symm

theorem refl (h : place < c.mailboxes.length) : Beyond place c c :=
  ⟨rfl, rfl, rfl, rfl, fun _ _ => rfl,
    ⟨_, _, List.getElem?_eq_getElem h, List.getElem?_eq_getElem h, rfl⟩, .refl _ _⟩

theorem isOver (h : Beyond place c c') : c.isOver = c'.isOver := by
  rw [Client.isOver, Client.isOver, h.shutdown, h.closing]

theorem lt (h : Beyond place c c') : place < c.mailboxes.length := by
  obtain ⟨b, _, hb, _⟩ := h.own
  exact (List.getElem?_eq_some_iff.mp hb).1

theorem length (h : Beyond place c c') : c.mailboxes.length = c'.mailboxes.length := by
  have hnone (m : Nat) : c.mailboxes[m]? = none ↔ c'.mailboxes[m]? = none := by
    by_cases hm : m = place
    · obtain ⟨b, b', hb, hb', _⟩ := h.own
      rw [hm, hb, hb']
      exact ⟨fun h => (nomatch h), fun h => (nomatch h)⟩
    · rw [h.others m hm]
  have hle := hnone c.mailboxes.length
  have hge := hnone c'.mailboxes.length
  rw [List.getElem?_eq_none_iff, List.getElem?_eq_none_iff] at hle hge
  omega

/-! ### The same on both sides -/

theorem log (h : Beyond place c c') (e : Event) : Beyond place (c.log e) (c'.log e) :=
  { h with events := .log h.events e }

theorem addMailbox (h : Beyond place c c') (m : Mailbox) :
    Beyond place (c.addMailbox m).2 (c'.addMailbox m).2 where
  table := h.table
  nextSeq := h.nextSeq
  shutdown := h.shutdown
  closing := h.closing
  others n hn := by
    simp only [Client.addMailbox, List.getElem?_append, h.length, h.others n hn]
  own := by
    obtain ⟨b, b', hb, hb', hhandles⟩ := h.own
    refine ⟨b, b', ?_, ?_, hhandles⟩
    · exact (List.getElem?_append_left h.lt).trans hb
    · exact (List.getElem?_append_left h.symm.lt).trans hb'
  events := h.events

theorem updateMailbox (h : Beyond place c c') (m : Nat) {f : Mailbox → Mailbox}
    (hf : ∀ b b' : Mailbox, b.handles = b'.handles → (f b).handles = (f b').handles) :
    Beyond place (c.updateMailbox m f) (c'.updateMailbox m f) where
  table := h.table
  nextSeq := h.nextSeq
  shutdown := h.shutdown
  closing := h.closing
  others n hn := by
    simp only [Client.updateMailbox, List.getElem?_modify, h.others n hn]
  own := by
    obtain ⟨b, b', hb, hb', hhandles⟩ := h.own
    simp only [Client.updateMailbox, List.getElem?_modify, hb, hb', Option.map_eq_map,
      Option.map_some, Option.some.injEq]
    by_cases hm : m = place
    · exact ⟨f b, f b', if_pos hm, if_pos hm, hf b b' hhandles⟩
    · exact ⟨b, b', if_neg hm, if_neg hm, hhandles⟩
  events := h.events

/-- A finished call is told on both sides; if the mailbox is the one in question, what
becomes of the call may differ. -/
theorem finish (h : Beyond place c c') (p : Pending) (outcome : Except CallError Wire.Value) :
    Beyond place (c.finish p outcome) (c'.finish p outcome) := by
  by_cases hp : p.mailbox = place
  · obtain ⟨b, b', hb, hb', hhandles⟩ := h.own
    subst hp
    rw [finish_of_mailbox hb, finish_of_mailbox hb']
    refine ⟨h.table, h.nextSeq, h.shutdown, h.closing, fun n hn => ?_, ?_, .own h.events _ _ _⟩
    · simp only [List.getElem?_set_ne hn.symm, h.others n hn]
    · refine ⟨_, _, List.getElem?_set_self h.lt, List.getElem?_set_self h.symm.lt, ?_⟩
      simp only [Mailbox.dropHandle, Mailbox.handles_put, hhandles]
  · have hsame := h.others p.mailbox hp
    cases hm : c.mailboxes[p.mailbox]? with
    | none =>
        rw [hm] at hsame
        rw [finish_of_none hm, finish_of_none hsame.symm]
        exact h
    | some m =>
        rw [hm] at hsame
        rw [finish_of_mailbox hm, finish_of_mailbox hsame.symm]
        refine ⟨h.table, h.nextSeq, h.shutdown, h.closing, fun n hn => ?_, ?_, h.events.append _⟩
        · simp only [List.getElem?_set, h.length, h.others n hn]
        · obtain ⟨b, b', hb, hb', hhandles⟩ := h.own
          simp only [List.getElem?_set_ne hp]
          exact ⟨b, b', hb, hb', hhandles⟩

theorem issue (h : Beyond place c c') (call : Call) (shape : Wire.Shape) (mailbox : Nat) :
    (c.issue call shape mailbox).1 = (c'.issue call shape mailbox).1 ∧
      Beyond place (c.issue call shape mailbox).2 (c'.issue call shape mailbox).2 := by
  have hmore := h.updateMailbox mailbox (f := (·.addHandle)) fun b b' hb => congrArg (· + 1) hb
  refine ⟨by rw [issue_request, issue_request, h.isOver, h.nextSeq], ?_⟩
  cases hover : c.isOver with
  | true =>
      rw [issue_over hover, issue_over (h.isOver ▸ hover)]
      exact hmore.finish _ _
  | false =>
      rw [issue_open hover, issue_open (h.isOver ▸ hover), h.nextSeq, h.table]
      exact { hmore with nextSeq := rfl, table := rfl }

theorem remove_none (h : Beyond place c c') {seq : UInt64} (hnone : c.remove seq = none) :
    c'.remove seq = none := by
  rw [remove_eq_none_iff] at hnone ⊢
  rw [← h.table]
  exact hnone

theorem remove_some (h : Beyond place c c') {seq : UInt64} {p : Pending} {d : Client}
    (hsome : c.remove seq = some (p, d)) : ∃ d', c'.remove seq = some (p, d') ∧ Beyond place d d' := by
  obtain ⟨hp, rfl⟩ := remove_eq_some_iff.mp hsome
  refine ⟨_, remove_eq_some_iff.mpr ⟨h.table ▸ hp, rfl⟩, ?_⟩
  exact { h with table := congrArg (List.filter _) h.table }

theorem writeFailed (h : Beyond place c c') (seq : UInt64) (error : CallError) :
    Beyond place (c.writeFailed seq error) (c'.writeFailed seq error) := by
  unfold Client.writeFailed
  cases hremove : c.remove seq with
  | none =>
      rw [h.remove_none hremove]
      exact h
  | some found =>
      obtain ⟨p, d⟩ := found
      obtain ⟨d', hremove', hd⟩ := h.remove_some hremove
      rw [hremove']
      exact hd.finish p _

theorem drain (h : Beyond place c c') (told : CallError) (entries : List (UInt64 × Pending)) :
    Beyond place (c.drain told entries) (c'.drain told entries) := by
  induction entries generalizing c c' with
  | nil => exact h
  | cons entry entries ih => exact ih (h.finish entry.2 (.error told))

theorem stop (h : Beyond place c c') (error : CallError) :
    Beyond place (c.stop error) (c'.stop error) := by
  have hempty : Beyond place { c with shutdown := true, table := [] }
      { c' with shutdown := true, table := [] } := { h with shutdown := rfl, table := rfl }
  rw [← h.closing] at hempty
  have hdrain := hempty.drain (verdict c.closing error) c.table
  rw [stop_eq, stop_eq, ← h.closing, ← h.table]
  split
  · exact hdrain
  · exact hdrain.log _

theorem takeCall_none (h : Beyond place c c') {m : Nat} (hm : m ≠ place)
    (hnone : c.takeCall m = none) : c'.takeCall m = none := by
  unfold Client.takeCall at hnone ⊢
  rw [← h.others m hm]
  cases hbox : c.mailboxes[m]? with
  | none => rfl
  | some b =>
      rw [hbox] at hnone
      exact Option.map_eq_none_iff.mpr (Option.map_eq_none_iff.mp hnone)

theorem takeCall_some (h : Beyond place c c') {m : Nat} (hm : m ≠ place) {call : Call} {d : Client}
    (hsome : c.takeCall m = some (call, d)) :
    ∃ d', c'.takeCall m = some (call, d') ∧ Beyond place d d' := by
  unfold Client.takeCall at hsome ⊢
  rw [← h.others m hm]
  cases hbox : c.mailboxes[m]? with
  | none =>
      rw [hbox] at hsome
      cases hsome
  | some b =>
      rw [hbox] at hsome
      obtain ⟨⟨_, b'⟩, htake, heq⟩ := Option.map_eq_some_iff.mp hsome
      cases heq
      refine ⟨_, Option.map_eq_some_iff.mpr ⟨_, htake, rfl⟩, ?_⟩
      refine { h with others := fun n hn => ?_, own := ?_ }
      · simp only [List.getElem?_set, h.length, h.others n hn]
      · obtain ⟨b, b', hb, hb', hhandles⟩ := h.own
        simp only [List.getElem?_set_ne hm]
        exact ⟨b, b', hb, hb', hhandles⟩

theorem isClosed (h : Beyond place c c') {m : Nat} (hm : m ≠ place) :
    c.isClosed m = c'.isClosed m := by
  rw [Client.isClosed, Client.isClosed, h.others m hm]

/-! ### On one side -/

theorem takeOwn (h : Beyond place c c') {call : Call} {d : Client}
    (hsome : c.takeCall place = some (call, d)) : Beyond place d c' := by
  obtain ⟨b, b', hb, hb', hhandles⟩ := h.own
  unfold Client.takeCall at hsome
  rw [hb] at hsome
  obtain ⟨⟨_, rest⟩, htake, heq⟩ := Option.map_eq_some_iff.mp hsome
  cases heq
  have hrest : rest.handles = b.handles := by
    unfold Mailbox.take at htake
    split at htake
    · cases htake
    · cases htake
      rfl
  refine { h with others := fun n hn => ?_, own := ?_ }
  · rw [List.getElem?_set_ne hn.symm, h.others n hn]
  · exact ⟨rest, b', List.getElem?_set_self h.lt, hb', hrest.trans hhandles⟩

theorem deafenOwn (h : Beyond place c c') :
    Beyond place (c.updateMailbox place (·.deafen)) c' := by
  obtain ⟨b, b', hb, hb', hhandles⟩ := h.own
  refine { h with others := fun n hn => ?_, own := ⟨b.deafen, b', ?_, hb', hhandles⟩ }
  · simp only [Client.updateMailbox, List.getElem?_modify, if_neg hn.symm, h.others n hn,
      Option.map_eq_map, Option.map_id']
  · simp only [Client.updateMailbox, List.getElem?_modify, hb, if_pos, Option.map_eq_map,
      Option.map_some]

/-- Two mailboxes that differ only in how much they can hold. -/
theorem opened (c : Client) (m m' : Mailbox) (h : m.handles = m'.handles) :
    Beyond c.mailboxes.length (c.addMailbox m).2 (c.addMailbox m').2 where
  table := rfl
  nextSeq := rfl
  shutdown := rfl
  closing := rfl
  others n hn := by
    simp only [Client.addMailbox, List.getElem?_append]
    split
    · rfl
    · rw [List.getElem?_eq_none (by simp; omega), List.getElem?_eq_none (by simp; omega)]
  own := ⟨m, m', List.getElem?_concat_length, List.getElem?_concat_length, h⟩
  events := .refl _ _

end Client.Beyond

end Switchboard
