import Switchboard.Proofs.Client.Digest

/-!
# Where the receiver stands in the stream

At every moment the stream that has come so far falls into the frames that were
read as a whole, the octets that the read in progress has taken, and what is not
read yet. `Placed` says so, and says that nothing else was taken. It is kept by
whatever the others do and by every step of the receiver that does not break
off.
-/

namespace Switchboard

open Session (Deed Notice)

/-- A client's end of a connection on which no read has begun. Some octets may
have been read ahead by whoever had the connection before. -/
def Framed.fresh (link : Script) (buffer : Octets) (limit : Nat) (patience : Option Nat)
    (outbound : Outbound) : Framed Script :=
  ⟨link, { buffer, limit, patience }, outbound⟩

namespace History

/-- What came behind what there was at first. -/
def arrivals (deeds : List (Deed Script.Twist)) : List Incoming := deeds.flatMap Deed.arrivals

@[simp] theorem arrivals_append_singleton (deeds : List (Deed Script.Twist))
    (d : Deed Script.Twist) : arrivals (deeds ++ [d]) = arrivals deeds ++ d.arrivals := by
  simp [arrivals]

/-- A session stands in the stream behind some frames and some octets. -/
structure Placed (codec : Framed Script) (deeds : List (Deed Script.Twist))
    (frames : List ByteArray) (taken : Octets) (s : Session (Framed Script)) : Prop where
  small : ∀ payload ∈ frames, payload.size ≤ codec.inbound.limit ∧ payload.size < 2 ^ 32
  stream : ∀ more, codec.unread (arrivals deeds ++ more) =
    frames.flatMap frameOctets ++ taken ++ s.codec.unread more
  failures : ∀ error, .failure error ∈ s.codec.link.incoming →
    .failure error ∈ codec.link.incoming ++ arrivals deeds
  reads : s.receiver ≠ .ended → s.codec.Reads codec.inbound.limit s.receiver.skips taken

namespace Placed

variable {codec : Framed Script} {deeds : List (Deed Script.Twist)} {frames : List ByteArray}
  {taken : Octets} {s s' : Session (Framed Script)}

theorem start (hidle : codec.inbound.reading = none) : Placed codec [] [] [] { codec } where
  small := by simp
  stream _ := rfl
  failures error h := by simpa [arrivals] using h
  reads _ := ⟨rfl, .inl ⟨hidle, rfl⟩⟩

theorem beside (h : Placed codec deeds frames taken s) {d : Deed Script.Twist}
    (hs : Session.Beside d s s') : Placed codec (deeds ++ [d]) frames taken s' where
  small := h.small
  stream more := by
    rw [arrivals_append_singleton, List.append_assoc, h.stream (d.arrivals ++ more)]
    simp only [Framed.unread, hs.inbound, hs.incoming, List.append_assoc]
  failures error hmem := by
    rw [hs.incoming, List.mem_append] at hmem
    rw [arrivals_append_singleton, ← List.append_assoc, List.mem_append]
    exact hmem.imp (h.failures error) id
  reads hended := by
    rw [hs.receiver] at hended ⊢
    obtain ⟨hlimit, hreading⟩ := h.reads hended
    exact ⟨by rw [hs.inbound, hlimit], by rwa [hs.inbound]⟩

/-- The receiver took some octets, which with what it had are some frames and a
rest. -/
theorem took (h : Placed codec deeds frames taken s) (now : Nat) (more : List ByteArray)
    {got taken' : Octets} (htook : s.codec.Took got s'.codec)
    (hsmall : ∀ payload ∈ more, payload.size ≤ codec.inbound.limit ∧ payload.size < 2 ^ 32)
    (hoctets : taken ++ got = more.flatMap frameOctets ++ taken')
    (hreads : s'.receiver ≠ .ended →
      s'.codec.Reads codec.inbound.limit s'.receiver.skips taken') :
    Placed codec (deeds ++ [.task .receiver now]) (frames ++ more) taken' s' where
  small payload hp := (List.mem_append.mp hp).elim (h.small payload) (hsmall payload)
  stream rest := by
    have harrivals : arrivals (deeds ++ [.task .receiver now]) = arrivals deeds := by
      rw [arrivals_append_singleton]
      exact List.append_nil _
    calc codec.unread (arrivals (deeds ++ [.task .receiver now]) ++ rest)
        = frames.flatMap frameOctets ++ taken ++ s.codec.unread rest := by
          rw [harrivals, h.stream rest]
      _ = frames.flatMap frameOctets ++ (taken ++ got) ++ s'.codec.unread rest := by
          rw [htook.unread rest]
          simp only [List.append_assoc]
      _ = (frames ++ more).flatMap frameOctets ++ taken' ++ s'.codec.unread rest := by
          rw [hoctets, List.flatMap_append]
          simp only [List.append_assoc]
  failures error hmem := by
    rw [arrivals_append_singleton, ← List.append_assoc]
    exact List.mem_append_left _ (h.failures error (htook.failures error hmem))
  reads := hreads

theorem awaited (h : Placed codec deeds frames taken s) {now : Nat} {got : Octets}
    (htook : s.codec.Took got s'.codec)
    (hreads : s'.codec.Reads codec.inbound.limit s.receiver.skips (taken ++ got))
    (hreceiver : s'.receiver = s.receiver) :
    Placed codec (deeds ++ [.task .receiver now]) frames (taken ++ got) s' := by
  have hplaced := h.took now [] htook (by simp) rfl
    (fun _ => hreceiver ▸ hreads)
  rwa [List.append_nil] at hplaced

/-- When reading is over, it does not matter where. -/
theorem ended (h : Placed codec deeds frames taken s) {now : Nat} {got : Octets}
    (htook : s.codec.Took got s'.codec) (hreceiver : s'.receiver = .ended) :
    Placed codec (deeds ++ [.task .receiver now]) frames (taken ++ got) s' := by
  have hplaced := h.took now [] htook (by simp) rfl
    (fun hended => absurd hreceiver hended)
  rwa [List.append_nil] at hplaced

theorem frame (h : Placed codec deeds frames taken s) {now : Nat} {got : Octets}
    {payload : ByteArray}
    (hwhole : s.codec.Completes codec.inbound.limit taken got payload s'.codec) :
    Placed codec (deeds ++ [.task .receiver now]) (frames ++ [payload]) [] s' :=
  h.took now [payload] hwhole.took (by simpa using ⟨hwhole.fits, hwhole.short⟩)
    (by simpa using hwhole.frame) fun _ => hwhole.idle.reads _

end Placed

end History

end Switchboard
