import Switchboard.Proofs.Client.Accounting

/-!
# What becomes of calls, told from the frames alone

A plain account of what a client should make of a list of frames. It reads them
two by two, a header and a body, against the table of the calls that have no
outcome yet, and it knows nothing of octets, reads in progress and mailboxes.
From what was noted down of a life it takes only when calls were registered,
which could not be written, and when the next frame had been read.
-/

namespace Switchboard

open Session (Notice)

/-- What a body is, by the header in front of it. -/
inductive Awaited where
  /-- The reply to a call. -/
  | reply (p : Pending)
  /-- Anything, behind a header that reports an error to a call. -/
  | refusal (p : Pending) (text : String)
  /-- Anything, behind a header that answers no call. -/
  | nobody

/-- The call that the body belongs to. -/
def Awaited.held : Awaited → List Pending
  | .reply p | .refusal p _ => [p]
  | .nobody => []

structure Reference where
  /-- The frames that are still to be read. -/
  frames : List ByteArray
  /-- The calls without an outcome, by number. -/
  table : List (UInt64 × Pending) := []
  /-- The body that comes next, if a header was read. -/
  awaited : Option Awaited := none
  /-- The calls with an outcome, in the order in which they got it. -/
  told : List (Pending × Except CallError Wire.Value) := []

namespace Reference

/-- A call gets its outcome. -/
def tell (p : Pending) (outcome : Except CallError Wire.Value) (r : Reference) : Reference :=
  { r with told := r.told ++ [(p, outcome)] }

/-- Reading is over, and the remaining calls fail in the same way. -/
def fail (error : CallError) (r : Reference) : Reference where
  frames := []
  told := r.told ++ r.table.map fun entry => (entry.2, .error error)

def register (p : Pending) (r : Reference) : Reference :=
  match p.call.seq with
  | none => r
  | some seq => { r with table := r.table ++ [(seq, p)] }

/-- A request could not be written. -/
def unsent (seq : UInt64) (error : CallError) (r : Reference) : Reference :=
  match r.table.lookup seq with
  | none => r
  | some p => { r with table := r.table.filter (·.1 != seq) }.tell p (.error error)

def header (payload : ByteArray) (r : Reference) : Reference :=
  match Wire.Response.decode payload with
  | .error fault => r.fail (.transport (.decode fault))
  | .ok response =>
      match r.table.lookup response.seq with
      | none => { r with awaited := some .nobody }
      | some p =>
          { r with
            table := r.table.filter (·.1 != response.seq)
            awaited := some <|
              match response.remoteError with
              | none => .reply p
              | some text => .refusal p text }

def body (payload : ByteArray) (r : Reference) : Awaited → Reference
  | .reply p =>
      r.tell p ((Wire.decode p.shape payload).mapError
        (.readingBody <| .transport <| .decode ·))
  | .refusal p text => r.tell p (.error (.server text))
  | .nobody => r

/-- The stream ends in place of a body. -/
def noBody (r : Reference) : Awaited → Reference
  | .reply p => r.tell p (.error (.readingBody .eof))
  | .refusal p text => (r.tell p (.error (.server text))).fail (.readingErrorBody .eof)
  | .nobody => r.fail .unexpectedEof

/-- The next frame is read, or the end of the stream if there is none. -/
def read (r : Reference) : Reference :=
  match r.awaited, r.frames with
  | none, payload :: frames => { r with frames }.header payload
  | none, [] => r.fail .unexpectedEof
  | some awaited, payload :: frames => { r with frames, awaited := none }.body payload awaited
  | some awaited, [] => { r with awaited := none }.noBody awaited

section Read

variable {r : Reference} {awaited : Awaited} {payload : ByteArray} {frames : List ByteArray}

theorem read_header (hawaited : r.awaited = none) (hframes : r.frames = payload :: frames) :
    r.read = { r with frames }.header payload := by
  rw [read, hawaited, hframes]

theorem read_noHeader (hawaited : r.awaited = none) (hframes : r.frames = []) :
    r.read = r.fail .unexpectedEof := by
  rw [read, hawaited, hframes]

theorem read_body (hawaited : r.awaited = some awaited) (hframes : r.frames = payload :: frames) :
    r.read = { r with frames, awaited := none }.body payload awaited := by
  rw [read, hawaited, hframes]

theorem read_noBody (hawaited : r.awaited = some awaited) (hframes : r.frames = []) :
    r.read = { r with awaited := none }.noBody awaited := by
  rw [read, hawaited, hframes]

end Read

def step (r : Reference) : Notice → Reference
  | .registered p => r.register p
  | .unsent seq error => r.unsent seq error
  | .read _ => r.read
  | .refused _ | .turnedAway _ => r

end Reference

/-- What becomes of the calls of a life when these frames come. -/
def reference (frames : List ByteArray) (notices : List Notice) : Reference :=
  notices.foldl Reference.step { frames }

@[simp] theorem reference_append (frames : List ByteArray) (notices more : List Notice) :
    reference frames (notices ++ more) = more.foldl Reference.step (reference frames notices) :=
  List.foldl_append

/-! ## Only registered calls -/

namespace Reference

/-- Whoever the account speaks of is one of these calls. -/
structure Knows (calls : List Pending) (r : Reference) : Prop where
  table : ∀ entry ∈ r.table, entry.2 ∈ calls
  awaited : ∀ awaited, r.awaited = some awaited → ∀ p ∈ awaited.held, p ∈ calls
  told : ∀ t ∈ r.told, t.1 ∈ calls

namespace Knows

variable {calls : List Pending} {r : Reference}

theorem tell (h : r.Knows calls) {p : Pending} (hp : p ∈ calls)
    (outcome : Except CallError Wire.Value) : (r.tell p outcome).Knows calls where
  table := h.table
  awaited := h.awaited
  told t ht := by
    rcases List.mem_append.mp ht with hold | hnew
    · exact h.told t hold
    · rw [List.mem_singleton.mp hnew]
      exact hp

theorem fail (h : r.Knows calls) (error : CallError) : (r.fail error).Knows calls where
  table := by simp [Reference.fail]
  awaited := by simp [Reference.fail]
  told t ht := by
    rcases List.mem_append.mp ht with hold | hnew
    · exact h.told t hold
    · obtain ⟨entry, hentry, rfl⟩ := List.mem_map.mp hnew
      exact h.table entry hentry

/-- The call that is looked up is known, and without it the others still are. -/
theorem lookup (h : r.Knows calls) {seq : UInt64} {p : Pending}
    (hp : r.table.lookup seq = some p) :
    p ∈ calls ∧ ∀ entry ∈ r.table.filter (·.1 != seq), entry.2 ∈ calls := by
  obtain ⟨before, after, htable, _⟩ := List.lookup_eq_some_iff.mp hp
  refine ⟨h.table (seq, p) (by simp [htable]), ?_⟩
  intro entry hentry
  exact h.table entry (List.mem_filter.mp hentry).1

theorem unsent (h : r.Knows calls) (seq : UInt64) (error : CallError) :
    (r.unsent seq error).Knows calls := by
  unfold Reference.unsent
  split
  · exact h
  · rename_i p hp
    obtain ⟨hmem, hrest⟩ := h.lookup hp
    have htaken : Knows calls { r with table := r.table.filter (·.1 != seq) } :=
      ⟨hrest, h.awaited, h.told⟩
    exact htaken.tell hmem _

theorem header (h : r.Knows calls) (payload : ByteArray) : (r.header payload).Knows calls := by
  unfold Reference.header
  split
  · exact h.fail _
  · split
    · refine ⟨h.table, ?_, h.told⟩
      rintro awaited heq p hp
      cases heq
      cases hp
    · rename_i response _ p hp
      obtain ⟨hmem, hrest⟩ := h.lookup hp
      refine ⟨hrest, ?_, h.told⟩
      rintro awaited heq q hq
      cases heq
      have hq : q = p := by
        revert hq
        split <;> exact List.mem_singleton.mp
      exact hq ▸ hmem

theorem body (h : r.Knows calls) {awaited : Awaited} (hheld : ∀ p ∈ awaited.held, p ∈ calls)
    (payload : ByteArray) : (r.body payload awaited).Knows calls := by
  cases awaited with
  | reply p => exact h.tell (hheld p (List.mem_singleton_self p)) _
  | refusal p text => exact h.tell (hheld p (List.mem_singleton_self p)) _
  | nobody => exact h

theorem noBody (h : r.Knows calls) {awaited : Awaited} (hheld : ∀ p ∈ awaited.held, p ∈ calls) :
    (r.noBody awaited).Knows calls := by
  cases awaited with
  | reply p => exact h.tell (hheld p (List.mem_singleton_self p)) _
  | refusal p text => exact (h.tell (hheld p (List.mem_singleton_self p)) _).fail _
  | nobody => exact h.fail _

theorem read (h : r.Knows calls) : r.read.Knows calls := by
  have hnext (frames : List ByteArray) : Knows calls { r with frames } :=
    ⟨h.table, h.awaited, h.told⟩
  have hnone (frames : List ByteArray) : Knows calls { r with frames, awaited := none } :=
    ⟨h.table, by simp, h.told⟩
  unfold Reference.read
  split
  · exact (hnext _).header _
  · exact h.fail _
  · rename_i awaited payload frames hawaited _
    exact (hnone frames).body (h.awaited awaited hawaited) payload
  · rename_i awaited hawaited _
    exact (hnone r.frames).noBody (h.awaited awaited hawaited)

theorem mono (h : r.Knows calls) (more : List Pending) : r.Knows (calls ++ more) where
  table entry hentry := List.mem_append_left _ (h.table entry hentry)
  awaited awaited heq p hp := List.mem_append_left _ (h.awaited awaited heq p hp)
  told t ht := List.mem_append_left _ (h.told t ht)

theorem step (h : r.Knows calls) (n : Notice) :
    (r.step n).Knows (calls ++ n.registered?.toList) := by
  cases n with
  | registered p =>
      have hcalls := h.mono [p]
      change (r.register p).Knows (calls ++ [p])
      unfold Reference.register
      split
      · exact hcalls
      · refine ⟨?_, hcalls.awaited, hcalls.told⟩
        intro entry hentry
        rcases List.mem_append.mp hentry with hold | hnew
        · exact hcalls.table entry hold
        · rw [List.mem_singleton.mp hnew]
          exact List.mem_append_right _ (List.mem_singleton_self p)
  | unsent seq error => exact (h.unsent seq error).mono []
  | read failure => exact h.read.mono []
  | refused p => exact h.mono []
  | turnedAway place => exact h.mono []

end Knows

theorem knows_reference (frames : List ByteArray) (notices : List Notice) :
    (reference frames notices).Knows (notices.filterMap Notice.registered?) := by
  induction notices using List.reverseRecOn with
  | nil => exact ⟨by simp [reference], by simp [reference], by simp [reference]⟩
  | append_singleton notices n ih =>
      have hlast : [n].filterMap Notice.registered? = n.registered?.toList := by
        cases n <;> rfl
      rw [reference_append, List.filterMap_append, hlast]
      exact ih.step n

end Reference

end Switchboard
