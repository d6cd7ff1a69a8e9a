import Kbox.Util.ByteQueue
import Kbox.Framework.Handoff

/-!
# A thread that writes blocks into a `ByteQueue`

Both terminal sessions have a thread that calls `ByteQueue.write` again and
again and sends a message after each call.  Seen from the queue it is the
producer of a `Handoff`, and a critical section of `write` is one `put`.
-/

namespace Kbox.Util

open Kbox.Framework Kbox.Util.ByteQueue

inductive BlockWriter where
  /-- Between two calls of `write`. -/
  | ready
  | entering (call : WriteCall)
  /-- Inside `write`; `waiting` until notified. -/
  | writing (frame : WriteFrame) (waiting : Bool)
  /-- Back from `write`, with the message still to be sent. -/
  | returned (call : WriteCall)

namespace BlockWriter

/-- `notify()` reaches the thread if it waits on the queue. -/
def wake : BlockWriter → BlockWriter
  | writing f _ => writing f false
  | w => w

/-- Where a critical section of `write` for the call `c` leaves the thread. -/
def leave (c : WriteCall) : WriteOutcome → BlockWriter
  | .returned _ => returned c
  | .waits f => writing f true

/-- Blocked inside `write` on a full queue. -/
def BlockedOn (w : BlockWriter) (q : ByteQueue) : Prop :=
  (∃ f waiting, w = writing f waiting) ∧ q.mStoredBytes = q.mBuffer.length

/-- A frame keeps to its call, and still has something to write. -/
structure FrameValid (f : WriteFrame) : Prop where
  length_pos : 0 < f.length
  length_le : f.length ≤ f.call.count
  fits : f.offset + f.length ≤ f.call.data.length

def Valid (w : BlockWriter) : Prop := ∀ f waiting, w = writing f waiting → FrameValid f

theorem valid_ready : Valid ready := fun _ _ h => by cases h

theorem valid_entering (c : WriteCall) : Valid (entering c) := fun _ _ h => by cases h

theorem valid_returned (c : WriteCall) : Valid (returned c) := fun _ _ h => by cases h

theorem Valid.wake {w : BlockWriter} (h : Valid w) : Valid w.wake := by
  cases w with
  | writing f waiting =>
      intro f' _ heq
      cases heq
      exact h f waiting rfl
  | ready => exact valid_ready
  | entering c => exact valid_entering c
  | returned c => exact valid_returned c

/-! ## §1  The thread as a producer -/

def producer : BlockWriter → Handoff.Producer JByte
  | ready => .ready
  | entering c => .putting 0 c.bytes false
  | writing f waiting =>
      .putting (f.call.count - f.length) (stretch f.call.data f.offset f.length) waiting
  | returned c => .posting c.count

theorem producer_wake (w : BlockWriter) : w.wake.producer = w.producer.awake := by
  cases w <;> rfl

theorem length_bytes (c : WriteCall) : c.bytes.length = c.count := length_stretch c.fits

/-- A queue of capacity `cap`, small enough for `int` arithmetic. -/
structure Sound (cap : Nat) (q : ByteQueue) : Prop extends q.Valid where
  capacity : q.mBuffer.length = cap
  small : 2 * (cap : Int) ≤ intMax

theorem Sound.of_capacity {cap : Nat} {q q' : ByteQueue} (h : Sound cap q) (hv : q'.Valid)
    (hcap : q'.mBuffer.length = q.mBuffer.length) : Sound cap q' :=
  ⟨hv, hcap.trans h.capacity, h.small⟩

theorem Sound.runWrite_ok {cap : Nat} {q : ByteQueue} (h : Sound cap q) {f : WriteFrame}
    (hfit : f.offset + f.length ≤ f.call.data.length) :
    ∃ q' n, n = min f.length (cap - q.mStoredBytes) ∧
      q.runWrite f = .ok (q', if f.length - n = 0 then .returned f.wasEmpty
        else .waits { f with offset := f.offset + n, length := f.length - n }) ∧
      Sound cap q' ∧ q'.contents = q.contents ++ stretch f.call.data f.offset n := by
  have hhead := h.head_lt
  have hstored := h.stored_le
  have hcap := h.capacity
  have hsmall := h.small
  obtain ⟨q', n, hn, hrun, hv, hcap', hcontents⟩ := ByteQueue.runWrite_ok h.toValid hfit
    (by omega) (.inr (.inr (by omega)))
  exact ⟨q', n, by rw [hn, hcap], hrun, h.of_capacity hv hcap', hcontents⟩

theorem Sound.stored_le_cap {cap : Nat} {q : ByteQueue} (h : Sound cap q) :
    q.mStoredBytes ≤ cap :=
  h.stored_le.trans_eq h.capacity

/-- The effect of a `put` of `rest`, `fresh` elements into a block, on the buffer and
on the producer. -/
structure Puts (cap : Nat) (q q' : ByteQueue) (w' : BlockWriter) (fresh : Nat)
    (rest : List JByte) : Prop where
  sound : Sound cap q'
  valid : Valid w'
  contents : q'.contents = q.contents ++ rest.take (cap - q.contents.length)
  producer : w'.producer = if rest.length ≤ cap - q.contents.length then
      .posting (fresh + rest.length)
    else .putting (fresh + (cap - q.contents.length))
      (rest.drop (cap - q.contents.length)) true

/-- A critical section of `write` puts what there is room for. -/
theorem runWrite_puts {cap : Nat} {q q' : ByteQueue} (hq : Sound cap q) {f : WriteFrame}
    {o : WriteOutcome} (hle : f.length ≤ f.call.count)
    (hfit : f.offset + f.length ≤ f.call.data.length) (hrun : q.runWrite f = .ok (q', o)) :
    Puts cap q q' (leave f.call o) (f.call.count - f.length)
      (stretch f.call.data f.offset f.length) := by
  obtain ⟨q₁, n, hn, hrun', hq₁, hcontents⟩ := hq.runWrite_ok hfit
  rw [hrun'] at hrun
  have hcontent := hq.length_contents
  have hseg : (stretch f.call.data f.offset f.length).length = f.length :=
    length_stretch hfit
  by_cases hdone : f.length - n = 0
  · rw [if_pos hdone] at hrun
    cases hrun
    have hroom : f.length ≤ cap - q.contents.length := by omega
    refine ⟨hq₁, valid_returned _, ?_, ?_⟩
    · rw [List.take_of_length_le (hseg.trans_le hroom), hcontents, show n = f.length by omega]
    · rw [hseg, if_pos hroom, leave, BlockWriter.producer, Nat.sub_add_cancel hle]
  · rw [if_neg hdone] at hrun
    cases hrun
    have hroom : cap - q.contents.length = n := by omega
    refine ⟨hq₁, ?_, ?_, ?_⟩
    · intro f' _ heq
      cases heq
      refine ⟨?_, ?_, ?_⟩
      · show 0 < f.length - n
        omega
      · show f.length - n ≤ f.call.count
        omega
      · show f.offset + n + (f.length - n) ≤ f.call.data.length
        omega
    · rw [hroom, hcontents, take_stretch _ (by omega)]
    · have hfresh : f.call.count - (f.length - n) = f.call.count - f.length + n := by omega
      rw [hseg, hroom, if_neg (by omega), drop_stretch, leave, BlockWriter.producer, hfresh]

theorem write_puts {cap : Nat} {q q' : ByteQueue} (hq : Sound cap q) {c : WriteCall}
    {o : WriteOutcome} (hwrite : q.write c = .ok (q', o)) :
    Puts cap q q' (leave c o) 0 c.bytes := by
  rw [write_ok] at hwrite
  by_cases hzero : c.count = 0
  · rw [if_pos hzero] at hwrite
    cases hwrite
    have hnil : c.bytes = [] := List.eq_nil_of_length_eq_zero ((length_bytes c).trans hzero)
    refine ⟨hq, valid_returned _, ?_, ?_⟩
    · rw [hnil, List.take_nil, List.append_nil]
    · rw [hnil, List.length_nil, if_pos (Nat.zero_le _), leave, BlockWriter.producer, hzero]
  · rw [if_neg hzero] at hwrite
    have hputs := runWrite_puts hq
      (f := ⟨c, c.offset, c.count, q.mStoredBytes = 0⟩) (Nat.le_refl _) c.fits hwrite
    rw [Nat.sub_self] at hputs
    exact hputs

/-- A thread blocked on a full queue is a producer that waits for room. -/
theorem BlockedOn.deadlocked {cap : Nat} {q : ByteQueue} (hq : Sound cap q) {w : BlockWriter}
    (hw : w.Valid) (h : w.BlockedOn q) :
    (∃ fresh rest waiting, w.producer = .putting fresh rest waiting ∧ rest ≠ []) ∧
      q.contents.length = cap := by
  obtain ⟨⟨f, waiting, rfl⟩, hfull⟩ := h
  have hf := hw f waiting rfl
  refine ⟨⟨_, _, waiting, rfl, ?_⟩, ?_⟩
  · intro hnil
    have hlen := length_stretch hf.fits
    have hpos := hf.length_pos
    rw [hnil, List.length_nil] at hlen
    omega
  · rw [hq.length_contents, hfull, hq.capacity]

/-- A call that fits into the empty queue returns. -/
theorem write_returns {cap : Nat} {q : ByteQueue} (hq : Sound cap q)
    (hempty : q.mStoredBytes = 0) {c : WriteCall} (hc : c.count ≤ cap) :
    ∃ q' notify, q.write c = .ok (q', .returned notify) := by
  rw [write_ok]
  by_cases hzero : c.count = 0
  · exact ⟨_, _, if_pos hzero⟩
  · obtain ⟨q', n, hn, hrun, _⟩ := hq.runWrite_ok
      (f := ⟨c, c.offset, c.count, q.mStoredBytes = 0⟩) c.fits
    rw [hempty] at hn
    simp only at hn hrun
    rw [if_pos (by omega)] at hrun
    rw [if_neg hzero]
    exact ⟨q', _, hrun⟩

/-- A call that does not fit fills the queue and waits. -/
theorem write_waits {cap : Nat} {q : ByteQueue} (hq : Sound cap q)
    (hempty : q.mStoredBytes = 0) {c : WriteCall} (hc : cap < c.count) :
    ∃ q' f, q.write c = .ok (q', .waits f) ∧ q'.mStoredBytes = q'.mBuffer.length := by
  obtain ⟨q', n, hn, hrun, hq', hcontents⟩ := hq.runWrite_ok
    (f := ⟨c, c.offset, c.count, q.mStoredBytes = 0⟩) c.fits
  have hfits := c.fits
  rw [hempty] at hn
  simp only at hn hrun hcontents
  rw [if_neg (by omega)] at hrun
  refine ⟨q', _, (write_ok c).trans ((if_neg (by omega)).trans hrun), ?_⟩
  · rw [← hq'.length_contents, hcontents, List.length_append, hq.length_contents, hempty,
      length_stretch (by omega), hq'.capacity]
    omega

/-! ## §2  The reading side -/

/-- Taking what was counted, from a queue that still holds it. -/
theorem read_counted {cap : Nat} {q : ByteQueue} (hq : Sound cap q) {buffer : List JByte}
    (hbuffer : buffer.length = cap) (hint : (cap : Int) ≤ intMax) {k : Nat}
    (hk : k ≤ q.mStoredBytes) (hpos : 0 < k) :
    ∃ q' buffer', q.read buffer 0 k = .ok (q', .returned buffer' k (cap = q.mStoredBytes)) ∧
      Sound cap q' ∧ buffer'.length = cap ∧ buffer'.take k = q.contents.take k ∧
      q'.contents = q.contents.drop k := by
  have hstored := hq.stored_le_cap
  have htake : (q.contents.take k).length = k := by
    rw [List.length_take, hq.length_contents, Nat.min_eq_left hk]
  have hlen : 0 + k ≤ buffer.length := by omega
  obtain ⟨q', hread, hq', hcap, hcontents⟩ :=
    read_ok hq.toValid hlen (by rwa [hbuffer]) hpos (by omega)
  rw [hq.capacity, Nat.min_eq_left hk] at hread
  refine ⟨q', _, hread, hq.of_capacity hq' hcap, ?_, ?_, hcontents⟩
  · exact (length_splice (by omega)).trans hbuffer
  · have hfront := take_splice_zero buffer (q.contents.take k)
    rwa [htake] at hfront

/-- A read from a full queue notifies the writer. -/
theorem producer_notify {cap : Nat} {q : ByteQueue} (hq : Sound cap q) (w : BlockWriter) :
    (if decide (cap = q.mStoredBytes) = true then w.wake else w).producer =
      if q.contents.length = cap then w.producer.awake else w.producer := by
  rw [hq.length_contents]
  by_cases hfull : q.mStoredBytes = cap
  · rw [if_pos hfull, if_pos (by rw [hfull]; exact decide_eq_true rfl), producer_wake]
  · rw [if_neg hfull, if_neg fun h => hfull (of_decide_eq_true h).symm]

theorem Valid.notify {w : BlockWriter} (h : Valid w) (notify : Bool) :
    Valid (if notify then w.wake else w) := by
  cases notify
  · exact h
  · exact h.wake

end BlockWriter

end Kbox.Util
