import Kbox.Util.BlockWriter
import Kbox.Framework.Monitor
import Kbox.Framework.Runs

/-!
# Threads that share a `ByteQueue`

Any number of threads call `read` and `write`, and only critical sections
exclude each other: a step is a call being made, one critical section up to its
end or its `wait()`, or a thread leaving the wait set.  `taken` and `returned`
are the bytes that crossed the queue's two ends so far; no thread looks at them.
-/

namespace Kbox.Util.QueueThreads

open Kbox.Framework Kbox.Util.ByteQueue
open Relation (ReflTransGen)

/-- A call `read(buffer, offset, length)` with arguments that name a part of `buffer`. -/
structure ReadCall where
  buffer : List JByte
  offset : Nat
  length : Nat
  fits : offset + length ≤ buffer.length
  isInt : (buffer.length : Int) ≤ intMax

inductive QueueThread where
  | outside
  /-- The call is made, and the monitor still to be entered. -/
  | entersWrite (call : WriteCall)
  /-- Inside `write`; `waiting` while in the wait set. -/
  | inWrite (frame : WriteFrame) (waiting : Bool)
  | entersRead (call : ReadCall)
  | inRead (call : ReadCall) (waiting : Bool)

namespace QueueThread

def Waits : QueueThread → Prop
  | inWrite _ waiting => waiting = true
  | inRead _ waiting => waiting = true
  | _ => False

def wake : QueueThread → QueueThread
  | inWrite f _ => inWrite f false
  | inRead c _ => inRead c false
  | t => t

/-- Where a critical section of `write` leaves the thread. -/
def leaveWrite : WriteOutcome → QueueThread
  | .returned _ => outside
  | .waits f => inWrite f true

/-- With the monitor, the thread runs `write` from the frame `f` on, with outcome `r`. -/
inductive Writes (q : ByteQueue) :
    QueueThread → WriteFrame → Except Exn (ByteQueue × WriteOutcome) → Prop
  | enter (c : WriteCall) :
      Writes q (entersWrite c) ⟨c, c.offset, c.count, q.mStoredBytes = 0⟩ (q.write c)
  | resume (f : WriteFrame) : Writes q (inWrite f false) f (q.runWrite f)

/-- With the monitor, the thread runs `read` for the call `c`.  The checks are made once,
but on arguments that do not change. -/
inductive Reads : QueueThread → ReadCall → Prop
  | enter (c : ReadCall) : Reads (entersRead c) c
  | resume (c : ReadCall) : Reads (inRead c false) c

def Valid : QueueThread → Prop
  | inWrite f _ => BlockWriter.FrameValid f
  | _ => True

theorem Valid.wake {t : QueueThread} (h : Valid t) : Valid t.wake := by
  cases t with
  | inWrite f waiting => exact h
  | inRead c waiting => trivial
  | outside => trivial
  | entersWrite c => trivial
  | entersRead c => trivial

theorem not_waits_wake (t : QueueThread) : ¬ t.wake.Waits := by
  cases t <;> simp [QueueThread.wake, Waits]

end QueueThread

/-- The bytes of a frame that its critical section leaves for later. -/
def unwritten : WriteOutcome → Nat
  | .returned _ => 0
  | .waits f => f.length

structure State (ι : Type) where
  queue : ByteQueue
  thread : ι → QueueThread
  taken : List JByte
  returned : List JByte

def initial (ι : Type) (size : Nat) : State ι := ⟨ByteQueue.create size, fun _ => .outside, [], []⟩

variable {ι : Type} [DecidableEq ι]

open QueueThread

/-- A step of thread `i`, where `mayWrite` and `mayRead` say who makes which calls. -/
inductive Step (mayWrite mayRead : ι → Prop) (i : ι) (s : State ι) : State ι → Prop
  | callWrite {c : WriteCall} : mayWrite i → s.thread i = .outside →
      Step mayWrite mayRead i s { s with thread := Function.update s.thread i (.entersWrite c) }
  | callRead {c : ReadCall} : mayRead i → s.thread i = .outside →
      Step mayWrite mayRead i s { s with thread := Function.update s.thread i (.entersRead c) }
  | write {f : WriteFrame} {r : Except Exn (ByteQueue × WriteOutcome)} {q : ByteQueue}
      {o : WriteOutcome} {t : ι → QueueThread} :
      Writes s.queue (s.thread i) f r → r = .ok (q, o) →
      Notify Waits wake (Function.update s.thread i (leaveWrite o)) o.notifies t →
      Step mayWrite mayRead i s
        { s with
          queue := q
          thread := t
          taken := s.taken ++ stretch f.call.data f.offset (f.length - unwritten o) }
  /-- A throw comes before anything is copied. -/
  | writeThrows {f : WriteFrame} {r : Except Exn (ByteQueue × WriteOutcome)} {e : Exn} :
      Writes s.queue (s.thread i) f r → r = .error e →
      Step mayWrite mayRead i s { s with thread := Function.update s.thread i .outside }
  | read {c : ReadCall} {q : ByteQueue} {buffer : List JByte} {totalRead : Nat}
      {notify : Bool} {t : ι → QueueThread} :
      Reads (s.thread i) c →
      s.queue.read c.buffer c.offset c.length = .ok (q, .returned buffer totalRead notify) →
      Notify Waits wake (Function.update s.thread i .outside) notify t →
      Step mayWrite mayRead i s
        { s with
          queue := q
          thread := t
          returned := s.returned ++ stretch buffer c.offset totalRead }
  | readWaits {c : ReadCall} {q : ByteQueue} :
      Reads (s.thread i) c →
      s.queue.read c.buffer c.offset c.length = .ok (q, .waits) →
      Step mayWrite mayRead i s
        { s with queue := q, thread := Function.update s.thread i (.inRead c true) }
  | readThrows {c : ReadCall} {e : Exn} :
      Reads (s.thread i) c → s.queue.read c.buffer c.offset c.length = .error e →
      Step mayWrite mayRead i s { s with thread := Function.update s.thread i .outside }
  /-- `wait()` may return without a notification. -/
  | spurious : (s.thread i).Waits →
      Step mayWrite mayRead i s
        { s with thread := Function.update s.thread i (s.thread i).wake }
  /-- `wait()` throws `InterruptedException`. -/
  | interrupted : (s.thread i).Waits →
      Step mayWrite mayRead i s { s with thread := Function.update s.thread i .outside }

/-! ## §1  Critical sections -/

/-- What a critical section of `write` does that does not throw. -/
structure WriteSection (q : ByteQueue) (f : WriteFrame) (q' : ByteQueue) (o : WriteOutcome) :
    Prop where
  valid : q'.Valid
  capacity : q'.mBuffer.length = q.mBuffer.length
  frame : (leaveWrite o).Valid
  contents : q'.contents =
    q.contents ++ stretch f.call.data f.offset (f.length - unwritten o)
  /-- It returns, and notifies as the frame says, exactly when the rest fits. -/
  outcome : 0 < f.length →
    (o = .returned f.wasEmpty ∧ f.length ≤ q.mBuffer.length - q.mStoredBytes) ∨
    ((∃ f', o = .waits f') ∧ q.mBuffer.length - q.mStoredBytes < f.length ∧
      q'.mStoredBytes = q'.mBuffer.length)
  nothing : f.length = 0 → q' = q ∧ o = .returned false

theorem runWrite_section {q q' : ByteQueue} {f : WriteFrame} {o : WriteOutcome}
    (hq : q.Valid) (hint : (q.mBuffer.length : Int) ≤ intMax) (hf : BlockWriter.FrameValid f)
    (hrun : q.runWrite f = .ok (q', o)) : WriteSection q f q' o := by
  have hstored := hq.stored_le
  have hpos := hf.length_pos
  have hfits := hf.fits
  by_cases htail : q.TailFits f.length
  · obtain ⟨q₁, n, hn, hrun', hq₁, hcap, hcontents⟩ := runWrite_ok hq hfits hint htail
    rw [hrun'] at hrun
    by_cases hdone : f.length - n = 0
    · rw [if_pos hdone] at hrun
      cases hrun
      refine ⟨hq₁, hcap, trivial, ?_, ?_, fun hzero => ?_⟩
      · rw [hcontents, unwritten, show n = f.length - 0 by omega]
      · exact fun _ => .inl ⟨rfl, by omega⟩
      · omega
    · rw [if_neg hdone] at hrun
      cases hrun
      refine ⟨hq₁, hcap, ⟨?_, ?_, ?_⟩, ?_, ?_, fun hzero => ?_⟩
      · show 0 < f.length - n
        omega
      · show f.length - n ≤ f.call.count
        exact (Nat.sub_le _ _).trans hf.length_le
      · show f.offset + n + (f.length - n) ≤ f.call.data.length
        omega
      · show _ = q.contents ++ stretch f.call.data f.offset (f.length - (f.length - n))
        rw [hcontents, Nat.sub_sub_self (by omega)]
      · refine fun _ => .inr ⟨⟨_, rfl⟩, by omega, ?_⟩
        rw [← hq₁.length_contents, hcontents, List.length_append, hq.length_contents,
          length_stretch (by omega), hcap]
        omega
      · omega
  · unfold runWrite at hrun
    rw [writeLoop_error hq hint htail] at hrun
    cases hrun

theorem QueueThread.Writes.spec {q q' : ByteQueue} {t : QueueThread} {f : WriteFrame}
    {r : Except Exn (ByteQueue × WriteOutcome)} {o : WriteOutcome} (h : Writes q t f r)
    (hq : q.Valid) (hint : (q.mBuffer.length : Int) ≤ intMax) (ht : t.Valid)
    (hr : r = .ok (q', o)) : WriteSection q f q' o := by
  cases h with
  | resume => exact runWrite_section hq hint ht hr
  | enter c =>
      rw [write_ok] at hr
      by_cases hzero : c.count = 0
      · rw [if_pos hzero] at hr
        cases hr
        refine ⟨hq, rfl, trivial, ?_, fun hpos => ?_, fun _ => ⟨rfl, rfl⟩⟩
        · show q.contents = q.contents ++ stretch c.data c.offset (c.count - 0)
          rw [hzero]
          exact (List.append_nil _).symm
        · exact absurd hzero (Nat.ne_of_gt hpos)
      · rw [if_neg hzero] at hr
        exact runWrite_section hq hint ⟨Nat.pos_of_ne_zero hzero, Nat.le_refl _, c.fits⟩ hr

theorem QueueThread.Writes.unique {q : ByteQueue} {t : QueueThread} {f f' : WriteFrame}
    {r r' : Except Exn (ByteQueue × WriteOutcome)} (h : Writes q t f r)
    (h' : Writes q t f' r') : f' = f ∧ r' = r := by
  cases h with
  | enter c =>
      cases h'
      exact ⟨rfl, rfl⟩
  | resume f =>
      cases h'
      exact ⟨rfl, rfl⟩

theorem QueueThread.Writes.not_waits {q : ByteQueue} {t : QueueThread} {f : WriteFrame}
    {r : Except Exn (ByteQueue × WriteOutcome)} (h : Writes q t f r) : ¬ t.Waits := by
  cases h with
  | enter c => exact id
  | resume f => exact Bool.false_ne_true

theorem QueueThread.Writes.fits {q : ByteQueue} {t : QueueThread} {f : WriteFrame}
    {r : Except Exn (ByteQueue × WriteOutcome)} (h : Writes q t f r) (ht : t.Valid) :
    f.offset + f.length ≤ f.call.data.length := by
  cases h with
  | enter c => exact c.fits
  | resume f => exact BlockWriter.FrameValid.fits ht

theorem runWrite_ok_of_empty {q : ByteQueue} (hq : q.Valid)
    (hint : (q.mBuffer.length : Int) ≤ intMax) (hempty : q.mStoredBytes = 0) {f : WriteFrame}
    (hf : BlockWriter.FrameValid f) : ∃ q' o, q.runWrite f = .ok (q', o) := by
  have hhead := hq.head_lt
  obtain ⟨q', n, _, hrun, _⟩ := runWrite_ok hq hf.fits hint (.inr (.inr (by omega)))
  exact ⟨q', _, hrun⟩

/-- The `int` overflow needs stored bytes. -/
theorem QueueThread.Writes.ok_of_empty {q : ByteQueue} {t : QueueThread} {f : WriteFrame}
    {r : Except Exn (ByteQueue × WriteOutcome)} (h : Writes q t f r) (hq : q.Valid)
    (hint : (q.mBuffer.length : Int) ≤ intMax) (ht : t.Valid) (hempty : q.mStoredBytes = 0) :
    ∃ q' o, r = .ok (q', o) := by
  cases h with
  | resume f => exact runWrite_ok_of_empty hq hint hempty ht
  | enter c =>
      rw [write_ok]
      by_cases hzero : c.count = 0
      · exact ⟨_, _, if_pos hzero⟩
      · rw [if_neg hzero]
        exact runWrite_ok_of_empty hq hint hempty
          ⟨Nat.pos_of_ne_zero hzero, Nat.le_refl _, c.fits⟩

/-- What a critical section of `read` does. -/
theorem read_section {q : ByteQueue} (hq : q.Valid) (c : ReadCall) :
    (0 < c.length ∧ q.mStoredBytes = 0 ∧
      q.read c.buffer c.offset c.length = .ok (q, .waits)) ∨
    (∃ q' buffer n notify,
      q.read c.buffer c.offset c.length = .ok (q', .returned buffer n notify) ∧
      q'.Valid ∧ q'.mBuffer.length = q.mBuffer.length ∧
      q.contents = stretch buffer c.offset n ++ q'.contents ∧
      (q.mStoredBytes = q.mBuffer.length → q'.mStoredBytes ≠ q'.mBuffer.length →
        notify = true)) := by
  rcases Nat.eq_zero_or_pos c.length with hzero | hpos
  · refine .inr ⟨q, c.buffer, 0, false, ?_, hq, rfl, rfl,
      fun hfull hroom => absurd hfull hroom⟩
    have hfits := c.fits
    rw [hzero]
    exact read_zero q (by omega) c.isInt
  · rcases Nat.eq_zero_or_pos q.mStoredBytes with hempty | hstored
    · exact .inl ⟨hpos, hempty, read_empty c.fits c.isInt hpos hempty⟩
    · obtain ⟨q', hread, hq', hcap, hcontents⟩ := read_ok hq c.fits c.isInt hpos hstored
      refine .inr ⟨q', _, _, _, hread, hq', hcap, ?_, ?_⟩
      · have hlen : (q.contents.take c.length).length = min c.length q.mStoredBytes := by
          rw [List.length_take, hq.length_contents]
        rw [← hlen, stretch_splice, hcontents, List.take_append_drop]
        rw [hlen]
        have := c.fits
        omega
      · intro hfull _
        exact decide_eq_true hfull.symm

/-! ## §2  First in, first out -/

structure Inv (size : Nat) (s : State ι) : Prop where
  queue : s.queue.Valid
  capacity : s.queue.mBuffer.length = size
  threads : ∀ i, (s.thread i).Valid
  fifo : s.returned ++ s.queue.contents = s.taken

omit [DecidableEq ι] in
theorem inv_initial {size : Nat} (hsize : 0 < size) : Inv size (initial ι size) where
  queue := valid_create hsize
  capacity := List.length_replicate
  threads := fun _ => trivial
  fifo := contents_create size

theorem valid_update {t : ι → QueueThread} (h : ∀ i, (t i).Valid) (i : ι) {x : QueueThread}
    (hx : x.Valid) (j : ι) : (Function.update t i x j).Valid := by
  by_cases hij : j = i
  · subst hij
    rwa [Function.update_self]
  · rw [Function.update_of_ne hij]
    exact h j

theorem inv_step {size : Nat} (hint : (size : Int) ≤ intMax) {mayWrite mayRead : ι → Prop}
    {i : ι} {s s' : State ι} (h : Inv size s) (hstep : Step mayWrite mayRead i s s') :
    Inv size s' := by
  have hcap : (s.queue.mBuffer.length : Int) ≤ intMax := by
    rw [h.capacity]
    exact hint
  cases hstep with
  | callWrite _ _ => exact { h with threads := valid_update h.threads i trivial }
  | callRead _ _ => exact { h with threads := valid_update h.threads i trivial }
  | write hwrites hr hnotify =>
      have hsec := hwrites.spec h.queue hcap (h.threads i) hr
      refine ⟨hsec.valid, hsec.capacity.trans h.capacity, ?_, ?_⟩
      · exact hnotify.forall (fun _ => QueueThread.Valid.wake)
          (valid_update h.threads i hsec.frame)
      · show s.returned ++ _ = s.taken ++ _
        rw [hsec.contents, ← List.append_assoc, h.fifo]
  | writeThrows _ _ => exact { h with threads := valid_update h.threads i trivial }
  | @read c q buffer n notify t _ hread hnotify =>
      rcases read_section h.queue c with ⟨_, _, hwaits⟩ | ⟨q', _, _, _, hread', hq', hcap', hsplit, _⟩
      · rw [hwaits] at hread
        cases hread
      · rw [hread'] at hread
        cases hread
        refine ⟨hq', hcap'.trans h.capacity, ?_, ?_⟩
        · exact hnotify.forall (fun _ => QueueThread.Valid.wake)
            (valid_update h.threads i trivial)
        · show (s.returned ++ _) ++ _ = s.taken
          rw [List.append_assoc, ← hsplit, h.fifo]
  | @readWaits c q _ hread =>
      rcases read_section h.queue c with ⟨_, _, hwaits⟩ | ⟨_, _, _, _, hread', _⟩
      · rw [hwaits] at hread
        cases hread
        exact { h with threads := valid_update h.threads i trivial }
      · rw [hread'] at hread
        cases hread
  | readThrows _ _ => exact { h with threads := valid_update h.threads i trivial }
  | spurious _ => exact { h with threads := valid_update h.threads i (h.threads i).wake }
  | interrupted _ => exact { h with threads := valid_update h.threads i trivial }

/-- Every interleaving of the threads' steps. -/
def Runs (mayWrite mayRead : ι → Prop) : State ι → State ι → Prop :=
  ReflTransGen fun s s' => ∃ i, Step mayWrite mayRead i s s'

theorem inv_run {size : Nat} (hsize : 0 < size) (hint : (size : Int) ≤ intMax)
    {mayWrite mayRead : ι → Prop} {s : State ι}
    (h : Runs mayWrite mayRead (initial ι size) s) : Inv size s :=
  invariant_of_step (inv_initial hsize)
    (fun _ _ hinv ⟨_, hstep⟩ => inv_step hint hinv hstep) h

/-- What the reads returned is a prefix of what was taken from the writes, and the ring
holds the rest. -/
theorem queue_fifo {size : Nat} (hsize : 0 < size) (hint : (size : Int) ≤ intMax)
    {mayWrite mayRead : ι → Prop} {s : State ι}
    (h : Runs mayWrite mayRead (initial ι size) s) :
    s.returned <+: s.taken ∧ s.queue.contents = s.taken.drop s.returned.length ∧
      s.queue.mBuffer.length = size ∧ s.queue.mStoredBytes ≤ size ∧ s.queue.mHead < size := by
  have hinv := inv_run hsize hint h
  refine ⟨⟨_, hinv.fifo⟩, ?_, hinv.capacity, ?_, ?_⟩
  · rw [← hinv.fifo, List.drop_left]
  · exact hinv.queue.stored_le.trans_eq hinv.capacity
  · exact hinv.queue.head_lt.trans_eq hinv.capacity

/-- The letters `A` and `B`, and room for one byte. -/
def twoLetters : WriteCall := ⟨[65, 66], 0, 2, Nat.le_refl _, by decide⟩

def oneByte : ReadCall := ⟨[0], 0, 1, Nat.le_refl _, by decide⟩

/-- One thread writes `A` and `B`, and another reads the `A`. -/
theorem queue_fifo_two_letters : ∃ s : State Bool, s.taken = [65, 66] ∧ s.returned = [65] ∧
    s.queue.contents = [66] ∧ s.returned <+: s.taken ∧
    s.queue.contents = s.taken.drop s.returned.length ∧
    s.queue.mBuffer.length = 2 ∧ s.queue.mStoredBytes ≤ 2 ∧ s.queue.mHead < 2 := by
  have hsound : BlockWriter.Sound 2 (ByteQueue.create 2) :=
    ⟨valid_create (by decide), rfl, by decide⟩
  obtain ⟨q₁, notify, hwrite⟩ := BlockWriter.write_returns hsound rfl (c := twoLetters)
    (by decide)
  have hputs := BlockWriter.write_puts hsound hwrite
  have hcontents₁ : q₁.contents = [65, 66] := hputs.contents
  have hstored₁ : 1 ≤ q₁.mStoredBytes := by
    rw [← hputs.sound.length_contents, hcontents₁]
    decide
  obtain ⟨q₂, hread, -, -, hcontents₂⟩ := read_ok hputs.sound.toValid oneByte.fits
    oneByte.isInt Nat.one_pos (Nat.lt_of_lt_of_le Nat.one_pos hstored₁)
  rw [Nat.min_eq_left (show oneByte.length ≤ q₁.mStoredBytes from hstored₁), hcontents₁] at hread
  let s₁ : State Bool := { initial Bool 2 with
    thread := Function.update (initial Bool 2).thread false (.entersWrite twoLetters) }
  let s₂ : State Bool :=
    ⟨q₁, Function.update s₁.thread false .outside, [] ++ [65, 66], []⟩
  let s₃ : State Bool := { s₂ with
    thread := Function.update s₂.thread true (.entersRead oneByte) }
  have hnobody (t : Bool → QueueThread) (hfalse : ¬ (t false).Waits) (htrue : ¬ (t true).Waits)
      (i : Bool) : ¬ (t i).Waits := by
    cases i <;> assumption
  have hcallWrite : Step (· = false) (· = true) false (initial Bool 2) s₁ :=
    .callWrite rfl rfl
  have hwrites : Writes s₁.queue (s₁.thread false) ⟨twoLetters, 0, 2, true⟩
      (s₁.queue.write twoLetters) := .enter twoLetters
  have hput : Step (· = false) (· = true) false s₁ s₂ :=
    .write hwrites hwrite (.of_nobody (hnobody s₂.thread id id) _)
  have hcallRead : Step (· = false) (· = true) true s₂ s₃ := .callRead rfl rfl
  have htake : Step (· = false) (· = true) true s₃ _ :=
    .read (.enter oneByte) hread
      (.of_nobody (hnobody (Function.update s₃.thread true .outside) id id) _)
  have hrun : Runs (· = false) (· = true) (initial Bool 2) _ :=
    (((ReflTransGen.single ⟨_, hcallWrite⟩).tail ⟨_, hput⟩).tail ⟨_, hcallRead⟩).tail ⟨_, htake⟩
  refine ⟨_, rfl, rfl, ?_, queue_fifo (by decide) (by decide) hrun⟩
  rw [hcontents₂, hcontents₁]
  rfl

end Kbox.Util.QueueThreads
