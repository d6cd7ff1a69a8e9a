import Kbox.Util.BlockWriter

/-!
# `jackpal.androidterm.emulatorview.TermSession`: the write path

The main thread calls `write`, which puts the bytes into `mWriteQueue` and then
sends `NEW_OUTPUT` to the writer thread, unless that has not created its handler
yet.  The writer thread drains the queue once when it starts and once for every
message.  A step is one critical section of the queue, one message operation or
one call on the output stream.

The session is an instance of `Handoff`: the calls are the blocks, the main thread
is the producer and the writer thread is the consumer.  The handoff is safe for
blocks that fit into the queue; a longer one fills it before its message is sent,
and nobody is left to empty it.
-/

namespace Kbox.Emulatorview

open Kbox.Framework Kbox.Util Kbox.Util.ByteQueue
open Relation (ReflTransGen)

inductive WriterThread where
  | starting
  /-- About to call `writeToOutput`. -/
  | draining
  | available (bytesToWrite : Nat)
  /-- In `wait()` inside `writeQueue.read`. -/
  | blocked (bytesToWrite : Nat)
  | writing (bytesToWrite : Nat)
  /-- In `Looper.loop()`, with no message at hand. -/
  | looping

structure TermSession where
  /-- The calls of `write` to come, and the bytes of those begun. -/
  calls : List WriteCall
  written : List JByte
  mWriteQueue : ByteQueue
  /-- The main thread; `returned` is in `write`, about to call `notifyNewOutput`. -/
  main : BlockWriter
  /-- Whether `mWriterHandler` is set. -/
  mWriterHandler : Bool
  /-- How many `NEW_OUTPUT` messages are pending. -/
  messages : Nat
  writer : WriterThread
  mBuffer : List JByte
  /-- The bytes handed to `mTermOut`. -/
  output : List JByte

namespace TermSession

/-- The session as `initializeEmulator` starts its threads. -/
def initial (calls : List WriteCall) : TermSession where
  calls := calls
  written := []
  mWriteQueue := create 4096
  main := .ready
  mWriterHandler := false
  messages := 0
  writer := .starting
  mBuffer := List.replicate 4096 0
  output := []

def WriterThread.wake : WriterThread → WriterThread
  | .blocked k => .available k
  | w => w

/-- The main thread leaves a critical section of `mWriteQueue.write`. -/
def leaveWrite (s : TermSession) (q : ByteQueue) (c : WriteCall) (o : WriteOutcome) :
    TermSession :=
  { s with
    mWriteQueue := q
    main := .leave c o
    writer := if o.notifies then WriterThread.wake s.writer else s.writer }

inductive Step (s : TermSession) : TermSession → Prop where
  | callWrite {c : WriteCall} {calls : List WriteCall} :
      s.main = .ready → s.calls = c :: calls →
      Step s { s with
        calls := calls, written := s.written ++ c.bytes, main := .entering c }
  | enterWrite {c : WriteCall} {q : ByteQueue} {o : WriteOutcome} :
      s.main = .entering c → s.mWriteQueue.write c = .ok (q, o) →
      Step s (s.leaveWrite q c o)
  | resumeWrite {f : WriteFrame} {q : ByteQueue} {o : WriteOutcome} :
      s.main = .writing f false → s.mWriteQueue.runWrite f = .ok (q, o) →
      Step s (s.leaveWrite q f.call o)
  /-- A `wait()` may also return without a notification. -/
  | wakeup : Step s { s with main := s.main.wake, writer := WriterThread.wake s.writer }
  | notifyNewOutput {c : WriteCall} :
      s.main = .returned c →
      Step s { s with
        main := .ready
        messages := if s.mWriterHandler then s.messages + 1 else s.messages }
  | startLooper :
      s.writer = .starting →
      Step s { s with mWriterHandler := true, writer := .draining }
  | handleMessage {n : Nat} :
      s.writer = .looping → s.messages = n + 1 →
      Step s { s with messages := n, writer := .draining }
  | nothingAvailable :
      s.writer = .draining →
      min s.mWriteQueue.getBytesAvailable s.mBuffer.length = 0 →
      Step s { s with writer := .looping }
  | bytesAvailable :
      s.writer = .draining →
      min s.mWriteQueue.getBytesAvailable s.mBuffer.length ≠ 0 →
      Step s { s with
        writer := .available (min s.mWriteQueue.getBytesAvailable s.mBuffer.length) }
  | readQueue {k n : Nat} {q : ByteQueue} {buffer : List JByte} {notify : Bool} :
      s.writer = .available k →
      s.mWriteQueue.read s.mBuffer 0 k = .ok (q, .returned buffer n notify) →
      Step s { s with
        mWriteQueue := q
        mBuffer := buffer
        writer := .writing k
        main := if notify then s.main.wake else s.main }
  | readWaits {k : Nat} {q : ByteQueue} :
      s.writer = .available k → s.mWriteQueue.read s.mBuffer 0 k = .ok (q, .waits) →
      Step s { s with mWriteQueue := q, writer := .blocked k }
  | writeOutput {k : Nat} :
      s.writer = .writing k →
      Step s { s with output := s.output ++ s.mBuffer.take k, writer := .looping }

/-- The main thread is inside `ByteQueue.write` on a full queue, and the writer thread
waits for a message that is not there. -/
def Deadlocked (s : TermSession) : Prop :=
  s.main.BlockedOn s.mWriteQueue ∧ s.writer = .looping ∧ s.messages = 0

/-! ## §1  The session as a handoff -/

def consumer (mBuffer : List JByte) : WriterThread → Handoff.Consumer JByte
  | .starting => .starting
  | .draining => .woken
  | .available k => .sampled k
  | .blocked k => .sampled k
  | .writing k => .carrying (mBuffer.take k)
  | .looping => .idle

def toHandoff (s : TermSession) : Handoff.State JByte where
  script := s.calls.map WriteCall.bytes
  begun := s.written
  producer := s.main.producer
  content := s.mWriteQueue.contents
  pending := s.messages
  consumer := consumer s.mBuffer s.writer
  delivered := s.output

structure Valid (s : TermSession) : Prop where
  queue : BlockWriter.Sound 4096 s.mWriteQueue
  buffer : s.mBuffer.length = 4096
  main : s.main.Valid
  /-- The writer never has to wait for bytes. -/
  available : ∀ k, s.writer = .available k → 0 < k
  not_blocked : ∀ k, s.writer ≠ .blocked k
  handler : s.mWriterHandler = false → s.writer = .starting

theorem Valid.wake_writer {s : TermSession} (hv : Valid s) :
    WriterThread.wake s.writer = s.writer := by
  cases hw : s.writer with
  | blocked k => exact absurd hw (hv.not_blocked k)
  | starting | draining | available | writing | looping => rfl

theorem Valid.leaveWrite {s : TermSession} (hv : Valid s) {q : ByteQueue} {c : WriteCall}
    {o : WriteOutcome} {fresh : Nat} {rest : List JByte}
    (h : BlockWriter.Puts 4096 s.mWriteQueue q (.leave c o) fresh rest) :
    Valid (s.leaveWrite q c o) ∧
      toHandoff (s.leaveWrite q c o) = (toHandoff s).put 4096 fresh rest := by
  have hwriter : (if o.notifies then WriterThread.wake s.writer else s.writer) = s.writer := by
    rw [hv.wake_writer, ite_self]
  unfold TermSession.leaveWrite
  simp only [hwriter]
  refine ⟨{ hv with queue := h.sound, main := h.valid }, ?_⟩
  unfold toHandoff Handoff.State.put
  simp only [h.contents, h.producer]

/-- The bytes the writer thread has counted are still there. -/
theorem claimed {s : TermSession} (hv : Valid s) (hi : Handoff.Inv 4096 (toHandoff s))
    {k : Nat} (hwriter : s.writer = .available k) :
    k ≤ s.mWriteQueue.mStoredBytes ∧ 0 < k := by
  have hclaimed := hi.claimed_le
  simp only [toHandoff, hwriter, consumer, Handoff.Consumer.claimed,
    hv.queue.length_contents] at hclaimed
  exact ⟨hclaimed, hv.available k hwriter⟩

/-- A writer thread that has left `starting` keeps the handler set. -/
theorem Valid.handler_of_ne {s : TermSession} (hv : Valid s) {w : WriterThread}
    (hw : s.writer = w) (hne : w ≠ .starting) : s.mWriterHandler = false → False :=
  fun h => hne (hw.symm.trans (hv.handler h))

/-- Each step of the session is a step of the handoff. -/
theorem step_toHandoff {s s' : TermSession} (hv : Valid s)
    (hi : Handoff.Inv 4096 (toHandoff s)) (h : Step s s') :
    Valid s' ∧ Handoff.Step 4096 (toHandoff s) (toHandoff s') := by
  cases h with
  | @callWrite c calls hmain hcalls =>
      refine ⟨{ hv with main := BlockWriter.valid_entering c }, ?_⟩
      exact .begin (by simp only [toHandoff, hmain, BlockWriter.producer])
        (by simp only [toHandoff, hcalls, List.map_cons])
  | @enterWrite c q o hmain hwrite =>
      obtain ⟨hv', hput⟩ := hv.leaveWrite (BlockWriter.write_puts hv.queue hwrite)
      rw [hput]
      exact ⟨hv', .put (by simp only [toHandoff, hmain, BlockWriter.producer])⟩
  | @resumeWrite f q o hmain hrun =>
      have hf := hv.main f _ hmain
      obtain ⟨hv', hput⟩ := hv.leaveWrite
        (BlockWriter.runWrite_puts hv.queue hf.length_le hf.fits hrun)
      rw [hput]
      exact ⟨hv', .put (by simp only [toHandoff, hmain, BlockWriter.producer])⟩
  | wakeup =>
      rw [hv.wake_writer]
      refine ⟨{ hv with main := hv.main.wake }, ?_⟩
      have hspurious : Handoff.Step 4096 (toHandoff s) _ := .spurious
      simpa only [toHandoff, ← BlockWriter.producer_wake] using hspurious
  | @notifyNewOutput c hmain =>
      refine ⟨{ hv with main := BlockWriter.valid_ready }, ?_⟩
      have hposting : (toHandoff s).producer = .posting c.count := by
        simp only [toHandoff, hmain, BlockWriter.producer]
      cases hhandler : s.mWriterHandler with
      | true => exact .post hposting
      | false =>
          refine .postUnheard hposting ?_
          simp only [toHandoff, hv.handler hhandler, consumer]
  | startLooper hwriter =>
      refine ⟨{ hv with
        available := fun _ heq => by cases heq
        not_blocked := fun _ heq => by cases heq
        handler := fun heq => by cases heq }, ?_⟩
      exact .start (by simp only [toHandoff, hwriter, consumer])
  | @handleMessage n hwriter hmessages =>
      refine ⟨{ hv with
        available := fun _ heq => by cases heq
        not_blocked := fun _ heq => by cases heq
        handler := fun heq => (hv.handler_of_ne hwriter (by simp) heq).elim }, ?_⟩
      exact .receive (by simp only [toHandoff, hwriter, consumer]) hmessages
  | nothingAvailable hwriter hnone =>
      have hcontent := hv.queue.length_contents
      rw [hv.buffer, getBytesAvailable] at hnone
      refine ⟨{ hv with
        available := fun _ heq => by cases heq
        not_blocked := fun _ heq => by cases heq
        handler := fun heq => (hv.handler_of_ne hwriter (by simp) heq).elim }, ?_⟩
      exact .sampleNothing (by simp only [toHandoff, hwriter, consumer])
        (List.eq_nil_of_length_eq_zero (hcontent.trans (by omega)))
  | bytesAvailable hwriter hsome =>
      have hcontent := hv.queue.length_contents
      have hstored := hv.queue.stored_le_cap
      rw [hv.buffer, getBytesAvailable] at hsome ⊢
      refine ⟨{ hv with
        available := fun _ heq => by cases heq; omega
        not_blocked := fun _ heq => by cases heq
        handler := fun heq => (hv.handler_of_ne hwriter (by simp) heq).elim }, ?_⟩
      rw [Nat.min_eq_left hstored, ← hcontent]
      exact .sample (by simp only [toHandoff, hwriter, consumer])
  | @readQueue k n q buffer notify hwriter hread =>
      obtain ⟨hk, hpos⟩ := claimed hv hi hwriter
      obtain ⟨q', buffer', hread', hq, hbuffer, hbytes, hcontents⟩ :=
        BlockWriter.read_counted hv.queue hv.buffer (by decide) hk hpos
      rw [hread'] at hread
      cases hread
      refine ⟨{ hv with
        queue := hq
        buffer := hbuffer
        main := hv.main.notify _
        available := fun _ heq => by cases heq
        not_blocked := fun _ heq => by cases heq
        handler := fun heq => (hv.handler_of_ne hwriter (by simp) heq).elim }, ?_⟩
      have htake : Handoff.Step 4096 (toHandoff s) _ :=
        .take (k := k) (by simp only [toHandoff, hwriter, consumer])
      refine (congrArg (Handoff.Step 4096 (toHandoff s)) ?_).mpr htake
      unfold toHandoff
      simp only [BlockWriter.producer_notify hv.queue, hcontents, consumer, hbytes]
  | @readWaits k q hwriter hread =>
      obtain ⟨hk, hpos⟩ := claimed hv hi hwriter
      obtain ⟨q', buffer', hread', _⟩ :=
        BlockWriter.read_counted hv.queue hv.buffer (by decide) hk hpos
      rw [hread'] at hread
      cases hread
  | @writeOutput k hwriter =>
      refine ⟨{ hv with
        available := fun _ heq => by cases heq
        not_blocked := fun _ heq => by cases heq
        handler := fun heq => (hv.handler_of_ne hwriter (by simp) heq).elim }, ?_⟩
      exact .deliver (by simp only [toHandoff, hwriter, consumer])

/-! ## §2  Runs -/

theorem valid_initial (calls : List WriteCall) : Valid (initial calls) where
  queue := ⟨valid_create (by omega), List.length_replicate, by decide⟩
  buffer := List.length_replicate
  main := BlockWriter.valid_ready
  available := fun _ heq => by cases heq
  not_blocked := fun _ heq => by cases heq
  handler := fun _ => rfl

theorem toHandoff_initial (calls : List WriteCall) :
    toHandoff (initial calls) =
      Handoff.initial (calls.map WriteCall.bytes) .starting := by
  simp only [toHandoff, initial, contents_create, BlockWriter.producer, consumer,
    Handoff.initial]

theorem reachable_toHandoff {calls : List WriteCall} {s : TermSession}
    (h : ReflTransGen Step (initial calls) s) :
    Valid s ∧ Handoff.Inv 4096 (toHandoff s) ∧
      ReflTransGen (Handoff.Step 4096)
        (Handoff.initial (calls.map WriteCall.bytes) .starting) (toHandoff s) := by
  rw [← toHandoff_initial]
  refine simulation (fun _ _ => Handoff.inv_step)
    (fun _ _ => step_toHandoff) (valid_initial calls) ?_ h
  rw [toHandoff_initial]
  exact Handoff.inv_initial _ rfl rfl

theorem output_isPrefix {calls : List WriteCall} {s : TermSession}
    (h : ReflTransGen Step (initial calls) s) : s.output <+: s.written :=
  (reachable_toHandoff h).2.1.delivered_isPrefix

theorem sized_initial {calls : List WriteCall} (hcalls : ∀ c ∈ calls, c.count ≤ 4096)
    (consumer : Handoff.Consumer JByte) :
    Handoff.Sized 4096 (Handoff.initial (calls.map WriteCall.bytes) consumer) := by
  refine ⟨?_, Nat.zero_le _⟩
  intro block hmem
  obtain ⟨c, hc, rfl⟩ := List.mem_map.mp hmem
  rw [BlockWriter.length_bytes]
  exact hcalls c hc

/-- Calls that fit into the queue never end in a deadlock. -/
theorem not_deadlocked_of_count_le {calls : List WriteCall}
    (hcalls : ∀ c ∈ calls, c.count ≤ 4096) {s : TermSession}
    (h : ReflTransGen Step (initial calls) s) : ¬ s.Deadlocked := by
  obtain ⟨hv, hi, hrun⟩ := reachable_toHandoff h
  have hsized : Handoff.Sized 4096 (toHandoff s) :=
    invariant_of_step (sized_initial hcalls _) (fun _ _ => Handoff.sized_step) hrun
  rintro ⟨hblocked, hwriter, hmessages⟩
  obtain ⟨hputting, hfull⟩ := hblocked.deadlocked hv.queue hv.main
  refine hi.not_deadlocked hsized ⟨hputting, hfull, ?_, hmessages⟩
  simp only [toHandoff, hwriter, consumer]

theorem good_run {s s' : TermSession} (hv : Valid s)
    (hi : Handoff.Inv 4096 (toHandoff s)) (h : ReflTransGen Step s s') :
    Valid s' ∧ Handoff.Inv 4096 (toHandoff s') := by
  obtain ⟨hv', hi', _⟩ : Valid s' ∧ Handoff.Inv 4096 (toHandoff s') ∧
      ReflTransGen (Handoff.Step 4096) (toHandoff s) (toHandoff s') :=
    simulation (fun _ _ => Handoff.inv_step) (fun _ _ => step_toHandoff) hv hi h
  exact ⟨hv', hi'⟩

/-- The main thread is between two calls, the writer thread asleep, nothing pending
and the queue empty. -/
structure Quiet (s : TermSession) (calls : List WriteCall) : Prop where
  valid : Valid s
  inv : Handoff.Inv 4096 (toHandoff s)
  calls_eq : s.calls = calls
  main_eq : s.main = .ready
  writer_eq : s.writer = .looping
  messages_eq : s.messages = 0
  empty : s.mWriteQueue.mStoredBytes = 0

/-- One `writeToOutput` empties the queue. -/
theorem exists_drained {s : TermSession} (hv : Valid s)
    (hi : Handoff.Inv 4096 (toHandoff s)) (hmain : s.main = .ready)
    (hwriter : s.writer = .draining) (hmessages : s.messages = 0) :
    ∃ s', ReflTransGen Step s s' ∧ Quiet s' s.calls := by
  have hstored := hv.queue.stored_le_cap
  have hmin : min s.mWriteQueue.getBytesAvailable s.mBuffer.length =
      s.mWriteQueue.mStoredBytes := by
    rw [hv.buffer]
    exact Nat.min_eq_left hstored
  by_cases hzero : s.mWriteQueue.mStoredBytes = 0
  · have hrun := ReflTransGen.single (Step.nothingAvailable hwriter (hmin.trans hzero))
    obtain ⟨hv', hi'⟩ := good_run hv hi hrun
    exact ⟨_, hrun, hv', hi', rfl, hmain, rfl, hmessages, hzero⟩
  · obtain ⟨q, buffer, hread, hq, _, _, hcontents⟩ :=
      BlockWriter.read_counted hv.queue hv.buffer (by decide) (Nat.le_refl _)
        (Nat.pos_of_ne_zero hzero)
    have hempty : q.mStoredBytes = 0 := by
      rw [← hq.length_contents, hcontents, List.length_drop, hv.queue.length_contents,
        Nat.sub_self]
    have h1 := Step.bytesAvailable hwriter (fun h => hzero (hmin.symm.trans h))
    rw [hmin] at h1
    have hrun := ((ReflTransGen.single h1).tail (.readQueue rfl hread)).tail
      (.writeOutput rfl)
    obtain ⟨hv', hi'⟩ := good_run hv hi hrun
    refine ⟨_, hrun, hv', hi', rfl, ?_, rfl, hmessages, hempty⟩
    show (if _ then s.main.wake else s.main) = .ready
    rw [hmain]
    exact ite_self _

theorem exists_quiet (calls : List WriteCall) :
    ∃ s, ReflTransGen Step (initial calls) s ∧ Quiet s calls := by
  have hi : Handoff.Inv 4096 (toHandoff (initial calls)) := by
    rw [toHandoff_initial]
    exact Handoff.inv_initial _ rfl rfl
  have hstart := ReflTransGen.single (Step.startLooper (s := initial calls) rfl)
  obtain ⟨hv₁, hi₁⟩ := good_run (valid_initial calls) hi hstart
  obtain ⟨s, hrun, hquiet⟩ := exists_drained hv₁ hi₁ rfl rfl rfl
  exact ⟨s, hstart.trans hrun, hquiet⟩

theorem Quiet.handler {s : TermSession} {calls : List WriteCall} (h : Quiet s calls) :
    s.mWriterHandler = true := by
  cases hhandler : s.mWriterHandler with
  | true => rfl
  | false =>
      have := h.valid.handler hhandler
      rw [h.writer_eq] at this
      cases this

/-- The writer thread takes a call that fits to the stream. -/
theorem Quiet.next {s : TermSession} {c : WriteCall} {calls : List WriteCall}
    (h : Quiet s (c :: calls)) (hc : c.count ≤ 4096) :
    ∃ s', ReflTransGen Step s s' ∧ Quiet s' calls := by
  obtain ⟨q, notify, hwrite⟩ := BlockWriter.write_returns h.valid.queue h.empty hc
  have hwriter : (if notify then WriterThread.wake s.writer else s.writer) = .looping := by
    rw [h.writer_eq]
    exact ite_self _
  have hrun := (((ReflTransGen.single (Step.callWrite h.main_eq h.calls_eq)).tail
    (.enterWrite rfl hwrite)).tail (.notifyNewOutput rfl)).tail
      (.handleMessage (n := 0) hwriter (by
        show (if s.mWriterHandler then s.messages + 1 else s.messages) = 0 + 1
        rw [h.handler, h.messages_eq]
        rfl))
  obtain ⟨hv₁, hi₁⟩ := good_run h.valid h.inv hrun
  obtain ⟨s', hrun', hquiet⟩ := exists_drained hv₁ hi₁ rfl rfl rfl
  exact ⟨s', hrun.trans hrun', hquiet⟩

/-- A call that does not fit blocks on the full queue before it has sent its message. -/
theorem Quiet.deadlock {s : TermSession} {c : WriteCall} {calls : List WriteCall}
    (h : Quiet s (c :: calls)) (hc : 4096 < c.count) :
    ∃ s', ReflTransGen Step s s' ∧ s'.Deadlocked := by
  obtain ⟨q, f, hwrite, hfull⟩ := BlockWriter.write_waits h.valid.queue h.empty hc
  exact ⟨_, (ReflTransGen.single (Step.callWrite h.main_eq h.calls_eq)).tail
    (.enterWrite rfl hwrite), ⟨⟨f, true, rfl⟩, hfull⟩, h.writer_eq, h.messages_eq⟩

theorem exists_deadlocked {calls : List WriteCall} (hcalls : ∃ c ∈ calls, 4096 < c.count) :
    ∃ s, ReflTransGen Step (initial calls) s ∧ s.Deadlocked := by
  obtain ⟨s₀, hrun₀, hquiet₀⟩ := exists_quiet calls
  suffices hfrom : ∀ calls s, (∃ c ∈ calls, 4096 < c.count) → Quiet s calls →
      ∃ s', ReflTransGen Step s s' ∧ s'.Deadlocked by
    obtain ⟨s, hrun, hs⟩ := hfrom calls s₀ hcalls hquiet₀
    exact ⟨s, hrun₀.trans hrun, hs⟩
  intro calls
  induction calls with
  | nil =>
      rintro _ ⟨c, hmem, _⟩
      exact absurd hmem List.not_mem_nil
  | cons c calls ih =>
      intro s hbig hquiet
      by_cases hc : c.count ≤ 4096
      · obtain ⟨s₁, hrun₁, hquiet₁⟩ := hquiet.next hc
        obtain ⟨c', hmem, hc'⟩ := hbig
        rcases List.mem_cons.mp hmem with rfl | hmem
        · omega
        · obtain ⟨s₂, hrun₂, hs₂⟩ := ih s₁ ⟨c', hmem, hc'⟩ hquiet₁
          exact ⟨s₂, hrun₁.trans hrun₂, hs₂⟩
      · exact hquiet.deadlock (by omega)

/-- The write path is safe exactly for calls of at most 4096 bytes. -/
theorem write_path_safe_iff (calls : List WriteCall) :
    (∀ s, ReflTransGen Step (initial calls) s →
      ¬ s.Deadlocked ∧ s.output <+: s.written) ↔ ∀ c ∈ calls, c.count ≤ 4096 := by
  constructor
  · intro hsafe
    by_contra hbig
    push Not at hbig
    obtain ⟨s, hrun, hs⟩ := exists_deadlocked hbig
    exact (hsafe s hrun).1 hs
  · intro hcalls s hrun
    exact ⟨not_deadlocked_of_count_le hcalls hrun, output_isPrefix hrun⟩

/-- A paste of 4097 bytes. -/
def paste : WriteCall where
  data := List.replicate 4097 65
  offset := 0
  count := 4097
  fits := by rw [List.length_replicate]
  isInt := by rw [List.length_replicate]; decide

theorem paste_deadlocks : ∃ s, ReflTransGen Step (initial [paste]) s ∧ s.Deadlocked :=
  exists_deadlocked ⟨paste, List.mem_singleton_self _, by decide⟩

end TermSession

end Kbox.Emulatorview
