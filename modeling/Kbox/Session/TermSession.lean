import Kbox.Util.BlockWriter

/-!
# `kevinboone.androidterm.session.TermSession`: the read path

The polling thread reads blocks of at most 4096 bytes from the terminal, puts
each into `mByteQueue` and posts `NEW_INPUT`.  The message handler answers a
message with `readFromProcess`, which takes what is available, once, and passes
it to the emulator.  The process watcher posts the exit status of the process as
a message of its own, and status 1 happens to be `NEW_INPUT`.

This is a `Handoff` whose blocks all fit into the queue.
-/

namespace Kbox.Session

open Kbox.Framework Kbox.Util Kbox.Util.ByteQueue
open Relation (ReflTransGen)

/-- What one `mTermIn.read(mBuffer)` returns. -/
structure TermBlock where
  bytes : List JByte
  nonempty : 1 ≤ bytes.length
  le_buffer : bytes.length ≤ 4096

inductive MsgHandler where
  | idle
  /-- About to ask the queue for `bytesAvailable`. -/
  | handling
  | toRead (bytesToRead : Nat)
  /-- In `wait()` inside `mByteQueue.read`. -/
  | blocked (bytesToRead : Nat)
  | appending (bytesRead : Nat)

structure TermSession where
  /-- The blocks the terminal has still to deliver, and the bytes of those read. -/
  blocks : List TermBlock
  received : List JByte
  mByteQueue : ByteQueue
  /-- The polling thread; `ready` is in `mTermIn.read`, or at its end. -/
  polling : BlockWriter
  mBuffer : List JByte
  /-- How many `NEW_INPUT` messages are pending. -/
  messages : Nat
  handler : MsgHandler
  mReceiveBuffer : List JByte
  /-- The bytes passed to `mEmulator.append`. -/
  appended : List JByte
  /-- The watcher still waits for the process. -/
  watching : Bool

namespace TermSession

/-- The session as its constructor starts the threads. -/
def initial (blocks : List TermBlock) : TermSession where
  blocks := blocks
  received := []
  mByteQueue := create 4096
  polling := .ready
  mBuffer := List.replicate 4096 0
  messages := 0
  handler := .idle
  mReceiveBuffer := List.replicate 4096 0
  appended := []
  watching := true

def MsgHandler.wake : MsgHandler → MsgHandler
  | .blocked k => .toRead k
  | h => h

/-- The polling thread leaves a critical section of `mByteQueue.write`. -/
def leaveWrite (s : TermSession) (q : ByteQueue) (c : WriteCall) (o : WriteOutcome) :
    TermSession :=
  { s with
    mByteQueue := q
    polling := .leave c o
    handler := if o.notifies then MsgHandler.wake s.handler else s.handler }

/-- The steps of a session whose `mIsRunning` is set. -/
inductive Step (s : TermSession) : TermSession → Prop where
  /-- `read` fills the front of `mBuffer`, and `write(mBuffer, 0, read)` is called. -/
  | readTerminal {b : TermBlock} {blocks : List TermBlock} {c : WriteCall} :
      s.polling = .ready → s.blocks = b :: blocks →
      c.data = splice s.mBuffer 0 b.bytes → c.offset = 0 → c.count = b.bytes.length →
      Step s { s with
        blocks := blocks
        received := s.received ++ b.bytes
        mBuffer := splice s.mBuffer 0 b.bytes
        polling := .entering c }
  | enterWrite {c : WriteCall} {q : ByteQueue} {o : WriteOutcome} :
      s.polling = .entering c → s.mByteQueue.write c = .ok (q, o) →
      Step s (s.leaveWrite q c o)
  | resumeWrite {f : WriteFrame} {q : ByteQueue} {o : WriteOutcome} :
      s.polling = .writing f false → s.mByteQueue.runWrite f = .ok (q, o) →
      Step s (s.leaveWrite q f.call o)
  /-- A `wait()` may also return without a notification. -/
  | wakeup :
      Step s { s with polling := s.polling.wake, handler := MsgHandler.wake s.handler }
  | sendNewInput {c : WriteCall} :
      s.polling = .returned c →
      Step s { s with polling := .ready, messages := s.messages + 1 }
  | sendExitStatusOne :
      s.watching = true →
      Step s { s with watching := false, messages := s.messages + 1 }
  | handleMessage {n : Nat} :
      s.handler = .idle → s.messages = n + 1 →
      Step s { s with messages := n, handler := .handling }
  | bytesAvailable :
      s.handler = .handling →
      Step s { s with
        handler := .toRead (min s.mByteQueue.getBytesAvailable s.mReceiveBuffer.length) }
  | readQueue {k n : Nat} {q : ByteQueue} {buffer : List JByte} {notify : Bool} :
      s.handler = .toRead k →
      s.mByteQueue.read s.mReceiveBuffer 0 k = .ok (q, .returned buffer n notify) →
      Step s { s with
        mByteQueue := q
        mReceiveBuffer := buffer
        handler := .appending n
        polling := if notify then s.polling.wake else s.polling }
  | readWaits {k : Nat} {q : ByteQueue} :
      s.handler = .toRead k → s.mByteQueue.read s.mReceiveBuffer 0 k = .ok (q, .waits) →
      Step s { s with mByteQueue := q, handler := .blocked k }
  | append {n : Nat} :
      s.handler = .appending n →
      Step s { s with appended := s.appended ++ s.mReceiveBuffer.take n, handler := .idle }

/-- The polling thread is blocked on a full queue, and the handler waits for a message
that is not there. -/
def Deadlocked (s : TermSession) : Prop :=
  s.polling.BlockedOn s.mByteQueue ∧ s.handler = .idle ∧ s.messages = 0

/-! ## §1  The session as a handoff -/

def consumer (mReceiveBuffer : List JByte) : MsgHandler → Handoff.Consumer JByte
  | .idle => .idle
  | .handling => .woken
  | .toRead k => .sampled k
  | .blocked k => .sampled k
  | .appending n => .carrying (mReceiveBuffer.take n)

def toHandoff (s : TermSession) : Handoff.State JByte where
  script := s.blocks.map TermBlock.bytes
  begun := s.received
  producer := s.polling.producer
  content := s.mByteQueue.contents
  pending := s.messages
  consumer := consumer s.mReceiveBuffer s.handler
  delivered := s.appended

structure Valid (s : TermSession) : Prop where
  queue : BlockWriter.Sound 4096 s.mByteQueue
  buffer : s.mBuffer.length = 4096
  receiveBuffer : s.mReceiveBuffer.length = 4096
  polling : s.polling.Valid
  /-- The handler never has to wait for bytes. -/
  not_blocked : ∀ k, s.handler ≠ .blocked k

theorem Valid.wake_handler {s : TermSession} (hv : Valid s) :
    MsgHandler.wake s.handler = s.handler := by
  cases hh : s.handler with
  | blocked k => exact absurd hh (hv.not_blocked k)
  | idle | handling | toRead | appending => rfl

theorem Valid.leaveWrite {s : TermSession} (hv : Valid s) {q : ByteQueue} {c : WriteCall}
    {o : WriteOutcome} {fresh : Nat} {rest : List JByte}
    (h : BlockWriter.Puts 4096 s.mByteQueue q (.leave c o) fresh rest) :
    Valid (s.leaveWrite q c o) ∧
      toHandoff (s.leaveWrite q c o) = (toHandoff s).put 4096 fresh rest := by
  have hhandler : (if o.notifies then MsgHandler.wake s.handler else s.handler) =
      s.handler := by
    rw [hv.wake_handler, ite_self]
  unfold TermSession.leaveWrite
  simp only [hhandler]
  refine ⟨{ hv with queue := h.sound, polling := h.valid }, ?_⟩
  unfold toHandoff Handoff.State.put
  simp only [h.contents, h.producer]

/-- The bytes the handler has counted are still there. -/
theorem claimed {s : TermSession} (hv : Valid s) (hi : Handoff.Inv 4096 (toHandoff s))
    {k : Nat} (hhandler : s.handler = .toRead k) : k ≤ s.mByteQueue.mStoredBytes := by
  have hclaimed := hi.claimed_le
  simp only [toHandoff, hhandler, consumer, Handoff.Consumer.claimed,
    hv.queue.length_contents] at hclaimed
  exact hclaimed

/-- Each step of the session is a step of the handoff. -/
theorem step_toHandoff {s s' : TermSession} (hv : Valid s)
    (hi : Handoff.Inv 4096 (toHandoff s)) (h : Step s s') :
    Valid s' ∧ Handoff.Step 4096 (toHandoff s) (toHandoff s') := by
  cases h with
  | @readTerminal b blocks c hpolling hblocks hdata hoffset hcount =>
      have hfit : 0 + b.bytes.length ≤ s.mBuffer.length := by
        rw [hv.buffer, Nat.zero_add]
        exact b.le_buffer
      have hbytes : c.bytes = b.bytes := by
        rw [WriteCall.bytes, hdata, hoffset, hcount, stretch, List.drop_zero,
          take_splice_zero]
      refine ⟨{ hv with
        buffer := (length_splice hfit).trans hv.buffer
        polling := BlockWriter.valid_entering c }, ?_⟩
      have hbegin : Handoff.Step 4096 (toHandoff s) _ :=
        .begin (by simp only [toHandoff, hpolling, BlockWriter.producer])
          (by simp only [toHandoff, hblocks, List.map_cons]; rfl)
      simpa only [toHandoff, BlockWriter.producer, hbytes] using hbegin
  | @enterWrite c q o hpolling hwrite =>
      obtain ⟨hv', hput⟩ := hv.leaveWrite (BlockWriter.write_puts hv.queue hwrite)
      rw [hput]
      exact ⟨hv', .put (by simp only [toHandoff, hpolling, BlockWriter.producer])⟩
  | @resumeWrite f q o hpolling hrun =>
      have hf := hv.polling f _ hpolling
      obtain ⟨hv', hput⟩ := hv.leaveWrite
        (BlockWriter.runWrite_puts hv.queue hf.length_le hf.fits hrun)
      rw [hput]
      exact ⟨hv', .put (by simp only [toHandoff, hpolling, BlockWriter.producer])⟩
  | wakeup =>
      rw [hv.wake_handler]
      refine ⟨{ hv with polling := hv.polling.wake }, ?_⟩
      have hspurious : Handoff.Step 4096 (toHandoff s) _ := .spurious
      simpa only [toHandoff, ← BlockWriter.producer_wake] using hspurious
  | @sendNewInput c hpolling =>
      have hposting : (toHandoff s).producer = .posting c.count := by
        simp only [toHandoff, hpolling, BlockWriter.producer]
      exact ⟨{ hv with polling := BlockWriter.valid_ready }, .post hposting⟩
  | sendExitStatusOne hwatching => exact ⟨{ hv with }, .stray⟩
  | @handleMessage n hhandler hmessages =>
      exact ⟨{ hv with not_blocked := fun _ heq => by cases heq },
        .receive (by simp only [toHandoff, hhandler, consumer]) hmessages⟩
  | bytesAvailable hhandler =>
      have hstored := hv.queue.stored_le_cap
      rw [hv.receiveBuffer, getBytesAvailable, Nat.min_eq_left hstored,
        ← hv.queue.length_contents]
      exact ⟨{ hv with not_blocked := fun _ heq => by cases heq },
        .sample (by simp only [toHandoff, hhandler, consumer])⟩
  | @readQueue k n q buffer notify hhandler hread =>
      rcases Nat.eq_zero_or_pos k with rfl | hpos
      · rw [read_zero _ (Nat.zero_le _) (by rw [hv.receiveBuffer]; decide)] at hread
        cases hread
        exact ⟨{ hv with not_blocked := fun _ heq => by cases heq },
          .takeNothing (by simp only [toHandoff, hhandler, consumer])⟩
      · obtain ⟨q', buffer', hread', hq, hbuffer, hbytes, hcontents⟩ :=
          BlockWriter.read_counted hv.queue hv.receiveBuffer (by decide)
            (claimed hv hi hhandler) hpos
        rw [hread'] at hread
        cases hread
        refine ⟨{ hv with
          queue := hq
          receiveBuffer := hbuffer
          polling := hv.polling.notify _
          not_blocked := fun _ heq => by cases heq }, ?_⟩
        have htake : Handoff.Step 4096 (toHandoff s) _ :=
          .take (k := k) (by simp only [toHandoff, hhandler, consumer])
        refine (congrArg (Handoff.Step 4096 (toHandoff s)) ?_).mpr htake
        unfold toHandoff
        simp only [BlockWriter.producer_notify hv.queue, hcontents, consumer, hbytes]
  | @readWaits k q hhandler hread =>
      rcases Nat.eq_zero_or_pos k with rfl | hpos
      · rw [read_zero _ (Nat.zero_le _) (by rw [hv.receiveBuffer]; decide)] at hread
        cases hread
      · obtain ⟨q', buffer', hread', _⟩ :=
          BlockWriter.read_counted hv.queue hv.receiveBuffer (by decide)
            (claimed hv hi hhandler) hpos
        rw [hread'] at hread
        cases hread
  | @append n hhandler =>
      exact ⟨{ hv with not_blocked := fun _ heq => by cases heq },
        .deliver (by simp only [toHandoff, hhandler, consumer])⟩

/-! ## §2  Runs -/

theorem valid_initial (blocks : List TermBlock) : Valid (initial blocks) where
  queue := ⟨valid_create (by omega), List.length_replicate, by decide⟩
  buffer := List.length_replicate
  receiveBuffer := List.length_replicate
  polling := BlockWriter.valid_ready
  not_blocked := fun _ heq => by cases heq

theorem toHandoff_initial (blocks : List TermBlock) :
    toHandoff (initial blocks) = Handoff.initial (blocks.map TermBlock.bytes) .idle := by
  simp only [toHandoff, initial, contents_create, BlockWriter.producer, consumer,
    Handoff.initial]

theorem sized_initial (blocks : List TermBlock) :
    Handoff.Sized 4096 (Handoff.initial (blocks.map TermBlock.bytes) .idle) := by
  refine ⟨?_, Nat.zero_le _⟩
  intro bytes hmem
  obtain ⟨b, _, rfl⟩ := List.mem_map.mp hmem
  exact b.le_buffer

/-- In every reachable state of the read path: the emulator has been given a prefix of
what was read; the two threads do not block each other; and when all is at rest
nothing is left in the queue. -/
theorem read_path_delivers (blocks : List TermBlock) {s : TermSession}
    (h : ReflTransGen Step (initial blocks) s) :
    s.appended <+: s.received ∧ ¬ s.Deadlocked ∧
      (s.messages = 0 → s.handler = .idle → s.polling = .ready →
        s.mByteQueue.mStoredBytes = 0) := by
  have hi₀ : Handoff.Inv 4096 (toHandoff (initial blocks)) := by
    rw [toHandoff_initial]
    exact Handoff.inv_initial _ rfl rfl
  obtain ⟨hv, hi, hrun⟩ : Valid s ∧ Handoff.Inv 4096 (toHandoff s) ∧
      ReflTransGen (Handoff.Step 4096) (toHandoff (initial blocks)) (toHandoff s) :=
    simulation (fun _ _ => Handoff.inv_step) (fun _ _ => step_toHandoff)
      (valid_initial blocks) hi₀ h
  rw [toHandoff_initial] at hrun
  have hsized : Handoff.Sized 4096 (toHandoff s) :=
    invariant_of_step (sized_initial blocks) (fun _ _ => Handoff.sized_step) hrun
  refine ⟨hi.delivered_isPrefix, ?_, ?_⟩
  · rintro ⟨hblocked, hhandler, hmessages⟩
    obtain ⟨hputting, hfull⟩ := hblocked.deadlocked hv.queue hv.polling
    refine hi.not_deadlocked hsized ⟨hputting, hfull, ?_, hmessages⟩
    simp only [toHandoff, hhandler, consumer]
  · intro hmessages hhandler hpolling
    have hnil := hi.nothing_stranded hmessages
      (by simp only [toHandoff, hhandler, consumer])
      (by simp only [toHandoff, hpolling, BlockWriter.producer])
    have hlen := hv.queue.length_contents
    have hcontents : s.mByteQueue.contents = [] := hnil
    rw [← hlen, hcontents, List.length_nil]

theorem length_front (b : TermBlock) :
    (splice (List.replicate 4096 (0 : JByte)) 0 b.bytes).length = 4096 := by
  have hfits : 0 + b.bytes.length ≤ (List.replicate 4096 (0 : JByte)).length := by
    rw [List.length_replicate, Nat.zero_add]
    exact b.le_buffer
  rw [length_splice hfits, List.length_replicate]

/-- The call of `write` that passes a first block on. -/
def blockCall (b : TermBlock) : WriteCall where
  data := splice (List.replicate 4096 0) 0 b.bytes
  offset := 0
  count := b.bytes.length
  fits := by
    rw [length_front, Nat.zero_add]
    exact b.le_buffer
  isInt := by
    rw [length_front]
    decide

theorem bytes_blockCall (b : TermBlock) : (blockCall b).bytes = b.bytes := by
  rw [WriteCall.bytes, blockCall, stretch, List.drop_zero, take_splice_zero]

/-- A block goes from the terminal to the emulator in seven steps, and all is at rest
again. -/
theorem block_delivered (b : TermBlock) :
    ∃ s, ReflTransGen Step (initial [b]) s ∧ s.received = b.bytes ∧ s.appended = b.bytes ∧
      s.messages = 0 ∧ s.handler = .idle ∧ s.polling = .ready := by
  have hsound := (valid_initial [b]).queue
  obtain ⟨q, notify, hwrite⟩ := BlockWriter.write_returns hsound rfl (c := blockCall b)
    b.le_buffer
  have hputs := BlockWriter.write_puts hsound hwrite
  have hcontents : q.contents = b.bytes := by
    have hput := hputs.contents
    simp only [initial, contents_create, List.length_nil, Nat.sub_zero, List.nil_append] at hput
    rw [hput, bytes_blockCall, List.take_of_length_le b.le_buffer]
  have hstored : q.mStoredBytes = b.bytes.length := by
    rw [← hputs.sound.length_contents, hcontents]
  obtain ⟨q', buffer, hread, -, -, htake, -⟩ := BlockWriter.read_counted hputs.sound
    (valid_initial [b]).receiveBuffer (by decide) hstored.ge b.nonempty
  rw [hcontents, List.take_length] at htake
  have hcount : min q.getBytesAvailable 4096 = b.bytes.length := by
    rw [getBytesAvailable, hstored, Nat.min_eq_left b.le_buffer]
  have hfirst : Step (initial [b]) _ :=
    .readTerminal (b := b) (c := blockCall b) rfl rfl rfl rfl rfl
  have hposted := ((ReflTransGen.single hfirst).tail (.enterWrite rfl hwrite)).tail
    (.sendNewInput rfl)
  have hcounted := (hposted.tail (.handleMessage (n := 0) (ite_self _) rfl)).tail (.bytesAvailable rfl)
  have hhandler : MsgHandler.toRead (min q.getBytesAvailable
      (List.replicate 4096 (0 : JByte)).length) = .toRead b.bytes.length := by
    rw [List.length_replicate, hcount]
  have htaken := (hcounted.tail (.readQueue hhandler hread)).tail (.append rfl)
  refine ⟨_, htaken, List.nil_append _, (List.nil_append _).trans htake, rfl, rfl, ?_⟩
  cases decide (4096 = q.mStoredBytes) <;> rfl

/-- The two letters `A` and `B` in one block. -/
def twoLetters : TermBlock := ⟨[65, 66], by decide, by decide⟩

/-- Both letters are with the emulator, and nothing is left in the queue. -/
theorem read_path_delivers_two_letters :
    ∃ s : TermSession, s.received = [65, 66] ∧ s.appended = [65, 66] ∧
      s.appended <+: s.received ∧ ¬ s.Deadlocked ∧ s.mByteQueue.mStoredBytes = 0 := by
  obtain ⟨s, hrun, hreceived, happended, hmessages, hhandler, hpolling⟩ :=
    block_delivered twoLetters
  obtain ⟨hfront, hrunning, hempty⟩ := read_path_delivers [twoLetters] hrun
  exact ⟨s, hreceived, happended, hfront, hrunning, hempty hmessages hhandler hpolling⟩

end TermSession

end Kbox.Session
