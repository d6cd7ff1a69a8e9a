import Kbox.Telnet.Decoder

/-!
# From the keyboard to the network

While the peer has not suppressed go-ahead, what is written waits in `mWriteBuf`.
Nothing written is lost, doubled or overtaken, however writes and network input
alternate; the only bytes in between are the client's own go-aheads.
-/

namespace Kbox.Telnet

open Kbox.Framework

/-! ## §1  What has been sent as data -/

def Sent.dataBytes : Sent → List JByte
  | .data bytes => bytes
  | _ => []

namespace TelnetSession

def dataSent (s : TelnetSession) : List JByte := s.sent.flatMap Sent.dataBytes

/-- What has been sent as data, and what is queued behind it. -/
def outgoing (s : TelnetSession) : List JByte := s.dataSent ++ s.mWriteBuf

end TelnetSession

open TelnetSession

/-- The queue fits into the array, and is empty while the peer takes data at any time. -/
structure Queueing (s : TelnetSession) : Prop where
  fits : s.mWriteBuf.length ≤ bufferLength
  direct : s.peerSuppressedGoAhead = true → s.mWriteBuf = []

variable {s t : TelnetSession}

theorem dataSent_superWrite (call : Sent) :
    (s.superWrite call).dataSent = s.dataSent ++ call.dataBytes := by
  simp only [dataSent, superWrite, List.flatMap_append, List.flatMap_singleton]

@[simp] theorem dataSent_sendOption (command option : JByte) :
    (s.sendOption command option).dataSent = s.dataSent := by
  rw [sendOption, dataSent_superWrite]
  exact List.append_nil _

@[simp] theorem outgoing_sendOption (command option : JByte) :
    (s.sendOption command option).outgoing = s.outgoing := by
  unfold outgoing
  rw [dataSent_sendOption]
  rfl

@[simp] theorem dataSent_flushWriteBuf : s.flushWriteBuf.dataSent = s.outgoing :=
  dataSent_superWrite _

@[simp] theorem outgoing_flushWriteBuf : s.flushWriteBuf.outgoing = s.outgoing := by
  unfold outgoing
  rw [dataSent_flushWriteBuf]
  exact List.append_nil _

theorem outgoing_queued (data : List JByte) :
    (s.queued data).outgoing = s.outgoing ++ data := by
  unfold queued
  split_ifs
  · exact congrArg (· ++ data) (dataSent_flushWriteBuf (s := s))
  · exact (List.append_assoc _ _ _).symm

theorem outgoing_accept (h : Queueing s) (data : List JByte) :
    (s.accept data).outgoing = s.outgoing ++ data := by
  unfold accept
  split_ifs with hpeer
  · have hempty := h.direct hpeer
    have hbuf : (s.superWrite (.data data)).mWriteBuf = [] := hempty
    simp only [outgoing, dataSent_superWrite, hbuf, hempty, List.append_nil, Sent.dataBytes]
  · exact outgoing_queued data

theorem Queueing.accept (h : Queueing s) {data : List JByte}
    (hfits : s.peerSuppressedGoAhead = false → data.length ≤ bufferLength) :
    Queueing (s.accept data) := by
  unfold TelnetSession.accept
  cases hpeer : s.peerSuppressedGoAhead with
  | true => exact ⟨h.fits, h.direct⟩
  | false =>
      simp only [Bool.false_eq_true, if_false, queued]
      split_ifs with hfull
      · refine ⟨hfits hpeer, fun hdirect => ?_⟩
        have hfalse : s.peerSuppressedGoAhead = true := hdirect
        rw [hpeer] at hfalse
        cases hfalse
      · refine ⟨?_, fun hdirect => ?_⟩
        · simp only [List.length_append]
          omega
        · have hfalse : s.peerSuppressedGoAhead = true := hdirect
          rw [hpeer] at hfalse
          cases hfalse

/-! ## §2  A byte that arrives -/

/-- The peer says that it suppresses go-ahead. -/
def AnnouncesSuppression (s : TelnetSession) (b : JByte) : Prop :=
  s.mInTelnetCommand = true ∧ s.mMultipleParameters = false ∧ s.mTelnetCommand = cmdWill ∧
    b = optionSuppressGoAhead

/-- A bare go-ahead, while the peer has not suppressed them. -/
def GoesAhead (s : TelnetSession) (b : JByte) : Prop :=
  s.mInTelnetCommand = false ∧ b = cmdGa ∧ s.peerSuppressedGoAhead = false

/-- The bytes that let the queue go. -/
def Releases (s : TelnetSession) (b : JByte) : Prop :=
  AnnouncesSuppression s b ∨ GoesAhead s b

/-- No data is sent or queued, and the peer has not begun to suppress go-ahead. -/
structure Kept (s t : TelnetSession) : Prop where
  sent : t.dataSent = s.dataSent
  queue : t.mWriteBuf = s.mWriteBuf
  peer : t.peerSuppressedGoAhead = true → s.peerSuppressedGoAhead = true

theorem Kept.refl : Kept s s := ⟨rfl, rfl, id⟩

theorem Kept.sendOption (command option : JByte) : Kept s (s.sendOption command option) :=
  ⟨dataSent_sendOption command option, rfl, id⟩

theorem Kept.sendOptionIf (condition : Bool) (command option : JByte) :
    Kept s (s.sendOptionIf condition command option) := by
  cases condition with
  | true => exact .sendOption command option
  | false => exact .refl

/-- `t` after the queue of `s` has gone out, a go-ahead of our own behind it or not. -/
structure Released (s t : TelnetSession) (mark : List JByte) : Prop where
  sent : t.dataSent = s.outgoing ++ mark
  queue : t.mWriteBuf = []
  mark : mark = [] ∨ mark = [iac, cmdGa]

theorem handleWillOption_queue (c : JByte) :
    (c = optionSuppressGoAhead ∧ Released s (s.handleWillOption c) []) ∨
      (c ≠ optionSuppressGoAhead ∧ Kept s (s.handleWillOption c)) := by
  unfold handleWillOption
  split_ifs with hecho hga
  · refine .inr ⟨?_, ?_⟩
    · rw [hecho]
      decide
    · have hkept := Kept.sendOptionIf (s := s) (!s.peerEchoesInput) cmdDo optionEcho
      exact ⟨hkept.sent, hkept.queue, hkept.peer⟩
  · refine .inl ⟨hga, ?_, rfl, .inl rfl⟩
    have hkept := Kept.sendOptionIf (s := s)
      (!s.doSuppressGaRequested && !s.peerSuppressedGoAhead) cmdDo optionSuppressGoAhead
    refine (dataSent_flushWriteBuf (s := setPeerSuppressedGoAhead true _)).trans ?_
    rw [List.append_nil]
    exact congrArg₂ (· ++ ·) hkept.sent hkept.queue
  · exact .inr ⟨hga, dataSent_sendOption cmdDont c, rfl, id⟩

theorem handleWontOption_queue (c : JByte) : Kept s (s.handleWontOption c) := by
  unfold handleWontOption
  split_ifs with hecho hga
  · have hkept := Kept.sendOptionIf (s := s) s.peerEchoesInput cmdDont optionEcho
    exact ⟨hkept.sent, hkept.queue, hkept.peer⟩
  · have hkept := Kept.sendOptionIf (s := s)
      (!s.doSuppressGaRequested && s.peerSuppressedGoAhead) cmdDont optionSuppressGoAhead
    exact ⟨hkept.sent, hkept.queue, fun h => by cases h⟩
  · exact ⟨rfl, rfl, id⟩

theorem handleDoOption_queue (c : JByte) : Kept s (s.handleDoOption c) := by
  unfold handleDoOption
  split_ifs with hecho hga
  · exact ⟨dataSent_sendOption cmdWont optionEcho, rfl, id⟩
  · have hkept := Kept.sendOptionIf (s := s)
      (!s.willSuppressGaRequested && !s.suppressGoAhead) cmdWill optionSuppressGoAhead
    exact ⟨hkept.sent, hkept.queue, hkept.peer⟩
  · exact ⟨dataSent_sendOption cmdWont c, rfl, id⟩

theorem handleDontOption_queue (c : JByte) : Kept s (s.handleDontOption c) := by
  unfold handleDontOption
  split_ifs with hecho hga
  · have hkept := Kept.sendOptionIf (s := s) s.echoInput cmdWont optionEcho
    exact ⟨hkept.sent, hkept.queue, hkept.peer⟩
  · have hkept := Kept.sendOptionIf (s := s)
      (!s.willSuppressGaRequested && s.suppressGoAhead) cmdWont c
    exact ⟨hkept.sent, hkept.queue, hkept.peer⟩
  · exact ⟨rfl, rfl, id⟩

theorem doPlainCommand_queue (c : JByte) : Kept s (s.doPlainCommand c) := by
  have hpresence : (s.superWrite .presence).dataSent = s.dataSent :=
    (dataSent_superWrite _).trans (List.append_nil _)
  unfold doPlainCommand
  split_ifs with hec hel hiac hsb hnegotiation hayt
  any_goals exact ⟨rfl, rfl, id⟩
  exact ⟨hpresence, rfl, id⟩

theorem doTelnetCommand_queue (hcommand : s.mInTelnetCommand = true) (b : JByte) :
    (AnnouncesSuppression s b ∧ Released s (s.doTelnetCommand b) []) ∨
      (¬ AnnouncesSuppression s b ∧ Kept s (s.doTelnetCommand b)) := by
  unfold doTelnetCommand
  by_cases hmulti : s.mMultipleParameters = true
  · rw [if_pos hmulti]
    refine .inr ⟨fun h => ?_, ?_⟩
    · rw [h.2.1] at hmulti
      cases hmulti
    · split_ifs
      · exact ⟨rfl, rfl, id⟩
      · exact .refl
  rw [if_neg hmulti]
  by_cases hwill : s.mTelnetCommand = cmdWill
  · rw [if_pos hwill]
    rcases handleWillOption_queue (s := s) b with ⟨hb, hreleased⟩ | ⟨hb, hkept⟩
    · exact .inl ⟨⟨hcommand, eq_false_of_ne_true hmulti, hwill, hb⟩, hreleased⟩
    · exact .inr ⟨fun h => hb h.2.2.2, hkept⟩
  rw [if_neg hwill]
  refine .inr ⟨fun h => hwill h.2.2.1, ?_⟩
  split_ifs
  · exact handleWontOption_queue b
  · exact handleDoOption_queue b
  · exact handleDontOption_queue b
  · exact doPlainCommand_queue b

theorem doTelnetInit_queue : Kept s s.doTelnetInit :=
  ⟨(dataSent_sendOption _ _).trans (dataSent_sendOption _ _), rfl, fun h => by cases h⟩

theorem startCommand_queue : Kept s s.startCommand := by
  unfold startCommand
  split_ifs
  · exact ⟨rfl, rfl, id⟩
  · exact ⟨doTelnetInit_queue.sent, rfl, fun h => by cases h⟩

theorem echoBack_queue (b : JByte) : Kept s (s.echoBack b) := by
  unfold echoBack
  split_ifs
  · exact ⟨(dataSent_superWrite _).trans (List.append_nil _), rfl, id⟩
  · exact .refl

theorem goAhead_queue (hpeer : s.peerSuppressedGoAhead = false) :
    ∃ mark, Released s s.goAhead mark := by
  unfold goAhead
  simp only [hpeer, Bool.false_eq_true, if_false]
  split_ifs
  · exact ⟨[], (dataSent_flushWriteBuf).trans (List.append_nil _).symm, rfl, .inl rfl⟩
  · exact ⟨[iac, cmdGa], (dataSent_flushWriteBuf).trans (outgoing_queued _), rfl, .inr rfl⟩

/-- A byte either lets the queue go or leaves the data alone. -/
theorem receive_queue (b : JByte) :
    (Releases s b ∧ ∃ mark, Released s (s.receive b) mark) ∨
      (¬ Releases s b ∧ Kept s (s.receive b)) := by
  unfold receive received
  by_cases hcommand : s.mInTelnetCommand = true
  · rw [if_pos hcommand]
    have hno : ¬ GoesAhead s b := fun h => by
      rw [h.1] at hcommand
      cases hcommand
    rcases doTelnetCommand_queue hcommand b with ⟨h, hreleased⟩ | ⟨h, hkept⟩
    · exact .inl ⟨.inl h, [], hreleased.sent, hreleased.queue, hreleased.mark⟩
    · exact .inr ⟨not_or.mpr ⟨h, hno⟩, hkept.sent, hkept.queue, hkept.peer⟩
  have hno : ¬ AnnouncesSuppression s b := fun h => hcommand h.1
  have htext : s.mInTelnetCommand = false := eq_false_of_ne_true hcommand
  rw [if_neg hcommand]
  by_cases hiac : b = iac
  · have hb : ¬ GoesAhead s b := fun h => by
      rw [hiac] at h
      exact absurd h.2.1 (by decide)
    rw [if_pos hiac]
    have hkept := startCommand_queue (s := s)
    exact .inr ⟨not_or.mpr ⟨hno, hb⟩, hkept.sent, hkept.queue, hkept.peer⟩
  rw [if_neg hiac]
  by_cases hga : b = cmdGa
  · rw [if_pos hga]
    cases hpeer : s.peerSuppressedGoAhead with
    | false =>
        obtain ⟨mark, hreleased⟩ := goAhead_queue hpeer
        exact .inl ⟨.inr ⟨htext, hga, hpeer⟩, mark, hreleased.sent, hreleased.queue,
          hreleased.mark⟩
    | true =>
        have hb : ¬ GoesAhead s b := fun h => by
          rw [h.2.2] at hpeer
          cases hpeer
        have hsame : s.goAhead = s := by
          unfold goAhead
          rw [if_pos hpeer]
        rw [hsame]
        exact .inr ⟨not_or.mpr ⟨hno, hb⟩, rfl, rfl, fun _ => hpeer⟩
  rw [if_neg hga]
  refine .inr ⟨not_or.mpr ⟨hno, fun h => hga h.2.1⟩, ?_⟩
  split_ifs
  · have hkept := echoBack_queue (s := s) 0
    exact ⟨hkept.sent, hkept.queue, hkept.peer⟩
  · have hkept := echoBack_queue (s := s.superProcessInput [b]) b
    exact ⟨hkept.sent, hkept.queue, hkept.peer⟩

theorem Queueing.receive (h : Queueing s) (b : JByte) : Queueing (s.receive b) := by
  rcases receive_queue (s := s) b with ⟨_, mark, hreleased⟩ | ⟨_, hkept⟩
  · refine ⟨?_, fun _ => hreleased.queue⟩
    rw [hreleased.queue]
    exact Nat.zero_le _
  · refine ⟨?_, fun hpeer => ?_⟩
    · rw [hkept.queue]
      exact h.fits
    · rw [hkept.queue]
      exact h.direct (hkept.peer hpeer)

theorem outgoing_receive (b : JByte) :
    (s.receive b).outgoing = s.outgoing ∨ (s.receive b).outgoing = s.outgoing ++ [iac, cmdGa] := by
  unfold outgoing
  rcases receive_queue (s := s) b with ⟨_, mark, hreleased⟩ | ⟨_, hkept⟩
  · rw [hreleased.sent, hreleased.queue, List.append_nil]
    rcases hreleased.mark with rfl | rfl
    · exact .inl (List.append_nil _)
    · exact .inr rfl
  · rw [hkept.sent, hkept.queue]
    exact .inl rfl

/-! ## §3  Histories -/

/-- What goes out as data: a write of the user, or a go-ahead of the client. -/
inductive Piece where
  | written (bytes : List JByte)
  | goAhead

def Piece.bytes : Piece → List JByte
  | .written bytes => bytes
  | .goAhead => [iac, cmdGa]

def Piece.user : Piece → Option (List JByte)
  | .written bytes => some bytes
  | .goAhead => none

theorem queueing_create (isRunning : Bool) : Queueing (create isRunning) :=
  ⟨Nat.zero_le _, fun _ => rfl⟩

theorem dataSent_echoLocally (data : List JByte) :
    (s.echoLocally data).outgoing = s.outgoing := by
  unfold echoLocally
  split_ifs <;> rfl

theorem Queueing.echoLocally (h : Queueing s) (data : List JByte) :
    Queueing (s.echoLocally data) := by
  unfold TelnetSession.echoLocally
  split_ifs
  · exact ⟨h.fits, h.direct⟩
  · exact h

theorem Queueing.receiveAll (h : Queueing s) (bytes : List JByte) :
    Queueing (s.receiveAll bytes) :=
  foldl_history (P := fun _ t => Queueing t) h (fun _ b _ ht => ht.receive b) bytes

/-- What arrives adds go-aheads to the outgoing data, and nothing else. -/
theorem outgoing_receiveAll (bytes : List JByte) :
    ∃ pieces : List Piece, pieces.filterMap Piece.user = [] ∧
      (s.receiveAll bytes).outgoing = s.outgoing ++ pieces.flatMap Piece.bytes := by
  induction bytes generalizing s with
  | nil => exact ⟨[], rfl, (List.append_nil _).symm⟩
  | cons b bytes ih =>
      obtain ⟨pieces, huser, hout⟩ := ih (s := s.receive b)
      rcases outgoing_receive (s := s) b with hb | hb
      · exact ⟨pieces, huser, hout.trans (by rw [hb])⟩
      · refine ⟨.goAhead :: pieces, huser, hout.trans ?_⟩
        rw [hb, List.append_assoc]
        rfl

/-- Along every history the queue fits, is empty while the peer takes data directly, and
follows what has been sent. -/
theorem outgoing_of_history {isRunning : Bool} {calls : List Call}
    (h : runAll perform calls (create isRunning) = .ok ⟨⟩ t) :
    Queueing t ∧ ∃ pieces : List Piece, pieces.filterMap Piece.user = (typed calls).map translated ∧
      t.outgoing = pieces.flatMap Piece.bytes := by
  refine runAll_history (P := fun calls t => Queueing t ∧ ∃ pieces : List Piece,
    pieces.filterMap Piece.user = (typed calls).map translated ∧
      t.outgoing = pieces.flatMap Piece.bytes) ⟨queueing_create isRunning, [], rfl, rfl⟩ ?_ h
  rintro calls c u v ⟨hu, pieces, huser, hout⟩ hc
  rw [typed_append, List.map_append, ← huser]
  cases c with
  | write bytes offset count =>
      obtain ⟨rfl, hfits⟩ := write_ok hc
      refine ⟨(hu.accept hfits).echoLocally _,
        pieces ++ [.written (translated (slice bytes offset count))], ?_, ?_⟩
      · exact List.filterMap_append
      · rw [dataSent_echoLocally, outgoing_accept hu, hout, List.flatMap_append,
          List.flatMap_singleton]
        rfl
  | processInput buffer offset count =>
      rw [processInput_ok hc]
      obtain ⟨marks, hmarks, hmore⟩ := outgoing_receiveAll (s := u) (slice buffer offset count)
      refine ⟨hu.receiveAll _, pieces ++ marks, ?_, ?_⟩
      · rw [List.filterMap_append, hmarks]
        rfl
      · rw [hmore, hout, List.flatMap_append]

/-- However writes and network input alternate, the data sent and the data still queued
are together the writes in their order, each once and with its line ends translated;
what is in between are the client's own go-aheads. -/
theorem writes_in_order {isRunning : Bool} {calls : List Call}
    (h : runAll perform calls (create isRunning) = .ok ⟨⟩ t) :
    ∃ pieces : List Piece, pieces.filterMap Piece.user = (typed calls).map translated ∧
      t.dataSent ++ t.mWriteBuf = pieces.flatMap Piece.bytes :=
  (outgoing_of_history h).2

theorem writes_in_order_sample : ∃ t, runAll perform sampleCalls (create true) = .ok ⟨⟩ t ∧
    ∃ pieces : List Piece, pieces.filterMap Piece.user = (typed sampleCalls).map translated ∧
      t.dataSent ++ t.mWriteBuf = pieces.flatMap Piece.bytes := by
  obtain ⟨t, hrun, _⟩ := sampleCalls_return
  exact ⟨t, hrun, writes_in_order hrun⟩

/-- The range lies in the array. -/
def InRange (bytes : List JByte) (offset count : Nat) : Prop := offset + count ≤ bytes.length

theorem not_outOfRange {bytes : List JByte} {offset count : Nat} (h : InRange bytes offset count) :
    ¬ OutOfRange bytes offset count := by
  unfold InRange at h
  unfold OutOfRange
  omega

def Throws (x : TelnetM Unit) (s : TelnetSession) : Prop := ∃ e u, x s = .error e u

theorem doWrite_throws_iff {data : List JByte} {offset count : Nat}
    (hrange : InRange data offset count) :
    Throws (doWrite data offset count) s ↔
      s.peerSuppressedGoAhead = false ∧ bufferLength < count := by
  constructor
  · rintro ⟨e, u, hthrow⟩
    cases hpeer : s.peerSuppressedGoAhead with
    | true =>
        rw [doWrite_suppressed data offset count hpeer] at hthrow
        cases hthrow
    | false =>
        refine ⟨rfl, Nat.lt_of_not_le fun hfits => ?_⟩
        rw [doWrite_fits hpeer hrange hfits] at hthrow
        cases hthrow
  · rintro ⟨hpeer, hlong⟩
    obtain ⟨u, hthrow⟩ := @doWrite_overflows s data offset count hpeer (.inl hlong)
    exact ⟨_, u, hthrow⟩

/-- The echo behind a `doWrite` does not throw. -/
theorem throws_echo_iff {x : TelnetM Unit} {data : List JByte} :
    Throws (do
      x
      when ((← get).mIsRunning ∧ ¬ (← get).peerEchoesInput) (modify (doLocalEcho data))) s ↔
      Throws x s := by
  unfold Throws
  cases hx : x s with
  | ok a u =>
      constructor
      · rintro ⟨e, v, h⟩
        simp only [bind, EStateM.bind, hx, get_apply, when] at h
        split_ifs at h <;> cases h
      · rintro ⟨e, v, h⟩
        cases h
  | error e u =>
      simp only [bind, EStateM.bind, hx]

theorem write_throws_iff {bytes : List JByte} {offset count : Nat}
    (hrange : InRange bytes offset count) :
    Throws (write bytes offset count) s ↔
      s.peerSuppressedGoAhead = false ∧
        bufferLength < (translated (slice bytes offset count)).length := by
  unfold write
  by_cases hcr : cr ∉ slice bytes offset count
  · simp only [if_neg (not_outOfRange hrange), if_pos hcr]
    rw [translated_of_not_mem hcr, length_slice hrange]
    exact throws_echo_iff.trans (doWrite_throws_iff hrange)
  · simp only [if_neg (not_outOfRange hrange), if_neg hcr]
    exact throws_echo_iff.trans (doWrite_throws_iff (Nat.le_of_eq (Nat.zero_add _)))

/-- Along every history the queue fits into its array and is empty while the peer takes
data directly; a call of `write` throws when, and only when, its bytes have to wait for a
go-ahead and are more than the whole array; a call of `processInput` never does. -/
theorem write_throws_iff_of_history {isRunning : Bool} {calls : List Call}
    (h : runAll perform calls (create isRunning) = .ok ⟨⟩ t) :
    t.mWriteBuf.length ≤ 4096 ∧ (t.peerSuppressedGoAhead = true → t.mWriteBuf = []) ∧
      (∀ bytes offset count, offset + count ≤ bytes.length →
        (Throws (write bytes offset count) t ↔ t.peerSuppressedGoAhead = false ∧
          4096 < (translated (slice bytes offset count)).length)) ∧
      ∀ buffer offset count, offset + count ≤ buffer.length →
        ¬ Throws (processInput buffer offset count) t := by
  have hqueue := (outgoing_of_history h).1
  refine ⟨hqueue.fits, hqueue.direct, fun bytes offset count hrange => write_throws_iff hrange, ?_⟩
  rintro buffer offset count hrange ⟨e, u, hthrow⟩
  rw [processInput_eq (not_outOfRange hrange)] at hthrow
  cases hthrow

theorem write_throws_sample : ∃ t, runAll perform sampleCalls (create true) = .ok ⟨⟩ t ∧
    t.mWriteBuf.length ≤ 4096 ∧
      Throws (write (List.replicate 4097 65) 0 4097) t := by
  obtain ⟨t, hrun, hpeer⟩ := sampleCalls_return
  obtain ⟨hfits, _, hthrows, _⟩ := write_throws_iff_of_history hrun
  have hlength : (List.replicate 4097 (65 : JByte)).length = 4097 := List.length_replicate
  refine ⟨t, hrun, hfits, (hthrows _ 0 4097 (by omega)).mpr ⟨hpeer, ?_⟩⟩
  have hcr : cr ∉ slice (List.replicate 4097 (65 : JByte)) 0 4097 := by
    intro hmem
    have hin := List.mem_of_mem_drop (List.mem_of_mem_take hmem)
    exact absurd (List.eq_of_mem_replicate hin) (by decide)
  rw [translated_of_not_mem hcr, length_slice (by omega)]
  decide

/-! ## §4  What waits -/

/-- The bytes that let the queue go, as the automaton reads them. -/
def Decoder.Releases (d : Decoder) (b : JByte) : Prop :=
  d = .text ∧ b = cmdGa ∨ d = .option cmdWill ∧ b = optionSuppressGoAhead

/-- One of `bytes` lets the queue go. -/
def Decoder.ReleasesIn : Decoder → List JByte → Prop
  | _, [] => False
  | d, b :: bytes => d.Releases b ∨ (d.next b).ReleasesIn bytes

theorem decoder_releases {b : JByte} (h : Releases s b) : s.decoder.Releases b := by
  rcases h with ⟨hin, hparameters, hcommand, hb⟩ | ⟨hin, hb, _⟩
  · refine .inr ⟨?_, hb⟩
    unfold decoder
    rw [hin, hparameters, hcommand]
    rfl
  · refine .inl ⟨?_, hb⟩
    unfold decoder
    rw [hin]
    rfl

theorem releases_of_decoder {b : JByte} (hpeer : s.peerSuppressedGoAhead = false)
    (h : s.decoder.Releases b) : Releases s b := by
  rcases h with ⟨hd, hb⟩ | ⟨hd, hb⟩
  · exact .inr ⟨mInTelnetCommand_of_text hd, hb, hpeer⟩
  · refine .inl ?_
    unfold decoder at hd
    split_ifs at hd with hin hparameters hnegotiation
    exact ⟨hin, eq_false_of_ne_true hparameters, Decoder.option.inj hd, hb⟩

/-- What has been written since `s`, with nothing let go. -/
structure Waiting (s t : TelnetSession) (written : List (List JByte)) : Prop where
  settled : Settled t
  peer : t.peerSuppressedGoAhead = false
  sent : t.dataSent = s.dataSent
  queue : t.mWriteBuf = s.mWriteBuf ++ (written.map translated).flatten

theorem Waiting.written {w : List (List JByte)} {data : List JByte} (h : Waiting s t w)
    (hroom : (s.mWriteBuf ++ ((w ++ [data]).map translated).flatten).length ≤ bufferLength)
    (echo : List JByte) :
    Waiting s ((t.accept (translated data)).echoLocally echo) (w ++ [data]) := by
  have hqueue : t.mWriteBuf ++ translated data =
      s.mWriteBuf ++ ((w ++ [data]).map translated).flatten := by
    rw [h.queue]
    simp
  have haccept : t.accept (translated data) =
      { t with mWriteBuf := t.mWriteBuf ++ translated data } := by
    have hne : ¬ t.peerSuppressedGoAhead = true := by
      rw [h.peer]
      exact Bool.false_ne_true
    have hfits : ¬ t.mWriteBuf.length + (translated data).length > bufferLength := by
      rw [← hqueue, List.length_append] at hroom
      omega
    simp only [accept, if_neg hne, queued, if_neg hfits]
  refine ⟨(sameCommand_written _ echo).settled h.settled, ?_, ?_, ?_⟩
  all_goals
    rw [haccept]
    unfold echoLocally
  · split_ifs <;> exact h.peer
  · split_ifs <;> exact h.sent
  · split_ifs <;> exact hqueue

theorem Waiting.received {w : List (List JByte)} (h : Waiting s t w) {bytes rest : List JByte}
    (hquiet : ¬ t.decoder.ReleasesIn (bytes ++ rest)) :
    Waiting s (t.receiveAll bytes) w ∧ ¬ (t.receiveAll bytes).decoder.ReleasesIn rest := by
  induction bytes generalizing t with
  | nil => exact ⟨h, hquiet⟩
  | cons b bytes ih =>
      have hb : ¬ Releases t b := fun hr => hquiet (.inl (decoder_releases hr))
      obtain ⟨u, hreads, hu⟩ := reads_receive (s := t) b
      obtain ⟨hdecoder, hsettled⟩ := hreads.decoder h.settled
      rcases receive_queue (s := t) b with ⟨hr, _⟩ | ⟨_, hkept⟩
      · exact absurd hr hb
      · refine ih (t := t.receive b) ⟨?_, ?_, hkept.sent.trans h.sent, hkept.queue.trans h.queue⟩ ?_
        · rw [hu]
          exact hsettled
        · refine eq_false_of_ne_true fun hpeer => ?_
          have hfalse := hkept.peer hpeer
          rw [h.peer] at hfalse
          cases hfalse
        · rw [hu, setLast_decoder, hdecoder]
          exact fun hlater => hquiet (.inr hlater)

theorem Waiting.history {w : List (List JByte)} {u : TelnetSession} (h : Waiting s u w)
    {calls : List Call} (hrun : runAll perform calls u = .ok ⟨⟩ t)
    (hroom : (s.mWriteBuf ++ ((w ++ typed calls).map translated).flatten).length ≤ bufferLength)
    (hquiet : ¬ u.decoder.ReleasesIn (arrived calls)) : Waiting s t (w ++ typed calls) := by
  induction calls generalizing u w with
  | nil =>
      rw [runAll_nil_eq_ok hrun, typed, List.append_nil]
      exact h
  | cons c calls ih =>
      obtain ⟨_, v, hc, hrest⟩ := bind_eq_ok hrun
      cases c with
      | write bytes offset count =>
          have htyped : w ++ typed (.write bytes offset count :: calls) =
              (w ++ [slice bytes offset count]) ++ typed calls :=
            (List.append_assoc w [slice bytes offset count] (typed calls)).symm
          rw [htyped] at hroom ⊢
          obtain ⟨rfl, _⟩ := write_ok hc
          refine ih (h.written ?_ _) hrest hroom ?_
          · refine Nat.le_trans ?_ hroom
            simp only [List.map_append, List.flatten_append, List.length_append]
            omega
          · rw [(sameCommand_written _ _).decoder]
            exact hquiet
      | processInput buffer offset count =>
          obtain rfl := processInput_ok hc
          obtain ⟨hwaiting, hlater⟩ := h.received hquiet
          exact ih hwaiting hrest hroom hlater

/-- The items that let the queue go: the byte 249 in the text, and `WILL SUPPRESS-GO-AHEAD`. -/
def Item.Releases (item : Item) : Prop :=
  item = .text cmdGa ∨ item = .option cmdWill optionSuppressGoAhead

theorem quiet_parameters {bytes rest : List JByte} (hse : cmdSe ∉ bytes)
    (hrest : ¬ Decoder.text.ReleasesIn rest) :
    ¬ Decoder.parameters.ReleasesIn (bytes ++ cmdSe :: rest) := by
  induction bytes with
  | nil =>
      rintro ((⟨hd, _⟩ | ⟨hd, _⟩) | hlater)
      · cases hd
      · cases hd
      · exact hrest hlater
  | cons b bytes ih =>
      rw [List.mem_cons, not_or] at hse
      rintro ((⟨hd, _⟩ | ⟨hd, _⟩) | hlater)
      · cases hd
      · cases hd
      · rw [show Decoder.next .parameters b = .parameters from if_neg (Ne.symm hse.1)] at hlater
        exact ih hse.2 hlater

theorem quiet_item {item : Item} (hwf : item.WellFormed) (hitem : ¬ item.Releases)
    {rest : List JByte} (hrest : ¬ Decoder.text.ReleasesIn rest) :
    ¬ Decoder.text.ReleasesIn (item.encode ++ rest) := by
  cases item with
  | text b =>
      have hiac : b ≠ iac := hwf
      rintro ((⟨_, hb⟩ | ⟨hd, _⟩) | hlater)
      · exact hitem (.inl (congrArg Item.text hb))
      · cases hd
      · rw [show Decoder.next .text b = .text from if_neg hiac] at hlater
        exact hrest hlater
  | command c =>
      rintro ((⟨_, hb⟩ | ⟨hd, _⟩) | (⟨hd, _⟩ | ⟨hd, _⟩) | hlater)
      · exact absurd hb (by decide)
      · cases hd
      · cases hd
      · cases hd
      · rw [show Decoder.next .text iac = .command from rfl,
          show Decoder.next .command c = .text from by
            simp only [Decoder.next, if_neg hwf.1, if_neg hwf.2]] at hlater
        exact hrest hlater
  | option c o =>
      have hc : IsNegotiation c := hwf
      have hsb : c ≠ cmdSb := by
        rintro rfl
        exact absurd hc (by decide)
      have hnext : Decoder.next .command c = .option c := by
        simp only [Decoder.next, if_neg hsb, if_pos hc]
      rintro ((⟨_, hb⟩ | ⟨hd, _⟩) | (⟨hd, _⟩ | ⟨hd, _⟩) | hlater)
      · exact absurd hb (by decide)
      · cases hd
      · cases hd
      · cases hd
      · rw [show Decoder.next .text iac = .command from rfl, hnext] at hlater
        rcases hlater with (⟨hd, _⟩ | ⟨hd, ho⟩) | hlater
        · cases hd
        · exact hitem (.inr (by rw [ho, Decoder.option.inj hd]))
        · exact hrest hlater
  | parameters bytes =>
      rintro ((⟨_, hb⟩ | ⟨hd, _⟩) | (⟨hd, _⟩ | ⟨hd, _⟩) | hlater)
      · exact absurd hb (by decide)
      · cases hd
      · cases hd
      · cases hd
      · refine quiet_parameters hwf hrest ?_
        have hsplit : Decoder.parameters.ReleasesIn (bytes ++ [cmdSe] ++ rest) := hlater
        rw [List.append_assoc] at hsplit
        exact hsplit

theorem quiet_items {items : List Item} (hwf : ∀ item ∈ items, item.WellFormed)
    (hitems : ∀ item ∈ items, ¬ item.Releases) :
    ¬ Decoder.text.ReleasesIn (items.flatMap Item.encode) := by
  induction items with
  | nil => exact id
  | cons item items ih =>
      obtain ⟨hitem, hrest⟩ := List.forall_mem_cons.mp hwf
      obtain ⟨hquiet, hquiets⟩ := List.forall_mem_cons.mp hitems
      exact quiet_item hitem hquiet (ih hrest hquiets)

/-- While the peer has not suppressed go-ahead, whatever is written waits, through all that
arrives but a bare byte 249 and `WILL SUPPRESS-GO-AHEAD`.  The command `IAC GA`, with which
the protocol hands over the line, is among what it waits through. -/
theorem held_back {isRunning : Bool} {earlier calls : List Call} {items : List Item}
    (hs : runAll perform earlier (create isRunning) = .ok ⟨⟩ s)
    (hpeer : s.peerSuppressedGoAhead = false) (htext : s.decoder = .text)
    (h : runAll perform calls s = .ok ⟨⟩ t)
    (hroom : (s.mWriteBuf ++ ((typed calls).map translated).flatten).length ≤ 4096)
    (hwf : ∀ item ∈ items, item.WellFormed) (hitems : arrived calls = items.flatMap Item.encode)
    (hquiet : ∀ item ∈ items, item ≠ .text cmdGa ∧ item ≠ .option cmdWill optionSuppressGoAhead) :
    t.dataSent = s.dataSent ∧
      t.mWriteBuf = s.mWriteBuf ++ ((typed calls).map translated).flatten := by
  have hwaiting : Waiting s s [] :=
    ⟨(follows_of_history hs).settled, hpeer, rfl, (List.append_nil _).symm⟩
  have hlast := hwaiting.history h hroom (by
    rw [htext, hitems]
    exact quiet_items hwf fun item hitem => not_or.mpr (hquiet item hitem))
  exact ⟨hlast.sent, hlast.queue⟩

theorem held_back_sample : ∃ s t, runAll perform [.processInput [255, 252, 3] 0 3]
      (create true) = .ok ⟨⟩ s ∧
    runAll perform [.write [104, 105] 0 2, .processInput [255, 249] 0 2] s = .ok ⟨⟩ t ∧
    t.dataSent = s.dataSent ∧ t.mWriteBuf = [104, 105] := by
  have hrun : ∃ s t, runAll perform [.processInput [255, 252, 3] 0 3] (create true) = .ok ⟨⟩ s ∧
      runAll perform [.write [104, 105] 0 2, .processInput [255, 249] 0 2] s = .ok ⟨⟩ t ∧
      s.peerSuppressedGoAhead = false ∧ s.decoder = .text ∧ s.mWriteBuf = [] :=
    ⟨_, _, rfl, rfl, rfl, rfl, rfl⟩
  obtain ⟨s, t, hs, ht, hpeer, htext, hempty⟩ := hrun
  have hwf : ∀ item ∈ [Item.command cmdGa], item.WellFormed := by decide
  have hheld := held_back hs hpeer htext ht (by rw [hempty]; decide) hwf rfl (by decide)
  rw [hempty] at hheld
  exact ⟨s, t, hs, ht, hheld⟩

/-- A byte that releases the queue sends all that has been written, in order. -/
theorem all_sent_on_release {isRunning : Bool} {calls : List Call}
    (h : runAll perform calls (create isRunning) = .ok ⟨⟩ s) {b : JByte}
    (hpeer : s.peerSuppressedGoAhead = false) (hb : s.decoder.Releases b) :
    (s.receive b).mWriteBuf = [] ∧ ∃ pieces : List Piece,
      pieces.filterMap Piece.user = (typed calls).map translated ∧
        (s.receive b).dataSent = pieces.flatMap Piece.bytes := by
  obtain ⟨pieces, huser, hout⟩ := (outgoing_of_history h).2
  have hreleases := releases_of_decoder hpeer hb
  rcases receive_queue (s := s) b with ⟨_, mark, hreleased⟩ | ⟨hno, _⟩
  · refine ⟨hreleased.queue, ?_⟩
    have hsent : (s.receive b).dataSent = pieces.flatMap Piece.bytes ++ mark := by
      rw [hreleased.sent, ← hout]
    rcases hreleased.mark with rfl | rfl
    · exact ⟨pieces, huser, hsent.trans (List.append_nil _)⟩
    · refine ⟨pieces ++ [.goAhead], ?_, ?_⟩
      · rw [List.filterMap_append, huser]
        exact List.append_nil _
      · rw [hsent, List.flatMap_append]
        rfl
  · exact absurd hreleases hno

theorem all_sent_on_release_sample : ∃ s, runAll perform sampleCalls (create true) = .ok ⟨⟩ s ∧
    (s.receive cmdGa).mWriteBuf = [] ∧ ∃ pieces : List Piece,
      pieces.filterMap Piece.user = (typed sampleCalls).map translated ∧
        (s.receive cmdGa).dataSent = pieces.flatMap Piece.bytes := by
  have hrun : ∃ s, runAll perform sampleCalls (create true) = .ok ⟨⟩ s ∧
      s.peerSuppressedGoAhead = false ∧ s.decoder = .text := ⟨_, rfl, rfl, rfl⟩
  obtain ⟨s, hs, hpeer, htext⟩ := hrun
  exact ⟨s, hs, all_sent_on_release hs hpeer (.inl ⟨htext, rfl⟩)⟩

end Kbox.Telnet
