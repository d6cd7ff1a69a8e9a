import Kbox.Telnet.TelnetSession
import Kbox.Framework.Histories

/-!
# What one byte and one write do

`receive` is the session after one more byte of input, `accept` the session that has
taken bytes to send.  A call of `processInput` is `receive` for each of its bytes, so the
calls the input is cut into do not matter; a call of `write` that returns is `accept` and
a local echo.
-/

namespace Kbox.Telnet

open Kbox.Framework

namespace TelnetSession

/-! ## §1  Bytes to send -/

/-- The queue with more bytes in it, flushed before if they do not fit behind it. -/
def queued (data : List JByte) (s : TelnetSession) : TelnetSession :=
  if s.mWriteBuf.length + data.length > bufferLength then
    { s.flushWriteBuf with mWriteBuf := data }
  else { s with mWriteBuf := s.mWriteBuf ++ data }

def accept (data : List JByte) (s : TelnetSession) : TelnetSession :=
  if s.peerSuppressedGoAhead then s.superWrite (.data data) else s.queued data

def echoLocally (data : List JByte) (s : TelnetSession) : TelnetSession :=
  if s.mIsRunning ∧ ¬ s.peerEchoesInput then s.doLocalEcho data else s

/-! ## §2  Bytes received -/

/-- A go-ahead, as the bare byte. -/
def goAhead (s : TelnetSession) : TelnetSession :=
  if s.peerSuppressedGoAhead then s
  else if s.suppressGoAhead then s.flushWriteBuf
  else (s.queued [iac, cmdGa]).flushWriteBuf

def echoBack (b : JByte) (s : TelnetSession) : TelnetSession :=
  if s.echoInput then s.doEchoInput b else s

def startCommand (s : TelnetSession) : TelnetSession :=
  if s.peerIsTelnetd then { s with mInTelnetCommand := true }
  else doTelnetInit { s with mInTelnetCommand := true }

/-- `curByte` processed behind `lastByte`. -/
def received (curByte lastByte : JByte) (s : TelnetSession) : TelnetSession :=
  if s.mInTelnetCommand then s.doTelnetCommand curByte
  else if curByte = iac then s.startCommand
  else if curByte = cmdGa then s.goAhead
  else if curByte = nul ∧ lastByte = cr then s.echoBack 0
  else (s.superProcessInput [curByte]).echoBack curByte

def setLast (b : JByte) (s : TelnetSession) : TelnetSession :=
  { s with mLastInputByteProcessed := b }

def receive (b : JByte) (s : TelnetSession) : TelnetSession :=
  (received b s.mLastInputByteProcessed s).setLast b

def receiveAll (bytes : List JByte) (s : TelnetSession) : TelnetSession :=
  bytes.foldl (fun s b => s.receive b) s

end TelnetSession

open TelnetSession

variable {s t : TelnetSession}

/-! ## §3  Calls -/

theorem doWrite_suppressed (data : List JByte) (offset count : Nat)
    (h : s.peerSuppressedGoAhead = true) :
    doWrite data offset count s = .ok ⟨⟩ (s.accept (slice data offset count)) := by
  simp only [doWrite, bind, EStateM.bind, get_apply, h, if_true, modify_apply, accept]

theorem length_slice {data : List JByte} {offset count : Nat} (h : offset + count ≤ data.length) :
    (slice data offset count).length = count := by
  unfold slice
  rw [List.length_take, List.length_drop]
  omega

theorem doWrite_fits {data : List JByte} {offset count : Nat} (h : s.peerSuppressedGoAhead = false)
    (hrange : offset + count ≤ data.length) (hfits : count ≤ bufferLength) :
    doWrite data offset count s = .ok ⟨⟩ (s.accept (slice data offset count)) := by
  have hne : ¬ s.peerSuppressedGoAhead = true := by simp [h]
  simp only [doWrite, bind, EStateM.bind, get_apply, if_neg hne, when, accept, queued,
    length_slice hrange]
  by_cases hfull : s.mWriteBuf.length + count > bufferLength
  · have hempty : ¬ (s.flushWriteBuf.mWriteBuf.length + count > bufferLength ∨
        data.length < offset + count) := by
      simp only [flushWriteBuf, List.length_nil]
      omega
    simp only [if_pos hfull, modify_apply, if_neg hempty, pure]
    rfl
  · have hroom : ¬ (s.mWriteBuf.length + count > bufferLength ∨
        data.length < offset + count) := by
      omega
    simp only [if_neg hfull, if_neg hroom, pure, EStateM.pure, modify_apply]

theorem doWrite_overflows {data : List JByte} {offset count : Nat}
    (h : s.peerSuppressedGoAhead = false)
    (hlong : bufferLength < count ∨ data.length < offset + count) :
    ∃ u, doWrite data offset count s = .error .arrayIndexOutOfBounds u := by
  simp only [doWrite, bind, EStateM.bind, get_apply, h, Bool.false_eq_true, if_false, when]
  by_cases hfull : s.mWriteBuf.length + count > bufferLength
  · have hthrow : s.flushWriteBuf.mWriteBuf.length + count > bufferLength ∨
        data.length < offset + count := by
      simp only [flushWriteBuf, List.length_nil]
      omega
    simp only [if_pos hfull, modify_apply, if_pos hthrow]
    exact ⟨_, rfl⟩
  · have hthrow : s.mWriteBuf.length + count > bufferLength ∨ data.length < offset + count := by
      omega
    simp only [if_neg hfull, if_pos hthrow, pure, EStateM.pure]
    exact ⟨_, rfl⟩

theorem processByte_eq (b lastByte : JByte) :
    processByte b lastByte s = .ok ⟨⟩ (s.received b lastByte) := by
  simp only [processByte, bind, EStateM.bind, get_apply, received]
  by_cases hcommand : s.mInTelnetCommand = true
  · simp only [if_pos hcommand, modify_apply]
  simp only [if_neg hcommand]
  by_cases hiac : b = iac
  · simp only [if_pos hiac, when, startCommand]
    cases htelnet : s.peerIsTelnetd <;>
      simp [EStateM.bind, get_apply, modify_apply, htelnet, pure, EStateM.pure]
  simp only [if_neg hiac]
  by_cases hga : b = cmdGa
  · simp only [if_pos hga, when, goAhead]
    cases hpeer : s.peerSuppressedGoAhead with
    | true => simp [EStateM.bind, get_apply, hpeer, pure, EStateM.pure]
    | false =>
        cases hself : s.suppressGoAhead with
        | true => simp [EStateM.bind, get_apply, hpeer, hself, pure, EStateM.pure, modify_apply]
        | false =>
            have hwrite : doWrite [iac, cmdGa] 0 2 s = .ok ⟨⟩ (s.queued [iac, cmdGa]) := by
              rw [doWrite_fits hpeer (by decide) (by decide)]
              unfold accept
              rw [hpeer]
              rfl
            simp [EStateM.bind, get_apply, hpeer, hself, hwrite, modify_apply]
  simp only [if_neg hga]
  by_cases hnul : b = nul ∧ lastByte = cr
  · simp only [if_pos hnul, when, echoBack]
    cases hecho : s.echoInput <;>
      simp [EStateM.bind, get_apply, modify_apply, hecho, pure, EStateM.pure]
  · simp only [if_neg hnul, when, echoBack]
    cases hecho : s.echoInput <;>
      simp [EStateM.bind, get_apply, modify_apply, superProcessInput, hecho, pure, EStateM.pure]

/-! ## §4  The byte kept between calls -/

section
variable (b c y : JByte)

theorem sendOptionIf_setLast (condition : Bool) (command option : JByte) :
    (s.setLast y).sendOptionIf condition command option =
      (s.sendOptionIf condition command option).setLast y := by
  cases condition <;> rfl

theorem handleWillOption_setLast :
    (s.setLast y).handleWillOption c = (s.handleWillOption c).setLast y := by
  unfold handleWillOption
  split_ifs with hecho hga
  · simp only [sendOptionIf_setLast]
    rfl
  · simp only [sendOptionIf_setLast]
    rfl
  · rfl

theorem handleWontOption_setLast :
    (s.setLast y).handleWontOption c = (s.handleWontOption c).setLast y := by
  unfold handleWontOption
  split_ifs with hecho hga
  · simp only [sendOptionIf_setLast]
    rfl
  · simp only [sendOptionIf_setLast]
    rfl
  · rfl

theorem handleDoOption_setLast :
    (s.setLast y).handleDoOption c = (s.handleDoOption c).setLast y := by
  unfold handleDoOption
  split_ifs with hecho hga
  · rfl
  · simp only [sendOptionIf_setLast]
    rfl
  · rfl

theorem handleDontOption_setLast :
    (s.setLast y).handleDontOption c = (s.handleDontOption c).setLast y := by
  unfold handleDontOption
  split_ifs with hecho hga
  · simp only [sendOptionIf_setLast]
    rfl
  · simp only [sendOptionIf_setLast]
    rfl
  · rfl

theorem doPlainCommand_setLast :
    (s.setLast y).doPlainCommand c = (s.doPlainCommand c).setLast y := by
  simp only [doPlainCommand, apply_ite (setLast y)]
  rfl

theorem doTelnetCommand_setLast :
    (s.setLast y).doTelnetCommand c = (s.doTelnetCommand c).setLast y := by
  have hmulti : (s.setLast y).mMultipleParameters = s.mMultipleParameters := rfl
  have hcommand : (s.setLast y).mTelnetCommand = s.mTelnetCommand := rfl
  simp only [doTelnetCommand, handleWillOption_setLast, handleWontOption_setLast,
    handleDoOption_setLast, handleDontOption_setLast, doPlainCommand_setLast, hmulti, hcommand,
    apply_ite (setLast y)]
  rfl

theorem queued_setLast (data : List JByte) :
    (s.setLast y).queued data = (s.queued data).setLast y := by
  unfold queued
  rw [apply_ite (setLast y)]
  rfl

theorem goAhead_setLast : (s.setLast y).goAhead = s.goAhead.setLast y := by
  simp only [goAhead, queued_setLast, apply_ite (setLast y)]
  rfl

theorem received_setLast : (s.setLast y).received c b = (s.received c b).setLast y := by
  have hcommand : (s.setLast y).mInTelnetCommand = s.mInTelnetCommand := rfl
  simp only [received, doTelnetCommand_setLast, goAhead_setLast, hcommand, startCommand, echoBack,
    apply_ite (setLast y)]
  rfl

end

/-- The loop over a call's bytes keeps the last byte apart, and stores it at the end. -/
theorem processBytes_eq (bytes : List JByte) (lastByte : JByte) :
    ∃ b t, processBytes bytes lastByte s = .ok b t ∧
      t.setLast b = (s.setLast lastByte).receiveAll bytes := by
  induction bytes generalizing lastByte s with
  | nil => exact ⟨lastByte, s, rfl, rfl⟩
  | cons b bytes ih =>
      obtain ⟨c, t, hok, ht⟩ := ih (s := s.received b lastByte) b
      refine ⟨c, t, ?_, ?_⟩
      · simp only [processBytes, bind, EStateM.bind, processByte_eq, hok]
      · rw [ht]
        unfold receiveAll
        rw [List.foldl_cons]
        congr 1
        change _ = ((s.setLast lastByte).received b lastByte).setLast b
        rw [received_setLast]
        rfl

theorem setLast_self : s.setLast s.mLastInputByteProcessed = s := rfl

/-- A call of `processInput` is its bytes, one by one. -/
theorem processInput_eq {buffer : List JByte} {offset count : Nat}
    (h : ¬ OutOfRange buffer offset count) :
    processInput buffer offset count s = .ok ⟨⟩ (s.receiveAll (slice buffer offset count)) := by
  obtain ⟨b, t, hok, ht⟩ := processBytes_eq (slice buffer offset count) s.mLastInputByteProcessed
    (s := s)
  simp only [processInput, bind, EStateM.bind, get_apply, hok, if_neg h,
    modify_apply]
  rw [setLast_self] at ht
  exact congrArg _ ht

/-! ## §5  Histories -/

theorem doWrite_ok {data : List JByte} {offset count : Nat}
    (h : doWrite data offset count s = .ok ⟨⟩ t) :
    t = s.accept (slice data offset count) ∧
      (s.peerSuppressedGoAhead = false → (slice data offset count).length ≤ bufferLength) := by
  cases hpeer : s.peerSuppressedGoAhead with
  | true =>
      rw [doWrite_suppressed data offset count hpeer] at h
      cases h
      exact ⟨rfl, fun hfalse => by cases hfalse⟩
  | false =>
      by_cases hfits : count ≤ bufferLength ∧ offset + count ≤ data.length
      · rw [doWrite_fits hpeer hfits.2 hfits.1] at h
        cases h
        refine ⟨rfl, fun _ => ?_⟩
        rw [length_slice hfits.2]
        exact hfits.1
      · obtain ⟨u, hthrow⟩ := @doWrite_overflows s data offset count hpeer (by omega)
        rw [hthrow] at h
        cases h

theorem translated_of_not_mem {data : List JByte} (h : cr ∉ data) : translated data = data := by
  induction data with
  | nil => rfl
  | cons b data ih =>
      rw [List.mem_cons, not_or] at h
      rw [translated, if_neg (Ne.symm h.1), ih h.2]

theorem slice_all (data : List JByte) : slice data 0 data.length = data := by
  unfold slice
  rw [List.drop_zero, List.take_length]

theorem echo_ok {data : List JByte}
    (h : (do when ((← get).mIsRunning ∧ ¬ (← get).peerEchoesInput) (modify (doLocalEcho data)) :
      TelnetM Unit) s = .ok ⟨⟩ t) : t = s.echoLocally data := by
  simp only [bind, EStateM.bind, get_apply, when] at h
  unfold echoLocally
  split_ifs at h ⊢ with hcond
  · rw [modify_apply] at h
    cases h
    rfl
  · cases h
    rfl

/-- A call of `write` that returns. -/
theorem write_ok {bytes : List JByte} {offset count : Nat}
    (h : write bytes offset count s = .ok ⟨⟩ t) :
    t = (s.accept (translated (slice bytes offset count))).echoLocally
      (echoed bytes offset count) ∧
      (s.peerSuppressedGoAhead = false →
        (translated (slice bytes offset count)).length ≤ bufferLength) := by
  unfold write at h
  by_cases hrange : OutOfRange bytes offset count
  · simp only [if_pos hrange, bind, EStateM.bind] at h
    cases h
  simp only [if_neg hrange] at h
  unfold echoed
  by_cases hcr : cr ∉ slice bytes offset count
  · simp only [if_pos hcr] at h ⊢
    obtain ⟨_, u, hwrite, hecho⟩ := bind_eq_ok h
    obtain ⟨rfl, hfits⟩ := doWrite_ok hwrite
    rw [translated_of_not_mem hcr]
    exact ⟨echo_ok hecho, hfits⟩
  · simp only [if_neg hcr] at h ⊢
    obtain ⟨_, u, hwrite, hecho⟩ := bind_eq_ok h
    obtain ⟨rfl, hfits⟩ := doWrite_ok hwrite
    rw [slice_all] at hfits hecho
    exact ⟨echo_ok hecho, hfits⟩

theorem processInput_ok {buffer : List JByte} {offset count : Nat}
    (h : processInput buffer offset count s = .ok ⟨⟩ t) :
    t = s.receiveAll (slice buffer offset count) := by
  by_cases hrange : OutOfRange buffer offset count
  · obtain ⟨b, u, hok, _⟩ := processBytes_eq (slice buffer offset count) s.mLastInputByteProcessed
      (s := s)
    simp only [processInput, bind, EStateM.bind, get_apply, hok, if_pos hrange] at h
    cases h
  · rw [processInput_eq hrange] at h
    cases h
    rfl

/-- The calls the rest of the program makes. -/
inductive Call where
  /-- From the terminal: keys, pastes and the emulator's answers. -/
  | write (bytes : List JByte) (offset count : Nat)
  /-- From the message of the reader thread. -/
  | processInput (buffer : List JByte) (offset count : Nat)

def perform : Call → TelnetM Unit
  | .write bytes offset count => write bytes offset count
  | .processInput buffer offset count => processInput buffer offset count

/-- What is written in a history, call by call. -/
def typed : List Call → List (List JByte)
  | [] => []
  | .write bytes offset count :: calls => slice bytes offset count :: typed calls
  | .processInput _ _ _ :: calls => typed calls

/-- What arrives from the network in a history. -/
def arrived : List Call → List JByte
  | [] => []
  | .write _ _ _ :: calls => arrived calls
  | .processInput buffer offset count :: calls => slice buffer offset count ++ arrived calls

theorem typed_append (cs ds : List Call) : typed (cs ++ ds) = typed cs ++ typed ds := by
  induction cs with
  | nil => rfl
  | cons c cs ih =>
      cases c with
      | write bytes offset count => exact congrArg (slice bytes offset count :: ·) ih
      | processInput buffer offset count => exact ih

theorem arrived_append (cs ds : List Call) : arrived (cs ++ ds) = arrived cs ++ arrived ds := by
  induction cs with
  | nil => rfl
  | cons c cs ih =>
      cases c with
      | write bytes offset count => exact ih
      | processInput buffer offset count =>
          change slice buffer offset count ++ arrived (cs ++ ds) = _
          rw [ih]
          exact (List.append_assoc _ _ _).symm

/-- A relation between the bytes that have arrived and the session, established byte by
byte, holds along every history if no call of `write` disturbs it. -/
theorem arrived_history {Q : List JByte → TelnetSession → Prop} (h0 : Q [] s)
    (hwrite : ∀ bytes u data echo, Q bytes u → Q bytes ((u.accept data).echoLocally echo))
    (hbyte : ∀ bytes u b, Q bytes u → Q (bytes ++ [b]) (u.receive b)) {calls : List Call}
    (h : runAll perform calls s = .ok ⟨⟩ t) : Q (arrived calls) t := by
  refine runAll_history (P := fun calls t => Q (arrived calls) t) h0 ?_ h
  intro calls c u v hQ hc
  rw [arrived_append]
  cases c with
  | write bytes offset count =>
      rw [(write_ok hc).1, show arrived [.write bytes offset count] = [] from rfl,
        List.append_nil]
      exact hwrite _ _ _ _ hQ
  | processInput buffer offset count =>
      rw [processInput_ok hc,
        show arrived [.processInput buffer offset count] = slice buffer offset count from
          List.append_nil _]
      refine foldl_history (P := fun bytes w => Q (arrived calls ++ bytes) w) ?_ ?_ _
      · rw [List.append_nil]
        exact hQ
      · intro bytes b w hw
        rw [← List.append_assoc]
        exact hbyte _ _ _ hw

/-- The server refuses to suppress its go-aheads; a line is typed, in the middle of a
command of the server. -/
def sampleCalls : List Call :=
  [.processInput [255, 252, 3, 36, 255] 0 5, .write [108, 115, 13] 0 3,
    .processInput [249, 36] 0 2]

theorem sampleCalls_return : ∃ t, runAll perform sampleCalls (create true) = .ok ⟨⟩ t ∧
    t.peerSuppressedGoAhead = false := ⟨_, rfl, rfl⟩

end Kbox.Telnet
