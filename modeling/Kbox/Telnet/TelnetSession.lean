import Kbox.Framework.Exceptions

/-!
# `jackpal.androidterm.sample.telnet.TelnetSession`

A telnet client between the terminal emulator and the network.  The calls of
`super.write` and of the emulator are kept in two logs, each entry with the method
that made it.  What the emulator answers while it is given bytes is a call of
`write` of its own, right behind those bytes: no field that `processInput` has yet
to look at is one that `write` touches.
-/

namespace Kbox.Telnet

open Kbox.Framework

/-! ## §1  Bytes of the protocol -/

def iac : JByte := 255

def cmdSe : JByte := 240
def cmdEc : JByte := 247
def cmdEl : JByte := 248
def cmdGa : JByte := 249
def cmdSb : JByte := 250
def cmdWill : JByte := 251
def cmdWont : JByte := 252
def cmdDo : JByte := 253
def cmdDont : JByte := 254
def cmdAyt : JByte := 246

def optionEcho : JByte := 1
def optionSuppressGoAhead : JByte := 3

def cr : JByte := 13
def lf : JByte := 10
def nul : JByte := 0

/-- `ESC [ D` and `ESC [ P`. -/
def cmdLeft : List JByte := [27, 91, 68]
def cmdErase : List JByte := [27, 91, 80]

/-- `ESC [ 2 K` -/
def cmdEraseLine : List JByte := [27, 91, 50, 75]

/-- `"yes, I'm here\r\n".getBytes()` -/
def presence : List JByte :=
  [121, 101, 115, 44, 32, 73, 39, 109, 32, 104, 101, 114, 101, 13, 10]

/-! ## §2  State -/

/-- A call of `super.write`. -/
inductive Sent where
  /-- From `doWrite` and `flushWriteBuf`. -/
  | data (bytes : List JByte)
  /-- From `sendOption`. -/
  | option (command option : JByte)
  /-- From `doEchoInput`. -/
  | echo (byte : JByte)
  /-- The answer to `AYT`. -/
  | presence
deriving DecidableEq, Repr

/-- The bytes on the wire. -/
def Sent.bytes : Sent → List JByte
  | .data bytes => bytes
  | .option c o => [iac, c, o]
  | .echo b => [b]
  | .presence => Telnet.presence

/-- A call of the emulator: from `super.processInput`, or from `doLocalEcho`. -/
inductive Shown where
  | network (bytes : List JByte)
  | localEcho (bytes : List JByte)
deriving DecidableEq, Repr

structure TelnetSession where
  mIsRunning : Bool
  peerIsTelnetd : Bool
  peerEchoesInput : Bool
  peerSuppressedGoAhead : Bool
  echoInput : Bool
  suppressGoAhead : Bool
  doSuppressGaRequested : Bool
  willSuppressGaRequested : Bool
  mInTelnetCommand : Bool
  mTelnetCommand : JByte
  mMultipleParameters : Bool
  mLastInputByteProcessed : JByte
  /-- The first `mWriteBufLen` bytes of the array. -/
  mWriteBuf : List JByte
  sent : List Sent
  shown : List Shown
deriving DecidableEq, Repr

/-- The session as it is constructed. -/
def TelnetSession.create (isRunning : Bool) : TelnetSession where
  mIsRunning := isRunning
  peerIsTelnetd := false
  peerEchoesInput := false
  peerSuppressedGoAhead := true
  echoInput := false
  suppressGoAhead := true
  doSuppressGaRequested := false
  willSuppressGaRequested := false
  mInTelnetCommand := false
  mTelnetCommand := 0
  mMultipleParameters := false
  mLastInputByteProcessed := 0
  mWriteBuf := []
  sent := []
  shown := []

/-- `mWriteBuf.length` -/
def bufferLength : Nat := 4096

inductive TelnetExn where
  | arrayIndexOutOfBounds
deriving DecidableEq, Repr

abbrev TelnetM : Type → Type := EStateM TelnetExn TelnetSession

namespace TelnetSession

/-- `super.write` -/
def superWrite (call : Sent) (s : TelnetSession) : TelnetSession :=
  { s with sent := s.sent ++ [call] }

/-- `super.processInput` -/
def superProcessInput (bytes : List JByte) (s : TelnetSession) : TelnetSession :=
  { s with shown := s.shown ++ [.network bytes] }

/-- Echoes local input from the emulator back to the emulator screen. -/
def doLocalEcho (data : List JByte) (s : TelnetSession) : TelnetSession :=
  { s with shown := s.shown ++ [.localEcho data] }

/-! ## §3  Option negotiation -/

/-- End of command, process next byte normally. -/
def finishTelnetCommand (s : TelnetSession) : TelnetSession :=
  { s with mTelnetCommand := 0, mInTelnetCommand := false, mMultipleParameters := false }

def sendOption (command option : JByte) (s : TelnetSession) : TelnetSession :=
  s.superWrite (.option command option)

def flushWriteBuf (s : TelnetSession) : TelnetSession :=
  { s.superWrite (.data s.mWriteBuf) with mWriteBuf := [] }

def requestDoSuppressGoAhead (s : TelnetSession) : TelnetSession :=
  { s with doSuppressGaRequested := true }.sendOption cmdDo optionSuppressGoAhead

def requestWillSuppressGoAhead (s : TelnetSession) : TelnetSession :=
  { s with willSuppressGaRequested := true }.sendOption cmdWill optionSuppressGoAhead

/-- Called when the first `IAC` arrives: go-ahead is no longer suppressed, and both
directions are asked to suppress it again. -/
def doTelnetInit (s : TelnetSession) : TelnetSession :=
  let s := { s with peerSuppressedGoAhead := false, suppressGoAhead := false }
  let s := s.requestDoSuppressGoAhead.requestWillSuppressGoAhead
  { s with peerIsTelnetd := true }

/-- `if (condition) sendOption(command, option);` -/
def sendOptionIf (condition : Bool) (command option : JByte) (s : TelnetSession) :
    TelnetSession :=
  if condition then s.sendOption command option else s

def setPeerEchoesInput (value : Bool) (s : TelnetSession) : TelnetSession :=
  { s with peerEchoesInput := value }

def setEchoInput (value : Bool) (s : TelnetSession) : TelnetSession :=
  { s with echoInput := value }

/-- The peer's direction is settled, and no request about it is open. -/
def setPeerSuppressedGoAhead (value : Bool) (s : TelnetSession) : TelnetSession :=
  { s with peerSuppressedGoAhead := value, doSuppressGaRequested := false }

def setSuppressGoAhead (value : Bool) (s : TelnetSession) : TelnetSession :=
  { s with suppressGoAhead := value, willSuppressGaRequested := false }

def handleWillOption (curByte : JByte) (s : TelnetSession) : TelnetSession :=
  finishTelnetCommand <|
    if curByte = optionEcho then
      (s.sendOptionIf (!s.peerEchoesInput) cmdDo optionEcho).setPeerEchoesInput true
    else if curByte = optionSuppressGoAhead then
      let s := s.sendOptionIf (!s.doSuppressGaRequested && !s.peerSuppressedGoAhead)
        cmdDo optionSuppressGoAhead
      (s.setPeerSuppressedGoAhead true).flushWriteBuf
    else s.sendOption cmdDont curByte

def handleWontOption (curByte : JByte) (s : TelnetSession) : TelnetSession :=
  finishTelnetCommand <|
    if curByte = optionEcho then
      (s.sendOptionIf s.peerEchoesInput cmdDont optionEcho).setPeerEchoesInput false
    else if curByte = optionSuppressGoAhead then
      let s := s.sendOptionIf (!s.doSuppressGaRequested && s.peerSuppressedGoAhead)
        cmdDont optionSuppressGoAhead
      s.setPeerSuppressedGoAhead false
    else s

def handleDoOption (curByte : JByte) (s : TelnetSession) : TelnetSession :=
  finishTelnetCommand <|
    if curByte = optionEcho then s.sendOption cmdWont optionEcho
    else if curByte = optionSuppressGoAhead then
      let s := s.sendOptionIf (!s.willSuppressGaRequested && !s.suppressGoAhead)
        cmdWill optionSuppressGoAhead
      s.setSuppressGoAhead true
    else s.sendOption cmdWont curByte

def handleDontOption (curByte : JByte) (s : TelnetSession) : TelnetSession :=
  finishTelnetCommand <|
    if curByte = optionEcho then
      (s.sendOptionIf s.echoInput cmdWont optionEcho).setEchoInput false
    else if curByte = optionSuppressGoAhead then
      let s := s.sendOptionIf (!s.willSuppressGaRequested && s.suppressGoAhead)
        cmdWont curByte
      s.setSuppressGoAhead false
    else s

/-! ## §4  Commands -/

/-- The second `switch` of `doTelnetCommand`. -/
def doPlainCommand (curByte : JByte) (s : TelnetSession) : TelnetSession :=
  if curByte = cmdEc then
    ((s.superProcessInput cmdLeft).superProcessInput cmdErase).finishTelnetCommand
  else if curByte = cmdEl then (s.superProcessInput cmdEraseLine).finishTelnetCommand
  else if curByte = iac then (s.superProcessInput [iac]).finishTelnetCommand
  else if curByte = cmdSb then { s with mMultipleParameters := true }
  else if curByte = cmdWill ∨ curByte = cmdWont ∨ curByte = cmdDo ∨ curByte = cmdDont then
    { s with mTelnetCommand := curByte }
  else if curByte = cmdAyt then (s.superWrite .presence).finishTelnetCommand
  else s.finishTelnetCommand

/-- One byte behind `IAC`.  The parameters of a command are read and dropped, the first
`SE` ends them. -/
def doTelnetCommand (curByte : JByte) (s : TelnetSession) : TelnetSession :=
  if s.mMultipleParameters then
    if curByte = cmdSe then s.finishTelnetCommand else s
  else if s.mTelnetCommand = cmdWill then s.handleWillOption curByte
  else if s.mTelnetCommand = cmdWont then s.handleWontOption curByte
  else if s.mTelnetCommand = cmdDo then s.handleDoOption curByte
  else if s.mTelnetCommand = cmdDont then s.handleDontOption curByte
  else s.doPlainCommand curByte

def doEchoInput (input : JByte) (s : TelnetSession) : TelnetSession :=
  s.superWrite (.echo input)

end TelnetSession

open TelnetSession

/-! ## §5  Writing -/

/-- `bytes[offset .. offset + count)` -/
def slice (bytes : List JByte) (offset count : Nat) : List JByte :=
  (bytes.drop offset).take count

/-- Some index of the range is past the end. -/
def OutOfRange (bytes : List JByte) (offset count : Nat) : Prop :=
  0 < count ∧ bytes.length < offset + count

instance (bytes : List JByte) (offset count : Nat) : Decidable (OutOfRange bytes offset count) :=
  inferInstanceAs (Decidable (_ ∧ _))

/-- Sends the bytes, or queues them until the peer's next go-ahead.  `arraycopy` throws
when they are more than the whole buffer holds. -/
def doWrite (data : List JByte) (offset count : Nat) : TelnetM Unit := do
  if (← get).peerSuppressedGoAhead then
    modify (superWrite (.data (slice data offset count)))
  else
    when ((← get).mWriteBuf.length + count > bufferLength) (modify flushWriteBuf)
    if (← get).mWriteBuf.length + count > bufferLength ∨ data.length < offset + count then
      throw .arrayIndexOutOfBounds
    modify fun s => { s with mWriteBuf := s.mWriteBuf ++ slice data offset count }

/-- `\r` becomes `\r\n`. -/
def translated : List JByte → List JByte
  | [] => []
  | b :: bytes => if b = cr then cr :: lf :: translated bytes else b :: translated bytes

/-- Process data before sending it to the server.  Without a `\r` the whole array is
echoed, and not the range that is sent. -/
def write (bytes : List JByte) (offset count : Nat) : TelnetM Unit := do
  if OutOfRange bytes offset count then
    throw .arrayIndexOutOfBounds
  let data := slice bytes offset count
  if cr ∉ data then
    doWrite bytes offset count
    when ((← get).mIsRunning ∧ ¬ (← get).peerEchoesInput) (modify (doLocalEcho bytes))
  else
    doWrite (translated data) 0 (translated data).length
    when ((← get).mIsRunning ∧ ¬ (← get).peerEchoesInput)
      (modify (doLocalEcho (translated data)))

/-- What a call of `write` echoes: all of the array when nothing is translated in it. -/
def echoed (bytes : List JByte) (offset count : Nat) : List JByte :=
  if cr ∉ slice bytes offset count then bytes else translated (slice bytes offset count)

/-! ## §6  Reading -/

/-- The body of the loop of `processInput`. -/
def processByte (curByte lastByte : JByte) : TelnetM Unit := do
  if (← get).mInTelnetCommand then
    modify (doTelnetCommand curByte)
  else if curByte = iac then
    modify fun s => { s with mInTelnetCommand := true }
    when (¬ (← get).peerIsTelnetd) (modify doTelnetInit)
  else if curByte = cmdGa then
    when (¬ (← get).peerSuppressedGoAhead) do
      when (¬ (← get).suppressGoAhead) (doWrite [iac, cmdGa] 0 2)
      modify flushWriteBuf
  else if curByte = nul ∧ lastByte = cr then
    when (← get).echoInput (modify (doEchoInput 0))
  else
    modify (superProcessInput [curByte])
    when (← get).echoInput (modify (doEchoInput curByte))

def processBytes : List JByte → JByte → TelnetM JByte
  | [], lastByte => pure lastByte
  | b :: bytes, lastByte => do
    processByte b lastByte
    processBytes bytes b

/-- Input filter which handles Telnet commands and copies data to the terminal emulator. -/
def processInput (buffer : List JByte) (offset count : Nat) : TelnetM Unit := do
  let lastByte ← processBytes (slice buffer offset count) (← get).mLastInputByteProcessed
  if OutOfRange buffer offset count then
    throw .arrayIndexOutOfBounds
  modify fun s => { s with mLastInputByteProcessed := lastByte }

end Kbox.Telnet
