import Mathlib.Data.List.Basic
import Mathlib.Tactic.Cases
import Mathlib.Tactic.SplitIfs

/-!
# Keys of `jackpal.androidterm.emulatorview`

What a key does depends on the modifiers that were pressed before it.  Each of the four is
a small machine: it acts while it is held, a tap makes it act on the next character, and a
second tap locks it.  Key events, the menu and the input method all go through the same
listener, and what they write is recorded in its order.

The branch for eight-bit meta is left out: its flag is constantly false.
-/

namespace Kbox.Emulatorview

/-! ## §1  A modifier key -/

/-- The state engine for a modifier key. -/
inductive ModifierKey where
  | unpressed
  | pressed
  | released
  | used
  | locked
deriving DecidableEq, Repr

namespace ModifierKey

def onPress : ModifierKey → ModifierKey
  -- This is a repeat before use
  | pressed => pressed
  | released => locked
  -- This is a repeat after use
  | used => used
  | locked => unpressed
  | unpressed => pressed

def onRelease : ModifierKey → ModifierKey
  | used => unpressed
  | pressed => released
  | s => s

def adjustAfterKeypress : ModifierKey → ModifierKey
  | pressed => used
  | released => unpressed
  | s => s

def isActive (s : ModifierKey) : Bool := s ≠ unpressed

end ModifierKey

/-! ## §2  Key codes -/

def keycodeBack : Int := 4
def keycodeDpadUp : Int := 19
def keycodeDpadDown : Int := 20
def keycodeDpadLeft : Int := 21
def keycodeDpadRight : Int := 22
def keycodeDpadCenter : Int := 23
def keycodeAltLeft : Int := 57
def keycodeAltRight : Int := 58
def keycodeShiftLeft : Int := 59
def keycodeShiftRight : Int := 60
def keycodeTab : Int := 61
def keycodeEnter : Int := 66
def keycodeDel : Int := 67
def keycodePageUp : Int := 92
def keycodePageDown : Int := 93
def keycodeEscape : Int := 111
def keycodeForwardDel : Int := 112
def keycodeCtrlLeft : Int := 113
def keycodeCtrlRight : Int := 114
def keycodeCapsLock : Int := 115
def keycodeSysrq : Int := 120
def keycodeBreak : Int := 121
def keycodeMoveHome : Int := 122
def keycodeMoveEnd : Int := 123
def keycodeInsert : Int := 124
def keycodeF1 : Int := 131
def keycodeF10 : Int := 140
def keycodeF11 : Int := 141
def keycodeF12 : Int := 142
def keycodeNumLock : Int := 143
def keycodeNumpad0 : Int := 144

/-- The keys from F1 to F12, in the order of their codes. -/
def functionKeys : List String :=
  ["\x1b[OP", "\x1b[OQ", "\x1b[OR", "\x1b[OS", "\x1b[15~", "\x1b[17~", "\x1b[18~", "\x1b[19~",
    "\x1b[20~", "\x1b[21~", "\x1b[23~", "\x1b[24~"]

/-- The keys of the number pad, from `0` to `=`. -/
def numpadKeys : List String :=
  ["0", "1", "2", "3", "4", "5", "6", "7", "8", "9", "/", "*", "-", "+", ".", ",", "\x0d", "="]

def numpadAppKeys : List String :=
  ["\x1bOp", "\x1bOq", "\x1bOr", "\x1bOs", "\x1bOt", "\x1bOu", "\x1bOv", "\x1bOw", "\x1bOx",
    "\x1bOy", "\x1bOo", "\x1bOj", "\x1bOm", "\x1bOk", "\x1bOn", "\x1bOl", "\x1bOM", "\x1bOX"]

/-- The keys of `keys`, with codes from `first` on. -/
def numbered (first : Int) (keys : List String) : List (Int × String) :=
  keys.mapIdx fun i code => (first + i, code)

def mKeyCodes : List (Int × String) :=
  [(keycodeDpadCenter, "\x0d"), (keycodeDpadUp, "\x1b[A"), (keycodeDpadDown, "\x1b[B"),
    (keycodeDpadRight, "\x1b[C"), (keycodeDpadLeft, "\x1b[D")] ++
  numbered keycodeF1 functionKeys ++
  [(keycodeSysrq, "\x1b[32~"), (keycodeBreak, "\x1b[34~"), (keycodeTab, "\x09"),
    (keycodeEnter, "\x0d"), (keycodeEscape, "\x1b"), (keycodeInsert, "\x1b[2~"),
    (keycodeForwardDel, "\x1b[3~"), (keycodeMoveHome, "\x1b[1~"), (keycodeMoveEnd, "\x1b[4~"),
    (keycodePageUp, "\x1b[5~"), (keycodePageDown, "\x1b[6~"), (keycodeDel, "\x7f"),
    (keycodeNumLock, "\x1bOP")] ++
  numbered keycodeNumpad0 numpadKeys

def mAppKeyCodes : List (Int × String) :=
  [(keycodeDpadUp, "\x1bOA"), (keycodeDpadDown, "\x1bOB"), (keycodeDpadRight, "\x1bOC"),
    (keycodeDpadLeft, "\x1bOD")] ++
  numbered keycodeNumpad0 numpadAppKeys

/-- What `handleKeyCode` looks up. -/
def codeOf (keyCode : Int) (appMode : Bool) : Option String :=
  (if appMode then mAppKeyCodes.lookup keyCode else none).or (mKeyCodes.lookup keyCode)

/-! ## §3  Characters -/

/-- Map keycodes out of (above) the Unicode code point space. -/
def keycodeOffset : Int := 0xA00000

/-- `KEYCODE_OFFSET` of `kevinboone.androidterm`. -/
def olderOffset : Int := 1000

/-- A character literal of the source. -/
def lit (c : Char) : Int := c.toNat

/-- The cast to `char`. -/
def castChar (n : Int) : Int := n % 65536

/-- `mapControlChar`, before it adjusts the modifiers, with the offset of either copy. -/
def mapControlCharFrom (offset : Int) (control fn : Bool) (result : Int) : Int :=
  if control then
    -- Search is the control key.
    if result ≥ lit 'a' ∧ result ≤ lit 'z' then castChar (result - lit 'a' + 1)
    else if result ≥ lit 'A' ∧ result ≤ lit 'Z' then castChar (result - lit 'A' + 1)
    else if result = lit ' ' ∨ result = lit '2' then 0
    else if result = lit '[' ∨ result = lit '3' then 27
    else if result = lit '\\' ∨ result = lit '4' then 28
    else if result = lit ']' ∨ result = lit '5' then 29
    else if result = lit '^' ∨ result = lit '6' then 30
    else if result = lit '_' ∨ result = lit '7' then 31
    else if result = lit '8' then 127
    else if result = lit '9' then offset + keycodeF11
    else if result = lit '0' then offset + keycodeF12
    else result
  else if fn then
    if result = lit 'w' ∨ result = lit 'W' then offset + keycodeDpadUp
    else if result = lit 'a' ∨ result = lit 'A' then offset + keycodeDpadLeft
    else if result = lit 's' ∨ result = lit 'S' then offset + keycodeDpadDown
    else if result = lit 'd' ∨ result = lit 'D' then offset + keycodeDpadRight
    else if result = lit 'p' ∨ result = lit 'P' then offset + keycodePageUp
    else if result = lit 'n' ∨ result = lit 'N' then offset + keycodePageDown
    else if result = lit 't' ∨ result = lit 'T' then offset + keycodeTab
    else if result = lit 'l' ∨ result = lit 'L' then lit '|'
    else if result = lit 'u' ∨ result = lit 'U' then lit '_'
    else if result = lit 'e' ∨ result = lit 'E' then 27
    else if result = lit '.' then 28
    -- F1-F9
    else if result > lit '0' ∧ result ≤ lit '9' then
      castChar (result + offset + keycodeF1 - 1)
    else if result = lit '0' then offset + keycodeF10
    else if result = lit 'i' ∨ result = lit 'I' then offset + keycodeInsert
    else if result = lit 'x' ∨ result = lit 'X' then offset + keycodeForwardDel
    else if result = lit 'h' ∨ result = lit 'H' then offset + keycodeMoveHome
    else if result = lit 'f' ∨ result = lit 'F' then offset + keycodeMoveEnd
    else result
  else result

def mapControlChar : Bool → Bool → Int → Int := mapControlCharFrom keycodeOffset

/-! ## §4  The listener -/

/-- A call of `mTermSession.write`. -/
inductive Written where
  | bytes (data : List (BitVec 8))
  | code (code : String)
  | codePoint (c : Int)
deriving DecidableEq, Repr

inductive Modifier where
  | alt
  | cap
  | control
  | fn
deriving DecidableEq, Repr

structure TermKeyListener where
  /-- `mAltKey`, `mCapKey`, `mControlKey` and `mFnKey` -/
  key : Modifier → ModifierKey
  mBackKeyCode : Int
  mAltSendsEsc : Bool
  /-- What the session has been given. -/
  written : List Written

/-- What is used of a `KeyEvent`. -/
structure KeyEvent where
  metaState : BitVec 32
  getUnicodeChar : BitVec 32 → Int
  isSystem : Bool

def metaShiftOn : BitVec 32 := 1
def metaAltOn : BitVec 32 := 2
def metaAltMask : BitVec 32 := 0x32
def metaCtrlOn : BitVec 32 := 0x1000
def metaCtrlMask : BitVec 32 := 0x7000
def metaMetaOn : BitVec 32 := 0x10000
def metaMetaMask : BitVec 32 := 0x70000

namespace TermKeyListener

def create : TermKeyListener where
  key _ := .unpressed
  mBackKeyCode := 0
  mAltSendsEsc := false
  written := []

def setKey (m : Modifier) (s : ModifierKey) (l : TermKeyListener) : TermKeyListener :=
  { l with key := fun n => if n = m then s else l.key n }

def onPress (m : Modifier) (l : TermKeyListener) : TermKeyListener :=
  l.setKey m (l.key m).onPress

def onRelease (m : Modifier) (l : TermKeyListener) : TermKeyListener :=
  l.setKey m (l.key m).onRelease

def write (w : Written) (l : TermKeyListener) : TermKeyListener :=
  { l with written := l.written ++ [w] }

/-- The end of `mapControlChar`. -/
def adjust (result : Int) (l : TermKeyListener) : TermKeyListener :=
  if result > -1 then { l with key := fun m => (l.key m).adjustAfterKeypress } else l

def handleKeyCode (keyCode : Int) (appMode : Bool) (l : TermKeyListener) : TermKeyListener :=
  (codeOf keyCode appMode).elim l fun code => l.write (.code code)

/-- The escape of a key that is sent with Alt or Meta. -/
def escape : Written := .bytes [0x1b]

/-- The meta state a key is looked up with, and whether Alt and Meta write an escape. -/
def effectiveMeta (metaState : BitVec 32) (allowToggle : Bool) (l : TermKeyListener) :
    BitVec 32 × List Written :=
  let effectiveCaps := allowToggle && (l.key .cap).isActive
  let effectiveMetaState := metaState &&& ~~~metaCtrlMask
  let effectiveMetaState :=
    if effectiveCaps then effectiveMetaState ||| metaShiftOn else effectiveMetaState
  let effectiveAlt := (allowToggle && (l.key .alt).isActive) ||
    (!allowToggle && effectiveMetaState &&& metaAltOn ≠ 0)
  let escaped := effectiveAlt && l.mAltSendsEsc
  let effectiveMetaState :=
    if escaped then effectiveMetaState &&& ~~~metaAltMask
    -- Legacy behavior: Pass Alt through to allow composing characters.
    else if effectiveAlt then effectiveMetaState ||| metaAltOn
    else effectiveMetaState
  let metaEscaped := decide (metaState &&& metaMetaOn ≠ 0) && l.mAltSendsEsc
  let effectiveMetaState :=
    if metaEscaped then effectiveMetaState &&& ~~~metaMetaMask else effectiveMetaState
  (effectiveMetaState,
    (if escaped then [escape] else []) ++ (if metaEscaped then [escape] else []))

/-- A character is mapped and sent. -/
def send (control fn : Bool) (c : Int) (appMode : Bool) (l : TermKeyListener) :
    TermKeyListener :=
  let result := mapControlChar control fn c
  let l := l.adjust result
  if result ≥ keycodeOffset then l.handleKeyCode (result - keycodeOffset) appMode
  else if result ≥ 0 then l.write (.codePoint result)
  else l

def keyDown (keyCode : Int) (event : KeyEvent) (appMode allowToggle : Bool)
    (l : TermKeyListener) : TermKeyListener :=
  if (codeOf keyCode appMode).isSome then l.handleKeyCode keyCode appMode
  else if keyCode = keycodeAltRight ∨ keyCode = keycodeAltLeft then
    let l := if allowToggle then l.onPress .alt else l
    l.send (allowToggle && (l.key .control).isActive) (allowToggle && (l.key .fn).isActive) (-1)
      appMode
  else if keyCode = keycodeShiftLeft ∨ keyCode = keycodeShiftRight then
    let l := if allowToggle then l.onPress .cap else l
    l.send (allowToggle && (l.key .control).isActive) (allowToggle && (l.key .fn).isActive) (-1)
      appMode
  -- Ignore the control key and the capslock key.
  else if keyCode = keycodeCtrlLeft ∨ keyCode = keycodeCtrlRight ∨ keyCode = keycodeCapsLock then l
  else if keyCode = keycodeBack then
    l.send (allowToggle && (l.key .control).isActive) (allowToggle && (l.key .fn).isActive)
      l.mBackKeyCode appMode
  else
    let chordedCtrl := metaCtrlOn &&& event.metaState ≠ 0
    let (effectiveMetaState, escapes) := l.effectiveMeta event.metaState allowToggle
    { l with written := l.written ++ escapes }.send
      (chordedCtrl || (allowToggle && (l.key .control).isActive))
      (allowToggle && (l.key .fn).isActive) (event.getUnicodeChar effectiveMetaState) appMode

def keyUp (keyCode : Int) (allowToggle : Bool) (l : TermKeyListener) : TermKeyListener :=
  if keyCode = keycodeAltLeft ∨ keyCode = keycodeAltRight then
    if allowToggle then l.onRelease .alt else l
  else if keyCode = keycodeShiftLeft ∨ keyCode = keycodeShiftRight then
    if allowToggle then l.onRelease .cap else l
  else l

end TermKeyListener

/-! ## §5  The view -/

/-- What an `EmulatorView` knows about its keys. -/
structure EmulatorView where
  mKeyListener : TermKeyListener
  mIsControlKeySent : Bool
  mIsFnKeySent : Bool
  mBackKeySendsCharacter : Bool
  mControlKeyCode : Int
  mFnKeyCode : Int

namespace EmulatorView

def create : EmulatorView where
  mKeyListener := .create
  mIsControlKeySent := false
  mIsFnKeySent := false
  mBackKeySendsCharacter := false
  mControlKeyCode := 0
  mFnKeyCode := 0

def listening (l : TermKeyListener) (v : EmulatorView) : EmulatorView :=
  { v with mKeyListener := l }

/-- A key of the system that is not intercepted. -/
def passesOn (keyCode : Int) (event : KeyEvent) (v : EmulatorView) : Bool :=
  event.isSystem && !(keyCode = keycodeBack && v.mBackKeySendsCharacter)

def onKeyDown (keyCode : Int) (event : KeyEvent) (appMode allowToggle : Bool)
    (v : EmulatorView) : EmulatorView :=
  if keyCode = v.mControlKeyCode then v.listening (v.mKeyListener.onPress .control)
  else if keyCode = v.mFnKeyCode then v.listening (v.mKeyListener.onPress .fn)
  else if v.passesOn keyCode event then v
  else v.listening (v.mKeyListener.keyDown keyCode event appMode allowToggle)

def clearControl (v : EmulatorView) : EmulatorView :=
  if v.mIsControlKeySent then
    { v with mIsControlKeySent := false, mKeyListener := v.mKeyListener.onRelease .control }
  else v

def clearFn (v : EmulatorView) : EmulatorView :=
  if v.mIsFnKeySent then
    { v with mIsFnKeySent := false, mKeyListener := v.mKeyListener.onRelease .fn }
  else v

def clearSpecialKeyStatus (v : EmulatorView) : EmulatorView := v.clearControl.clearFn

def onKeyUp (keyCode : Int) (event : KeyEvent) (allowToggle : Bool) (v : EmulatorView) :
    EmulatorView :=
  if keyCode = v.mControlKeyCode then v.listening (v.mKeyListener.onRelease .control)
  else if keyCode = v.mFnKeyCode then v.listening (v.mKeyListener.onRelease .fn)
  else if v.passesOn keyCode event then v
  else (v.listening (v.mKeyListener.keyUp keyCode allowToggle)).clearSpecialKeyStatus

/-- Send a Ctrl key event to the terminal. -/
def sendControlKey (v : EmulatorView) : EmulatorView :=
  { v with mIsControlKeySent := true, mKeyListener := v.mKeyListener.onPress .control }

/-- Send an Fn key event to the terminal. -/
def sendFnKey (v : EmulatorView) : EmulatorView :=
  { v with mIsFnKeySent := true, mKeyListener := v.mKeyListener.onPress .fn }

/-- A character of the input method. -/
def mapAndSend (c : Int) (appMode : Bool) (v : EmulatorView) : EmulatorView :=
  let l := v.mKeyListener
  let result := mapControlChar (l.key .control).isActive (l.key .fn).isActive c
  let l := l.adjust result
  let l :=
    if result < keycodeOffset then l.write (.codePoint result)
    else l.handleKeyCode (result - keycodeOffset) appMode
  (v.listening l).clearSpecialKeyStatus

def setBackKeyCharacter (keyCode : Int) (v : EmulatorView) : EmulatorView where
  mKeyListener := { v.mKeyListener with mBackKeyCode := keyCode }
  mIsControlKeySent := v.mIsControlKeySent
  mIsFnKeySent := v.mIsFnKeySent
  mBackKeySendsCharacter := keyCode ≠ 0
  mControlKeyCode := v.mControlKeyCode
  mFnKeyCode := v.mFnKeyCode

def setAltSendsEsc (flag : Bool) (v : EmulatorView) : EmulatorView :=
  v.listening { v.mKeyListener with mAltSendsEsc := flag }

def setControlKeyCode (keyCode : Int) (v : EmulatorView) : EmulatorView :=
  { v with mControlKeyCode := keyCode }

def setFnKeyCode (keyCode : Int) (v : EmulatorView) : EmulatorView :=
  { v with mFnKeyCode := keyCode }

end EmulatorView

/-- What happens to a view.  Whether the keypad is in application mode, and whether the device
has toggling modifiers, is told with each event. -/
inductive KeyAction where
  | onKeyDown (keyCode : Int) (event : KeyEvent) (appMode allowToggle : Bool)
  | onKeyUp (keyCode : Int) (event : KeyEvent) (allowToggle : Bool)
  | sendControlKey
  | sendFnKey
  | mapAndSend (c : Int) (appMode : Bool)
  | setBackKeyCharacter (keyCode : Int)
  | setAltSendsEsc (flag : Bool)
  | setControlKeyCode (keyCode : Int)
  | setFnKeyCode (keyCode : Int)

def EmulatorView.perform (v : EmulatorView) : KeyAction → EmulatorView
  | .onKeyDown keyCode event appMode allowToggle => v.onKeyDown keyCode event appMode allowToggle
  | .onKeyUp keyCode event allowToggle => v.onKeyUp keyCode event allowToggle
  | .sendControlKey => v.sendControlKey
  | .sendFnKey => v.sendFnKey
  | .mapAndSend c appMode => v.mapAndSend c appMode
  | .setBackKeyCharacter keyCode => v.setBackKeyCharacter keyCode
  | .setAltSendsEsc flag => v.setAltSendsEsc flag
  | .setControlKeyCode keyCode => v.setControlKeyCode keyCode
  | .setFnKeyCode keyCode => v.setFnKeyCode keyCode

end Kbox.Emulatorview
