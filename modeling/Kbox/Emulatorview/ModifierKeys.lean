import Kbox.Emulatorview.TermKeyListener

/-!
# Modifiers over runs of key events

The state of a modifier key says little by itself; what a user knows is what has been done:
which keys were held, which were tapped, and what was typed in between.  The runs of the
view are read off as one history for each modifier, and the machine of the source is
compared with the three positions of a latch.
-/

namespace Kbox.Emulatorview

/-! ## §1  The latch -/

/-- What happens to a modifier: it goes down (again, when it repeats), it goes up, or a
character is typed. -/
inductive Touch where
  | press
  | release
  | use
deriving DecidableEq, Repr

def ModifierKey.touch (s : ModifierKey) : Touch → ModifierKey
  | .press => s.onPress
  | .release => s.onRelease
  | .use => s.adjustAfterKeypress

/-- What a user does with a modifier. -/
inductive Stroke where
  /-- A character is typed while it is up. -/
  | key
  /-- It is held: it repeats, and then characters are typed. -/
  | hold (repeats uses : Nat)

def Stroke.touches : Stroke → List Touch
  | .key => [.use]
  | .hold repeats uses =>
      List.replicate (repeats + 1) .press ++ List.replicate uses .use ++ [.release]

/-- The position of a modifier that is up. -/
inductive Latch where
  | off
  /-- It acts on the next character. -/
  | once
  | locked
deriving DecidableEq, Repr

namespace Latch

/-- A key that goes down unlocks, locks, or acts while it is held; a locked key that repeats
goes on from there. -/
def down : Latch → Nat → Option Latch
  | off, _ => none
  | once, 0 => some locked
  | once, 1 => some off
  | once, _ + 2 => none
  | locked, 0 => some off
  | locked, _ + 1 => none

/-- Whether it acts while it is held. -/
def ActsHeld (l : Latch) (repeats : Nat) : Prop := l.down repeats ≠ some off

/-- Its position when it comes up again. -/
def up (l : Latch) (repeats uses : Nat) : Latch :=
  (l.down repeats).getD (if uses = 0 then once else off)

def stroke (l : Latch) : Stroke → Latch
  | .key => if l = once then off else l
  | .hold repeats uses => l.up repeats uses

/-- The state of a modifier that is up. -/
def state : Latch → ModifierKey
  | off => .unpressed
  | once => .released
  | locked => .locked

end Latch

theorem touch_presses (n : Nat) :
    (List.replicate n Touch.press).foldl ModifierKey.touch .pressed = .pressed := by
  induction n with
  | zero => rfl
  | succ n ih => exact ih

/-- What a modifier is while it is held. -/
theorem state_down (l : Latch) (repeats : Nat) :
    (List.replicate (repeats + 1) Touch.press).foldl ModifierKey.touch l.state =
      (l.down repeats).elim .pressed Latch.state := by
  cases l with
  | off => exact touch_presses repeats
  | once =>
      rcases repeats with _ | _ | n
      · rfl
      · rfl
      · exact touch_presses n
  | locked =>
      rcases repeats with _ | n
      · rfl
      · exact touch_presses n

theorem touch_uses (s : ModifierKey) (uses : Nat) :
    (List.replicate uses Touch.use).foldl ModifierKey.touch s =
      if uses = 0 then s else s.adjustAfterKeypress := by
  induction uses generalizing s with
  | zero => rfl
  | succ n ih =>
      rw [List.replicate_succ, List.foldl_cons, ih, if_neg (Nat.succ_ne_zero n)]
      cases s <;> split_ifs <;> rfl

/-- A key that goes down does not leave a latch to act on the next character only. -/
theorem down_cases (l : Latch) (repeats : Nat) :
    l.down repeats = none ∨ l.down repeats = some .off ∨ l.down repeats = some .locked := by
  cases l with
  | off => exact .inl rfl
  | once =>
      rcases repeats with _ | _ | n
      · exact .inr (.inr rfl)
      · exact .inr (.inl rfl)
      · exact .inl rfl
  | locked =>
      rcases repeats with _ | n
      · exact .inr (.inl rfl)
      · exact .inl rfl

/-- While it is held, and `uses` characters have been typed. -/
theorem held_active (l : Latch) (repeats uses : Nat) :
    ((List.replicate (repeats + 1) Touch.press ++ List.replicate uses Touch.use).foldl
      ModifierKey.touch l.state).isActive = true ↔ l.ActsHeld repeats := by
  rw [List.foldl_append, state_down, touch_uses]
  unfold Latch.ActsHeld
  rcases down_cases l repeats with h | h | h <;> rw [h] <;> split_ifs <;> decide

theorem state_stroke (l : Latch) (stroke : Stroke) :
    stroke.touches.foldl ModifierKey.touch l.state = (l.stroke stroke).state := by
  cases stroke with
  | key => cases l <;> rfl
  | hold repeats uses =>
      change (List.replicate (repeats + 1) Touch.press ++ List.replicate uses Touch.use ++
        [Touch.release]).foldl _ _ = (l.up repeats uses).state
      rw [List.foldl_append, List.foldl_append, state_down, touch_uses]
      unfold Latch.up
      rcases down_cases l repeats with h | h | h <;> rw [h] <;> split_ifs <;> rfl

theorem state_strokes (l : Latch) (strokes : List Stroke) :
    (strokes.flatMap Stroke.touches).foldl ModifierKey.touch l.state =
      (strokes.foldl Latch.stroke l).state := by
  induction strokes generalizing l with
  | nil => rfl
  | cons stroke strokes ih =>
      rw [List.flatMap_cons, List.foldl_append, state_stroke]
      exact ih _

theorem active_state (l : Latch) : l.state.isActive = true ↔ l ≠ .off := by
  cases l <;> decide

/-! ## §2  The history of a modifier -/

/-- What a character that is mapped to `result` does to each modifier. -/
def usedBy (result : Int) : List Touch := if result > -1 then [.use] else []

namespace TermKeyListener

/-- The character `keyDown` maps. -/
def typed (keyCode : Int) (event : KeyEvent) (allowToggle : Bool) (l : TermKeyListener) : Int :=
  if keyCode = keycodeBack then
    mapControlChar (allowToggle && (l.key .control).isActive)
      (allowToggle && (l.key .fn).isActive) l.mBackKeyCode
  else
    mapControlChar
      (metaCtrlOn &&& event.metaState ≠ 0 || (allowToggle && (l.key .control).isActive))
      (allowToggle && (l.key .fn).isActive)
      (event.getUnicodeChar (l.effectiveMeta event.metaState allowToggle).1)

/-- What `keyDown` does to a modifier. -/
def pressedBy (m : Modifier) (keyCode : Int) (event : KeyEvent) (appMode allowToggle : Bool)
    (l : TermKeyListener) : List Touch :=
  if (codeOf keyCode appMode).isSome then []
  else if keyCode = keycodeAltRight ∨ keyCode = keycodeAltLeft then
    if allowToggle ∧ m = .alt then [.press] else []
  else if keyCode = keycodeShiftLeft ∨ keyCode = keycodeShiftRight then
    if allowToggle ∧ m = .cap then [.press] else []
  else if keyCode = keycodeCtrlLeft ∨ keyCode = keycodeCtrlRight ∨ keyCode = keycodeCapsLock then []
  else usedBy (l.typed keyCode event allowToggle)

def releasedBy (m : Modifier) (keyCode : Int) (allowToggle : Bool) : List Touch :=
  if keyCode = keycodeAltLeft ∨ keyCode = keycodeAltRight then
    if allowToggle ∧ m = .alt then [.release] else []
  else if keyCode = keycodeShiftLeft ∨ keyCode = keycodeShiftRight then
    if allowToggle ∧ m = .cap then [.release] else []
  else []

variable {l : TermKeyListener} {m n : Modifier}

theorem key_onPress : (l.onPress n).key m =
    (if m = n then [Touch.press] else []).foldl ModifierKey.touch (l.key m) := by
  change (if m = n then (l.key n).onPress else l.key m) = _
  split_ifs with h
  · rw [h]
    rfl
  · rfl

theorem key_onRelease : (l.onRelease n).key m =
    (if m = n then [Touch.release] else []).foldl ModifierKey.touch (l.key m) := by
  change (if m = n then (l.key n).onRelease else l.key m) = _
  split_ifs with h
  · rw [h]
    rfl
  · rfl

theorem key_adjust (result : Int) : (l.adjust result).key m =
    (usedBy result).foldl ModifierKey.touch (l.key m) := by
  unfold adjust usedBy
  split_ifs <;> rfl

@[simp] theorem key_handleKeyCode (keyCode : Int) (appMode : Bool) :
    (l.handleKeyCode keyCode appMode).key = l.key := by
  unfold handleKeyCode
  cases codeOf keyCode appMode <;> rfl

theorem key_sent {result : Int} {appMode : Bool} :
    (if result < keycodeOffset then l.write (.codePoint result)
      else l.handleKeyCode (result - keycodeOffset) appMode).key = l.key := by
  split_ifs
  · rfl
  · exact key_handleKeyCode _ _

theorem key_send (control fn : Bool) (c : Int) (appMode : Bool) :
    (l.send control fn c appMode).key m =
      (usedBy (mapControlChar control fn c)).foldl ModifierKey.touch (l.key m) := by
  unfold send
  refine Eq.trans ?_ (key_adjust (mapControlChar control fn c))
  dsimp only
  split_ifs
  · rw [key_handleKeyCode]
  · rfl
  · rfl

theorem mapControlChar_none (control fn : Bool) : mapControlChar control fn (-1) = -1 := by
  cases control <;> cases fn <;> decide

theorem key_keyDown (keyCode : Int) (event : KeyEvent) (appMode allowToggle : Bool) :
    (l.keyDown keyCode event appMode allowToggle).key m =
      (l.pressedBy m keyCode event appMode allowToggle).foldl ModifierKey.touch (l.key m) := by
  unfold keyDown pressedBy typed
  by_cases hcode : (codeOf keyCode appMode).isSome = true
  · rw [if_pos hcode, if_pos hcode, key_handleKeyCode]
    rfl
  rw [if_neg hcode, if_neg hcode]
  by_cases halt : keyCode = keycodeAltRight ∨ keyCode = keycodeAltLeft
  · rw [if_pos halt, if_pos halt, key_send, mapControlChar_none]
    cases allowToggle with
    | false => rfl
    | true =>
        simp only [true_and, if_true]
        exact key_onPress
  rw [if_neg halt, if_neg halt]
  by_cases hshift : keyCode = keycodeShiftLeft ∨ keyCode = keycodeShiftRight
  · rw [if_pos hshift, if_pos hshift, key_send, mapControlChar_none]
    cases allowToggle with
    | false => rfl
    | true =>
        simp only [true_and, if_true]
        exact key_onPress
  rw [if_neg hshift, if_neg hshift]
  by_cases hignored : keyCode = keycodeCtrlLeft ∨ keyCode = keycodeCtrlRight ∨
      keyCode = keycodeCapsLock
  · rw [if_pos hignored, if_pos hignored]
    rfl
  rw [if_neg hignored, if_neg hignored]
  by_cases hback : keyCode = keycodeBack
  · rw [if_pos hback, if_pos hback]
    exact key_send _ _ _ _
  · rw [if_neg hback, if_neg hback]
    exact key_send _ _ _ _

theorem key_keyUp (keyCode : Int) (allowToggle : Bool) : (l.keyUp keyCode allowToggle).key m =
    (releasedBy m keyCode allowToggle).foldl ModifierKey.touch (l.key m) := by
  unfold keyUp releasedBy
  by_cases halt : keyCode = keycodeAltLeft ∨ keyCode = keycodeAltRight
  · rw [if_pos halt, if_pos halt]
    cases allowToggle with
    | false => rfl
    | true =>
        simp only [true_and, if_true]
        exact key_onRelease
  rw [if_neg halt, if_neg halt]
  by_cases hshift : keyCode = keycodeShiftLeft ∨ keyCode = keycodeShiftRight
  · rw [if_pos hshift, if_pos hshift]
    cases allowToggle with
    | false => rfl
    | true =>
        simp only [true_and, if_true]
        exact key_onRelease
  · rw [if_neg hshift, if_neg hshift]
    rfl

end TermKeyListener

namespace EmulatorView

/-- The modifier keys of a view. -/
def key (v : EmulatorView) : Modifier → ModifierKey := v.mKeyListener.key

/-- What the keys of the menu do when they are let go. -/
def clearedBy (m : Modifier) (v : EmulatorView) : List Touch :=
  if (m = .control ∧ v.mIsControlKeySent) ∨ (m = .fn ∧ v.mIsFnKeySent) then [.release] else []

/-- What an action does to a modifier. -/
def touches (m : Modifier) (v : EmulatorView) : KeyAction → List Touch
  | .onKeyDown keyCode event appMode allowToggle =>
      if keyCode = v.mControlKeyCode then if m = .control then [.press] else []
      else if keyCode = v.mFnKeyCode then if m = .fn then [.press] else []
      else if v.passesOn keyCode event then []
      else v.mKeyListener.pressedBy m keyCode event appMode allowToggle
  | .onKeyUp keyCode event allowToggle =>
      if keyCode = v.mControlKeyCode then if m = .control then [.release] else []
      else if keyCode = v.mFnKeyCode then if m = .fn then [.release] else []
      else if v.passesOn keyCode event then []
      else TermKeyListener.releasedBy m keyCode allowToggle ++ v.clearedBy m
  | .sendControlKey => if m = .control then [.press] else []
  | .sendFnKey => if m = .fn then [.press] else []
  | .mapAndSend c _ =>
      usedBy (mapControlChar (v.key .control).isActive (v.key .fn).isActive c) ++ v.clearedBy m
  | .setBackKeyCharacter _ => []
  | .setAltSendsEsc _ => []
  | .setControlKeyCode _ => []
  | .setFnKeyCode _ => []

variable {v : EmulatorView} {m : Modifier}

theorem key_clearControl : v.clearControl.key m =
    (if m = .control ∧ v.mIsControlKeySent then [Touch.release] else []).foldl
      ModifierKey.touch (v.key m) := by
  unfold clearControl
  by_cases hsent : v.mIsControlKeySent = true
  · rw [if_pos hsent]
    simp only [hsent, and_true]
    exact TermKeyListener.key_onRelease
  · rw [if_neg hsent, if_neg fun h => hsent h.2]
    rfl

theorem key_clearFn : v.clearFn.key m =
    (if m = .fn ∧ v.mIsFnKeySent then [Touch.release] else []).foldl
      ModifierKey.touch (v.key m) := by
  unfold clearFn
  by_cases hsent : v.mIsFnKeySent = true
  · rw [if_pos hsent]
    simp only [hsent, and_true]
    exact TermKeyListener.key_onRelease
  · rw [if_neg hsent, if_neg fun h => hsent h.2]
    rfl

theorem key_clear : v.clearSpecialKeyStatus.key m =
    (v.clearedBy m).foldl ModifierKey.touch (v.key m) := by
  have hfn : v.clearControl.mIsFnKeySent = v.mIsFnKeySent := by
    unfold clearControl
    split_ifs <;> rfl
  unfold clearSpecialKeyStatus clearedBy
  rw [key_clearFn, key_clearControl, hfn]
  cases m <;> simp

theorem key_perform (action : KeyAction) : (v.perform action).key m =
    (v.touches m action).foldl ModifierKey.touch (v.key m) := by
  cases action with
  | onKeyDown keyCode event appMode allowToggle =>
      unfold perform onKeyDown touches
      dsimp only
      by_cases hcontrol : keyCode = v.mControlKeyCode
      · rw [if_pos hcontrol, if_pos hcontrol]
        exact TermKeyListener.key_onPress
      rw [if_neg hcontrol, if_neg hcontrol]
      by_cases hfn : keyCode = v.mFnKeyCode
      · rw [if_pos hfn, if_pos hfn]
        exact TermKeyListener.key_onPress
      rw [if_neg hfn, if_neg hfn]
      by_cases hpass : v.passesOn keyCode event = true
      · rw [if_pos hpass, if_pos hpass]
        rfl
      · rw [if_neg hpass, if_neg hpass]
        exact TermKeyListener.key_keyDown _ _ _ _
  | onKeyUp keyCode event allowToggle =>
      unfold perform onKeyUp touches
      dsimp only
      by_cases hcontrol : keyCode = v.mControlKeyCode
      · rw [if_pos hcontrol, if_pos hcontrol]
        exact TermKeyListener.key_onRelease
      rw [if_neg hcontrol, if_neg hcontrol]
      by_cases hfn : keyCode = v.mFnKeyCode
      · rw [if_pos hfn, if_pos hfn]
        exact TermKeyListener.key_onRelease
      rw [if_neg hfn, if_neg hfn]
      by_cases hpass : v.passesOn keyCode event = true
      · rw [if_pos hpass, if_pos hpass]
        rfl
      · rw [if_neg hpass, if_neg hpass, key_clear, List.foldl_append]
        exact congrArg (List.foldl ModifierKey.touch · (v.clearedBy m))
          (TermKeyListener.key_keyUp _ _)
  | sendControlKey => exact TermKeyListener.key_onPress
  | sendFnKey => exact TermKeyListener.key_onPress
  | mapAndSend c appMode =>
      unfold perform mapAndSend touches
      dsimp only
      rw [key_clear, List.foldl_append]
      exact congrArg (List.foldl ModifierKey.touch · (v.clearedBy m))
        ((congrFun TermKeyListener.key_sent m).trans (TermKeyListener.key_adjust _))
  | setBackKeyCharacter keyCode => rfl
  | setAltSendsEsc flag => rfl
  | setControlKeyCode keyCode => rfl
  | setFnKeyCode keyCode => rfl

/-- What a run of actions does to a modifier. -/
def history (m : Modifier) : EmulatorView → List KeyAction → List Touch
  | _, [] => []
  | v, action :: actions => v.touches m action ++ history m (v.perform action) actions

theorem key_run (actions : List KeyAction) : (actions.foldl perform v).key m =
    (v.history m actions).foldl ModifierKey.touch (v.key m) := by
  induction actions generalizing v with
  | nil => rfl
  | cons action actions ih =>
      rw [List.foldl_cons, ih, key_perform, ← List.foldl_append]
      rfl

/-- Along every run, whatever else is pressed and typed in between: a modifier that is up
acts when its latch is not off, and one that is held acts unless it was pressed to unlock
it. -/
theorem active_of_strokes {actions : List KeyAction} (strokes : List Stroke) :
    (create.history m actions = strokes.flatMap Stroke.touches →
      (((actions.foldl perform create).key m).isActive = true ↔
        strokes.foldl Latch.stroke .off ≠ .off)) ∧
    ∀ repeats uses, create.history m actions = strokes.flatMap Stroke.touches ++
        (List.replicate (repeats + 1) .press ++ List.replicate uses .use) →
      (((actions.foldl perform create).key m).isActive = true ↔
        (strokes.foldl Latch.stroke .off).ActsHeld repeats) := by
  have hcreate : create.key m = Latch.off.state := rfl
  constructor
  · intro hhistory
    rw [key_run, hhistory, hcreate, state_strokes]
    exact active_state _
  · intro repeats uses hhistory
    rw [key_run, hhistory, hcreate, List.foldl_append, state_strokes]
    exact held_active _ repeats uses

/-- A letter that is typed with a device that has toggling modifiers. -/
def sampleEvent : KeyEvent := ⟨0, fun _ => 99, false⟩

/-- The control key is tapped, and a letter is typed. -/
def sampleKeys : List KeyAction :=
  [.setControlKeyCode 84, .onKeyDown 84 sampleEvent false true, .onKeyUp 84 sampleEvent true,
    .onKeyDown 31 sampleEvent false true, .onKeyUp 31 sampleEvent true]

theorem active_of_strokes_sample :
    (((sampleKeys.take 3).foldl perform create).key .control).isActive = true ∧
      ((sampleKeys.foldl perform create).key .control).isActive ≠ true :=
  ⟨((active_of_strokes [.hold 0 0]).1 (by decide)).mpr (by decide),
    fun hactive => ((active_of_strokes [.hold 0 0, .key]).1 (by decide)).mp hactive (by decide)⟩

end EmulatorView

end Kbox.Emulatorview
