import Kbox.Emulatorview.CodePointWriter
import Kbox.Emulatorview.ModifierKeys

/-!
# What keys and the input method write

The menu's Ctrl and Fn act on the next character of the input method and on no other;
whatever is pressed and typed, the session is given code points and the codes of the key
tables; and the older copy, whose key codes start at 1000, takes characters for keys.
-/

namespace Kbox.Emulatorview

open Kbox.Framework

/-! ## §1  Characters that are mapped -/

/-- The keys that Ctrl and Fn make of characters. -/
def mappedKeys : List Int :=
  [keycodeF11, keycodeF12, keycodeDpadUp, keycodeDpadLeft, keycodeDpadDown, keycodeDpadRight,
    keycodePageUp, keycodePageDown, keycodeTab, keycodeF10, keycodeInsert, keycodeForwardDel,
    keycodeMoveHome, keycodeMoveEnd]

/-- A digit that Fn is to make a function key of. -/
def IsFnDigit (control fn : Bool) (c : Int) : Prop :=
  control = false ∧ fn = true ∧ c > lit '0' ∧ c ≤ lit '9'

/-- What a character may become, against every offset: itself or an ASCII character, one of
the keys, or what is made of a digit. -/
inductive Maps (control fn : Bool) (c : Int) (f : Int → Int) : Prop where
  | same (h : ∀ offset, f offset = c)
  | ascii (r : Int) (hc : c < 128) (hr : 0 ≤ r ∧ r < 128) (h : ∀ offset, f offset = r)
  | key (k : Int) (hc : c < 128) (hk : k ∈ mappedKeys) (h : ∀ offset, f offset = offset + k)
  | digit (hc : IsFnDigit control fn c)
      (h : ∀ offset, f offset = castChar (c + offset + keycodeF1 - 1))

section

variable {control fn : Bool} {c : Int}

theorem maps_ite {p : Prop} [Decidable p] {f g : Int → Int} (hf : p → Maps control fn c f)
    (hg : ¬ p → Maps control fn c g) : Maps control fn c fun offset =>
      if p then f offset else g offset := by
  by_cases hp : p
  · simp only [if_pos hp]
    exact hf hp
  · simp only [if_neg hp]
    exact hg hp

theorem maps_const {a b : Char} (hc : c = lit a ∨ c = lit b) (hab : lit a < 128 ∧ lit b < 128)
    {r : Int} (hr : 0 ≤ r ∧ r < 128) : Maps control fn c fun _ => r :=
  .ascii r (by omega) hr fun _ => rfl

theorem maps_add {a b : Char} (hc : c = lit a ∨ c = lit b) (hab : lit a < 128 ∧ lit b < 128)
    {k : Int} (hk : k ∈ mappedKeys) : Maps control fn c fun offset => offset + k :=
  .key k (by omega) hk fun _ => rfl

/-- A letter under Ctrl. -/
theorem maps_letter {first last : Char} (h : c ≥ lit first ∧ c ≤ lit last)
    (hlast : 0 < lit first ∧ lit last < 127) :
    Maps control fn c fun _ => castChar (c - lit first + 1) := by
  refine .ascii _ (by omega) ?_ fun _ => rfl
  unfold castChar
  omega

theorem mapControlChar_maps (control fn : Bool) (c : Int) :
    Maps control fn c fun offset => mapControlCharFrom offset control fn c := by
  unfold mapControlCharFrom
  cases control with
  | true =>
      simp only [if_true]
      refine maps_ite (fun h => maps_letter h (by decide)) fun _ => ?_
      refine maps_ite (fun h => maps_letter h (by decide)) fun _ => ?_
      refine maps_ite (fun h => maps_const h (by decide) (by decide)) fun _ => ?_
      refine maps_ite (fun h => maps_const h (by decide) (by decide)) fun _ => ?_
      refine maps_ite (fun h => maps_const h (by decide) (by decide)) fun _ => ?_
      refine maps_ite (fun h => maps_const h (by decide) (by decide)) fun _ => ?_
      refine maps_ite (fun h => maps_const h (by decide) (by decide)) fun _ => ?_
      refine maps_ite (fun h => maps_const h (by decide) (by decide)) fun _ => ?_
      refine maps_ite (fun h => maps_const (or_self_iff.mpr h) (by decide) (by decide)) fun _ => ?_
      refine maps_ite (fun h => maps_add (or_self_iff.mpr h) (by decide) (by decide)) fun _ => ?_
      refine maps_ite (fun h => maps_add (or_self_iff.mpr h) (by decide) (by decide)) fun _ => ?_
      exact .same fun _ => rfl
  | false =>
      simp only [Bool.false_eq_true, if_false]
      cases fn with
      | false => exact .same fun _ => rfl
      | true =>
          simp only [if_true]
          refine maps_ite (fun h => maps_add h (by decide) (by decide)) fun _ => ?_
          refine maps_ite (fun h => maps_add h (by decide) (by decide)) fun _ => ?_
          refine maps_ite (fun h => maps_add h (by decide) (by decide)) fun _ => ?_
          refine maps_ite (fun h => maps_add h (by decide) (by decide)) fun _ => ?_
          refine maps_ite (fun h => maps_add h (by decide) (by decide)) fun _ => ?_
          refine maps_ite (fun h => maps_add h (by decide) (by decide)) fun _ => ?_
          refine maps_ite (fun h => maps_add h (by decide) (by decide)) fun _ => ?_
          refine maps_ite (fun h => maps_const h (by decide) (by decide)) fun _ => ?_
          refine maps_ite (fun h => maps_const h (by decide) (by decide)) fun _ => ?_
          refine maps_ite (fun h => maps_const h (by decide) (by decide)) fun _ => ?_
          refine maps_ite (fun h => maps_const (or_self_iff.mpr h) (by decide) (by decide))
            fun _ => ?_
          refine maps_ite (fun h => .digit ⟨rfl, rfl, h⟩ fun _ => rfl) fun _ => ?_
          refine maps_ite (fun h => maps_add (or_self_iff.mpr h) (by decide) (by decide))
            fun _ => ?_
          refine maps_ite (fun h => maps_add h (by decide) (by decide)) fun _ => ?_
          refine maps_ite (fun h => maps_add h (by decide) (by decide)) fun _ => ?_
          refine maps_ite (fun h => maps_add h (by decide) (by decide)) fun _ => ?_
          exact maps_ite (fun h => maps_add h (by decide) (by decide)) fun _ => .same fun _ => rfl

theorem mappedKeys_nonneg : ∀ key ∈ mappedKeys, 0 ≤ key := by decide

theorem codeOf_mapped : ∀ key ∈ mappedKeys, ∀ appMode, (codeOf key appMode).isSome := by
  decide

/-- The codes of F1 to F9. -/
def fnDigitKeys : List String := functionKeys.take 9

theorem codeOf_mapped_ne : ∀ key ∈ mappedKeys, ∀ appMode, ∀ code ∈ fnDigitKeys,
    codeOf key appMode ≠ some code := by
  decide

/-- The last code point. -/
def maxCodePoint : Int := 0x10FFFF

def IsCodePoint (c : Int) : Prop := 0 ≤ c ∧ c ≤ maxCodePoint

/-- What a character may be mapped to. -/
def IsMapped (r : Int) : Prop := IsCodePoint r ∨ ∃ key ∈ mappedKeys, r = keycodeOffset + key

/-- A dead key has a negative code, and keeps it. -/
theorem mapControlChar_cases (h : c ≤ maxCodePoint) (control fn : Bool) :
    (mapControlChar control fn c = c ∧ c < 0) ∨ IsMapped (mapControlChar control fn c) := by
  have hbound : maxCodePoint = 1114111 := rfl
  unfold mapControlChar
  cases mapControlChar_maps control fn c with
  | same hsame =>
      rw [hsame keycodeOffset]
      by_cases hdead : c < 0
      · exact .inl ⟨rfl, hdead⟩
      · exact .inr (.inl ⟨by omega, h⟩)
  | ascii r _ hr hascii =>
      rw [hascii keycodeOffset]
      exact .inr (.inl ⟨hr.1, by omega⟩)
  | key k _ hk hkey => exact .inr (.inr ⟨k, hk, hkey keycodeOffset⟩)
  | digit hc hdigit =>
      rw [hdigit keycodeOffset]
      refine .inr (.inl ⟨?_, ?_⟩) <;> unfold castChar <;> omega

theorem mapped_codePoint (h : IsCodePoint c) (control fn : Bool) :
    IsMapped (mapControlChar control fn c) :=
  (mapControlChar_cases h.2 control fn).resolve_left fun hdead => by
    have hle := h.1
    omega

/-- What becomes of a character that is mapped to `result`. -/
def Written.of (result : Int) (appMode : Bool) : Option Written :=
  if result < keycodeOffset then some (.codePoint result)
  else (codeOf (result - keycodeOffset) appMode).map .code

/-- A code point is sent as a code point, or as the code of a key. -/
theorem written_of {r : Int} (h : IsMapped r) (appMode : Bool) :
    (IsCodePoint r ∧ Written.of r appMode = some (.codePoint r)) ∨
      ∃ key ∈ mappedKeys, ∃ code, codeOf key appMode = some code ∧
        Written.of r appMode = some (.code code) := by
  have hoffset : keycodeOffset = 10485760 := rfl
  have hbound : maxCodePoint = 1114111 := rfl
  rcases h with hr | ⟨key, hkey, rfl⟩
  · refine .inl ⟨hr, if_pos ?_⟩
    have hle := hr.2
    omega
  · refine .inr ⟨key, hkey, ?_⟩
    obtain ⟨code, hcode⟩ := Option.isSome_iff_exists.mp (codeOf_mapped key hkey appMode)
    have hnot : ¬ keycodeOffset + key < keycodeOffset := by
      have hle := mappedKeys_nonneg key hkey
      omega
    have hkey' : keycodeOffset + key - keycodeOffset = key := by omega
    refine ⟨code, hcode, ?_⟩
    unfold Written.of
    rw [if_neg hnot, hkey', hcode]
    rfl

theorem mapped_nonneg {r : Int} (h : IsMapped r) : 0 ≤ r := by
  have hoffset : keycodeOffset = 10485760 := rfl
  rcases h with hr | ⟨key, hkey, rfl⟩
  · exact hr.1
  · have hle := mappedKeys_nonneg key hkey
    omega

theorem usedBy_mapped {r : Int} (h : IsMapped r) : usedBy r = [.use] := by
  refine if_pos ?_
  have hle := mapped_nonneg h
  omega

end

/-! ## §2  The menu and the input method -/

/-- Ctrl and Fn of the menu, and code points of the input method. -/
def KeyAction.IsText : KeyAction → Prop
  | .sendControlKey => True
  | .sendFnKey => True
  | .mapAndSend c _ => IsCodePoint c
  | _ => False

def KeyAction.isCharacter : KeyAction → Bool
  | .mapAndSend _ _ => true
  | _ => false

/-- What is written for them: Ctrl and Fn count for the character behind them. -/
def textWritten : Bool → Bool → List KeyAction → List Written
  | _, fn, .sendControlKey :: actions => textWritten true fn actions
  | control, _, .sendFnKey :: actions => textWritten control true actions
  | control, fn, .mapAndSend c appMode :: actions =>
      (Written.of (mapControlChar control fn c) appMode).toList ++ textWritten false false actions
  | _, _, _ => []

namespace TermKeyListener

variable {l : TermKeyListener}

@[simp] theorem written_adjust (result : Int) : (l.adjust result).written = l.written := by
  unfold adjust
  split_ifs <;> rfl

theorem written_handleKeyCode (keyCode : Int) (appMode : Bool) :
    (l.handleKeyCode keyCode appMode).written =
      l.written ++ ((codeOf keyCode appMode).map .code).toList := by
  unfold handleKeyCode
  cases codeOf keyCode appMode with
  | none => exact (List.append_nil _).symm
  | some code => rfl

theorem written_sent {result : Int} {appMode : Bool} :
    (if result < keycodeOffset then l.write (.codePoint result)
      else l.handleKeyCode (result - keycodeOffset) appMode).written =
      l.written ++ (Written.of result appMode).toList := by
  unfold Written.of
  split_ifs
  · rfl
  · exact written_handleKeyCode _ _

end TermKeyListener

namespace EmulatorView

variable {v : EmulatorView}

def written (v : EmulatorView) : List Written := v.mKeyListener.written

/-- A menu key that has been sent, or not. -/
def menuKey (sent : Bool) : ModifierKey := if sent then .pressed else .unpressed

/-- Ctrl and Fn are as the menu has left them. -/
structure Pending (v : EmulatorView) (control fn : Bool) : Prop where
  controlKey : v.key .control = menuKey control
  fnKey : v.key .fn = menuKey fn
  controlSent : v.mIsControlKeySent = control
  fnSent : v.mIsFnKeySent = fn

theorem active_menuKey (sent : Bool) : (menuKey sent).isActive = sent := by
  cases sent <;> rfl

theorem clearSpecialKeyStatus_fields : v.clearSpecialKeyStatus.mIsControlKeySent = false ∧
    v.clearSpecialKeyStatus.mIsFnKeySent = false ∧
    v.clearSpecialKeyStatus.written = v.written := by
  unfold clearSpecialKeyStatus clearFn clearControl
  split_ifs with hcontrol hfn hfn
  · exact ⟨rfl, rfl, rfl⟩
  · exact ⟨rfl, eq_false_of_ne_true hfn, rfl⟩
  · exact ⟨eq_false_of_ne_true hcontrol, rfl, rfl⟩
  · exact ⟨eq_false_of_ne_true hcontrol, eq_false_of_ne_true hfn, rfl⟩

theorem written_mapAndSend (c : Int) (appMode : Bool) : (v.mapAndSend c appMode).written =
    v.written ++ (Written.of (mapControlChar (v.key .control).isActive (v.key .fn).isActive c)
      appMode).toList := by
  unfold mapAndSend
  rw [clearSpecialKeyStatus_fields.2.2]
  refine TermKeyListener.written_sent.trans ?_
  rw [TermKeyListener.written_adjust]
  rfl

section

variable {control fn : Bool}

theorem Pending.sendControlKey (h : Pending v control fn) : Pending v.sendControlKey true fn := by
  refine ⟨(key_perform .sendControlKey).trans ?_, (key_perform .sendControlKey).trans h.fnKey,
    rfl, h.fnSent⟩
  rw [h.controlKey]
  cases control <;> rfl

theorem Pending.sendFnKey (h : Pending v control fn) : Pending v.sendFnKey control true := by
  refine ⟨(key_perform .sendFnKey).trans h.controlKey, (key_perform .sendFnKey).trans ?_,
    h.controlSent, rfl⟩
  rw [h.fnKey]
  cases fn <;> rfl

theorem Pending.mapAndSend (h : Pending v control fn) {c : Int} (hc : IsCodePoint c)
    (appMode : Bool) : Pending (v.mapAndSend c appMode) false false := by
  obtain ⟨hcontrol, hfn, _⟩ := clearSpecialKeyStatus_fields (v := v.listening
    (v.mapAndSend c appMode).mKeyListener)
  have htouches (m : Modifier) : v.touches m (.mapAndSend c appMode) =
      [.use] ++ v.clearedBy m :=
    congrArg (· ++ v.clearedBy m) (usedBy_mapped (mapped_codePoint hc _ _))
  refine ⟨(key_perform (.mapAndSend c appMode)).trans ?_,
    (key_perform (.mapAndSend c appMode)).trans ?_, ?_, ?_⟩
  · rw [htouches, h.controlKey]
    unfold clearedBy
    rw [h.controlSent]
    cases control <;> rfl
  · rw [htouches, h.fnKey]
    unfold clearedBy
    rw [h.fnSent]
    cases fn <;> rfl
  · exact clearSpecialKeyStatus_fields.1
  · exact clearSpecialKeyStatus_fields.2.1

end

theorem textWritten_of_run {control fn : Bool} (h : Pending v control fn)
    {actions : List KeyAction} (htext : ∀ action ∈ actions, action.IsText) :
    (actions.foldl perform v).written = v.written ++ textWritten control fn actions := by
  induction actions generalizing v control fn with
  | nil => exact (List.append_nil _).symm
  | cons action actions ih =>
      obtain ⟨haction, hrest⟩ := List.forall_mem_cons.mp htext
      cases action with
      | sendControlKey => exact ih h.sendControlKey hrest
      | sendFnKey => exact ih h.sendFnKey hrest
      | mapAndSend c appMode =>
          have hmap := written_mapAndSend (v := v) c appMode
          rw [h.controlKey, h.fnKey, active_menuKey, active_menuKey] at hmap
          refine (ih (h.mapAndSend haction appMode) hrest).trans ?_
          rw [hmap, List.append_assoc]
          rfl
      | _ => exact haction.elim

theorem textWritten_items {control fn : Bool} {actions : List KeyAction}
    (htext : ∀ action ∈ actions, action.IsText) :
    (textWritten control fn actions).length = actions.countP KeyAction.isCharacter ∧
      ∀ w ∈ textWritten control fn actions, ∀ code ∈ fnDigitKeys, w ≠ .code code := by
  induction actions generalizing control fn with
  | nil => exact ⟨rfl, fun w hw => by cases hw⟩
  | cons action actions ih =>
      obtain ⟨haction, hrest⟩ := List.forall_mem_cons.mp htext
      cases action with
      | sendControlKey => exact ih hrest
      | sendFnKey => exact ih hrest
      | mapAndSend c appMode =>
          obtain ⟨hlength, hcodes⟩ := @ih false false hrest
          obtain ⟨w, hw, hne⟩ : ∃ w, Written.of (mapControlChar control fn c) appMode = some w ∧
              ∀ code ∈ fnDigitKeys, w ≠ .code code := by
            rcases written_of (mapped_codePoint haction control fn) appMode with
              ⟨_, hof⟩ | ⟨key, hkey, code, hcode, hof⟩
            · exact ⟨_, hof, fun _ _ heq => by cases heq⟩
            · refine ⟨_, hof, fun other hother heq => ?_⟩
              cases heq
              exact codeOf_mapped_ne key hkey appMode code hother hcode
          have hcons : textWritten control fn (.mapAndSend c appMode :: actions) =
              w :: textWritten false false actions := by
            change (Written.of _ appMode).toList ++ _ = _
            rw [hw]
            rfl
          rw [hcons]
          refine ⟨?_, List.forall_mem_cons.mpr ⟨hne, hcodes⟩⟩
          rw [List.length_cons, hlength, List.countP_cons_of_pos rfl]
      | _ => exact haction.elim

/-- Text of the input method, and the menu's Ctrl and Fn: each of the two acts on the next
character and on no other, however often it has been sent; every character is written as one
code point or one key code; and the digits under Fn are never F1 to F9. -/
theorem text_of_run {control fn : Bool} (h : Pending v control fn) {actions : List KeyAction}
    (htext : ∀ action ∈ actions, action.IsText) :
    (actions.foldl perform v).written = v.written ++ textWritten control fn actions ∧
      (textWritten control fn actions).length = actions.countP KeyAction.isCharacter ∧
      ∀ w ∈ textWritten control fn actions, ∀ code ∈ fnDigitKeys, w ≠ .code code :=
  ⟨textWritten_of_run h htext, textWritten_items htext⟩

def sampleText : List KeyAction :=
  [.sendControlKey, .sendControlKey, .mapAndSend 99 false, .mapAndSend 99 false, .sendFnKey,
    .mapAndSend 119 true, .sendFnKey, .mapAndSend 49 false]

theorem text_of_run_sample : (sampleText.foldl perform create).written =
    [.codePoint 3, .codePoint 99, .code "\x1bOA", .codePoint 179] := by
  have hcreate : Pending create false false := ⟨rfl, rfl, rfl, rfl⟩
  have htext : ∀ action ∈ sampleText, action.IsText := by
    simp [sampleText, KeyAction.IsText, IsCodePoint, maxCodePoint]
  exact (text_of_run hcreate htext).1.trans (by decide)

end EmulatorView

/-! ## §3  All that is written -/

/-- An escape, a code point, or a code of the key tables. -/
def Written.Valid : Written → Prop
  | .bytes data => data = [0x1b]
  | .code text => ∃ keyCode appMode, codeOf keyCode appMode = some text
  | .codePoint c => IsCodePoint c

/-- The session takes every code point. -/
theorem write_codePoint {c : Int} (h : IsCodePoint c) (s : CodePointWriter) :
    ∃ t, s.write c = .ok t := by
  have hbound : maxCodePoint = 0x10ffff := rfl
  obtain ⟨hlow, hhigh⟩ := h
  unfold CodePointWriter.write
  rw [if_neg (by omega)]
  exact ⟨_, rfl⟩

/-- What is written for a character, if it is one. -/
def writtenFor (control fn : Bool) (c : Int) (appMode : Bool) : List Written :=
  if mapControlChar control fn c > -1 then
    (Written.of (mapControlChar control fn c) appMode).toList
  else []

theorem valid_of_mapped {r : Int} (h : IsMapped r) (appMode : Bool) :
    ∃ w, Written.of r appMode = some w ∧ w.Valid := by
  rcases written_of h appMode with ⟨hr, hof⟩ | ⟨key, _, code, hcode, hof⟩
  · exact ⟨_, hof, hr⟩
  · exact ⟨_, hof, key, appMode, hcode⟩

theorem writtenFor_valid {c : Int} (hc : c ≤ maxCodePoint) (control fn appMode : Bool) :
    (∀ w ∈ writtenFor control fn c appMode, w.Valid) ∧
      (usedBy (mapControlChar control fn c) = [.use] →
        (writtenFor control fn c appMode).length = 1) := by
  unfold writtenFor
  rcases mapControlChar_cases hc control fn with ⟨hmap, hdead⟩ | hmapped
  · have hnone : ¬ mapControlChar control fn c > -1 := by omega
    unfold usedBy
    rw [if_neg hnone, if_neg hnone]
    exact ⟨List.forall_mem_nil _, fun hfalse => by cases hfalse⟩
  · obtain ⟨w, hof, hw⟩ := valid_of_mapped hmapped appMode
    have hsome : mapControlChar control fn c > -1 := by
      have hle := mapped_nonneg hmapped
      omega
    rw [if_pos hsome, hof]
    exact ⟨List.forall_mem_singleton.mpr hw, fun _ => rfl⟩

namespace TermKeyListener

variable {l : TermKeyListener}

theorem written_send (control fn : Bool) (c : Int) (appMode : Bool) :
    (l.send control fn c appMode).written =
      l.written ++ writtenFor control fn c appMode := by
  have hoffset : keycodeOffset = 10485760 := rfl
  unfold send writtenFor Written.of
  dsimp only
  by_cases hkey : mapControlChar control fn c ≥ keycodeOffset
  · rw [if_pos hkey, if_pos (by omega), if_neg (by omega), written_handleKeyCode, written_adjust]
  · rw [if_neg hkey]
    by_cases hpos : mapControlChar control fn c ≥ 0
    · rw [if_pos hpos, if_pos (by omega), if_pos (by omega)]
      exact congrArg (· ++ _) (written_adjust _)
    · rw [if_neg hpos, if_neg (by omega), written_adjust, List.append_nil]

theorem writtenFor_none (control fn appMode : Bool) : writtenFor control fn (-1) appMode = [] := by
  unfold writtenFor
  rw [mapControlChar_none]
  rfl

theorem mem_escapes {metaState : BitVec 32} {allowToggle : Bool} {w : Written}
    (h : w ∈ (l.effectiveMeta metaState allowToggle).2) : w = escape := by
  have hif {p : Prop} [Decidable p] (hmem : w ∈ if p then [escape] else []) : w = escape := by
    split_ifs at hmem
    · exact List.mem_singleton.mp hmem
    · cases hmem
  unfold effectiveMeta at h
  exact (List.mem_append.mp h).elim hif hif

/-- What a key writes: an escape for Alt and for Meta, and the code or the character. -/
theorem written_keyDown {keyCode : Int} {event : KeyEvent} (hback : l.mBackKeyCode ≤ maxCodePoint)
    (hevent : ∀ metaState, event.getUnicodeChar metaState ≤ maxCodePoint)
    (appMode allowToggle : Bool) : ∃ escapes items,
      (l.keyDown keyCode event appMode allowToggle).written = l.written ++ (escapes ++ items) ∧
      (∀ w ∈ escapes, w = escape) ∧ (∀ w ∈ items, w.Valid) ∧
      ∀ m, l.pressedBy m keyCode event appMode allowToggle = [.use] → items.length = 1 := by
  unfold keyDown pressedBy typed
  by_cases hcode : (codeOf keyCode appMode).isSome = true
  · obtain ⟨code, hsome⟩ := Option.isSome_iff_exists.mp hcode
    refine ⟨[], [.code code], ?_, List.forall_mem_nil _,
      List.forall_mem_singleton.mpr ⟨keyCode, appMode, hsome⟩, fun _ _ => rfl⟩
    rw [if_pos hcode, written_handleKeyCode, hsome]
    rfl
  rw [if_neg hcode]
  simp only [if_neg hcode]
  by_cases halt : keyCode = keycodeAltRight ∨ keyCode = keycodeAltLeft
  · refine ⟨[], [], ?_, List.forall_mem_nil _, List.forall_mem_nil _, fun m huse => ?_⟩
    · rw [if_pos halt, written_send, writtenFor_none]
      cases allowToggle <;> rfl
    · rw [if_pos halt] at huse
      split_ifs at huse
      cases huse
  rw [if_neg halt]
  simp only [if_neg halt]
  by_cases hshift : keyCode = keycodeShiftLeft ∨ keyCode = keycodeShiftRight
  · refine ⟨[], [], ?_, List.forall_mem_nil _, List.forall_mem_nil _, fun m huse => ?_⟩
    · rw [if_pos hshift, written_send, writtenFor_none]
      cases allowToggle <;> rfl
    · rw [if_pos hshift] at huse
      split_ifs at huse
      cases huse
  rw [if_neg hshift]
  simp only [if_neg hshift]
  by_cases hignored : keyCode = keycodeCtrlLeft ∨ keyCode = keycodeCtrlRight ∨
      keyCode = keycodeCapsLock
  · refine ⟨[], [], ?_, List.forall_mem_nil _, List.forall_mem_nil _, fun m huse => ?_⟩
    · rw [if_pos hignored]
      exact (List.append_nil _).symm
    · rw [if_pos hignored] at huse
      cases huse
  rw [if_neg hignored]
  simp only [if_neg hignored]
  by_cases hkey : keyCode = keycodeBack
  · obtain ⟨hvalid, hone⟩ := writtenFor_valid hback (allowToggle && (l.key .control).isActive)
      (allowToggle && (l.key .fn).isActive) appMode
    simp only [if_pos hkey]
    exact ⟨[], _, written_send _ _ _ _, List.forall_mem_nil _, hvalid, fun _ => hone⟩
  · obtain ⟨hvalid, hone⟩ := writtenFor_valid
      (hevent (l.effectiveMeta event.metaState allowToggle).1)
      (metaCtrlOn &&& event.metaState ≠ 0 || (allowToggle && (l.key .control).isActive))
      (allowToggle && (l.key .fn).isActive) appMode
    simp only [if_neg hkey]
    refine ⟨(l.effectiveMeta event.metaState allowToggle).2, _,
      (written_send _ _ _ _).trans (List.append_assoc _ _ _), ?_, hvalid, fun _ => hone⟩
    exact fun w hw => mem_escapes hw

theorem back_handleKeyCode (keyCode : Int) (appMode : Bool) :
    (l.handleKeyCode keyCode appMode).mBackKeyCode = l.mBackKeyCode := by
  unfold handleKeyCode
  cases codeOf keyCode appMode <;> rfl

theorem back_adjust (result : Int) : (l.adjust result).mBackKeyCode = l.mBackKeyCode := by
  unfold adjust
  split_ifs <;> rfl

theorem back_send (control fn : Bool) (c : Int) (appMode : Bool) :
    (l.send control fn c appMode).mBackKeyCode = l.mBackKeyCode := by
  unfold send
  refine Eq.trans ?_ (back_adjust (mapControlChar control fn c))
  dsimp only
  split_ifs
  · exact back_handleKeyCode _ _
  · rfl
  · rfl

theorem back_keyDown (keyCode : Int) (event : KeyEvent) (appMode allowToggle : Bool) :
    (l.keyDown keyCode event appMode allowToggle).mBackKeyCode = l.mBackKeyCode := by
  unfold keyDown
  split_ifs
  · exact back_handleKeyCode _ _
  · exact back_send _ _ _ _
  · exact back_send _ _ _ _
  · exact back_send _ _ _ _
  · exact back_send _ _ _ _
  · rfl
  · exact back_send _ _ _ _
  · exact back_send _ _ _ _

theorem keyUp_fields (keyCode : Int) (allowToggle : Bool) :
    (l.keyUp keyCode allowToggle).mBackKeyCode = l.mBackKeyCode ∧
      (l.keyUp keyCode allowToggle).written = l.written := by
  unfold keyUp
  split_ifs <;> exact ⟨rfl, rfl⟩

end TermKeyListener

/-- What Android can hand over: code points, and negative codes for dead keys. -/
def KeyAction.InRange : KeyAction → Prop
  | .onKeyDown _ event _ _ => ∀ metaState, event.getUnicodeChar metaState ≤ maxCodePoint
  | .mapAndSend c _ => IsCodePoint c
  | .setBackKeyCharacter keyCode => keyCode ≤ maxCodePoint
  | _ => True

namespace EmulatorView

variable {v : EmulatorView}

def back (v : EmulatorView) : Int := v.mKeyListener.mBackKeyCode

structure Sound (v : EmulatorView) : Prop where
  back : v.back ≤ maxCodePoint
  written : ∀ w ∈ v.written, w.Valid

theorem back_clear : v.clearSpecialKeyStatus.back = v.back := by
  unfold clearSpecialKeyStatus clearFn clearControl
  split_ifs <;> rfl

theorem Sound.mapAndSend (h : Sound v) {c : Int} (hc : IsCodePoint c) (appMode : Bool) :
    Sound (v.mapAndSend c appMode) := by
  constructor
  · unfold EmulatorView.mapAndSend
    rw [back_clear]
    refine le_of_eq_of_le ?_ h.back
    change TermKeyListener.mBackKeyCode (if _ then _ else _) = _
    split_ifs
    · exact TermKeyListener.back_adjust _
    · exact (TermKeyListener.back_handleKeyCode _ _).trans (TermKeyListener.back_adjust _)
  · obtain ⟨w, hof, hw⟩ := valid_of_mapped
      (mapped_codePoint hc (v.key .control).isActive (v.key .fn).isActive) appMode
    rw [written_mapAndSend, hof]
    exact List.forall_mem_append.mpr ⟨h.written, List.forall_mem_singleton.mpr hw⟩

/-- What a key that goes down writes. -/
theorem Sound.onKeyDown_writes (h : Sound v) {keyCode : Int} {event : KeyEvent}
    (hevent : ∀ metaState, event.getUnicodeChar metaState ≤ maxCodePoint)
    (appMode allowToggle : Bool) : ∃ escapes items,
      (v.onKeyDown keyCode event appMode allowToggle).written =
        v.written ++ (escapes ++ items) ∧
      (∀ w ∈ escapes, w = TermKeyListener.escape) ∧ (∀ w ∈ items, w.Valid) ∧
      ∀ m, v.touches m (.onKeyDown keyCode event appMode allowToggle) = [.use] →
        items.length = 1 := by
  unfold onKeyDown touches
  dsimp only
  by_cases hcontrol : keyCode = v.mControlKeyCode
  · refine ⟨[], [], ?_, List.forall_mem_nil _, List.forall_mem_nil _, fun m huse => ?_⟩
    · rw [if_pos hcontrol]
      exact (List.append_nil _).symm
    · rw [if_pos hcontrol] at huse
      split_ifs at huse
      cases huse
  rw [if_neg hcontrol]
  simp only [if_neg hcontrol]
  by_cases hfn : keyCode = v.mFnKeyCode
  · refine ⟨[], [], ?_, List.forall_mem_nil _, List.forall_mem_nil _, fun m huse => ?_⟩
    · rw [if_pos hfn]
      exact (List.append_nil _).symm
    · rw [if_pos hfn] at huse
      split_ifs at huse
      cases huse
  rw [if_neg hfn]
  simp only [if_neg hfn]
  by_cases hpass : v.passesOn keyCode event = true
  · refine ⟨[], [], ?_, List.forall_mem_nil _, List.forall_mem_nil _, fun m huse => ?_⟩
    · rw [if_pos hpass]
      exact (List.append_nil _).symm
    · rw [if_pos hpass] at huse
      cases huse
  · rw [if_neg hpass]
    simp only [if_neg hpass]
    exact TermKeyListener.written_keyDown h.back hevent appMode allowToggle

theorem Sound.onKeyDown (h : Sound v) {keyCode : Int} {event : KeyEvent}
    (hevent : ∀ metaState, event.getUnicodeChar metaState ≤ maxCodePoint)
    (appMode allowToggle : Bool) : Sound (v.onKeyDown keyCode event appMode allowToggle) := by
  constructor
  · refine le_of_eq_of_le ?_ h.back
    unfold EmulatorView.onKeyDown
    split_ifs
    · rfl
    · rfl
    · rfl
    · exact TermKeyListener.back_keyDown _ _ _ _
  · obtain ⟨escapes, items, hwritten, hescapes, hitems, _⟩ :=
      @Sound.onKeyDown_writes v h keyCode event hevent appMode allowToggle
    rw [hwritten]
    refine List.forall_mem_append.mpr ⟨h.written, List.forall_mem_append.mpr ⟨?_, hitems⟩⟩
    exact fun w hw => hescapes w hw ▸ rfl

theorem Sound.onKeyUp (h : Sound v) (keyCode : Int) (event : KeyEvent) (allowToggle : Bool) :
    Sound (v.onKeyUp keyCode event allowToggle) := by
  obtain ⟨hback, hwritten⟩ := v.mKeyListener.keyUp_fields keyCode allowToggle
  unfold EmulatorView.onKeyUp
  split_ifs
  · exact ⟨h.back, h.written⟩
  · exact ⟨h.back, h.written⟩
  · exact h
  · refine ⟨?_, ?_⟩
    · rw [back_clear]
      exact le_of_eq_of_le hback h.back
    · intro w hw
      rw [clearSpecialKeyStatus_fields.2.2] at hw
      have hold : w ∈ (v.mKeyListener.keyUp keyCode allowToggle).written := hw
      rw [hwritten] at hold
      exact h.written w hold

theorem Sound.perform (h : Sound v) {action : KeyAction} (haction : action.InRange) :
    Sound (v.perform action) := by
  cases action with
  | onKeyDown keyCode event appMode allowToggle => exact h.onKeyDown haction appMode allowToggle
  | onKeyUp keyCode event allowToggle => exact h.onKeyUp keyCode event allowToggle
  | mapAndSend c appMode => exact h.mapAndSend haction appMode
  | setBackKeyCharacter keyCode => exact ⟨haction, h.written⟩
  | _ => exact ⟨h.back, h.written⟩

theorem sound_of_run {actions : List KeyAction} (h : ∀ action ∈ actions, action.InRange)
    (hv : Sound v) : Sound (actions.foldl perform v) := by
  induction actions generalizing v with
  | nil => exact hv
  | cons action actions ih =>
      obtain ⟨haction, hrest⟩ := List.forall_mem_cons.mp h
      exact ih hrest (hv.perform haction)

/-- Whatever is pressed and typed, the session is given escapes, code points and codes of the
key tables, so that writing them never throws, and a key that types something is given to it
exactly once. -/
theorem written_of_run {actions : List KeyAction} (h : ∀ action ∈ actions, action.InRange) :
    (∀ w ∈ (actions.foldl perform create).written, w.Valid) ∧
    (∀ c, .codePoint c ∈ (actions.foldl perform create).written →
      ∀ s : CodePointWriter, ∃ t, s.write c = .ok t) ∧
    ∀ (keyCode : Int) (event : KeyEvent) (appMode allowToggle : Bool),
      (∀ metaState, event.getUnicodeChar metaState ≤ maxCodePoint) → ∃ escapes items,
      ((actions.foldl perform create).onKeyDown keyCode event appMode allowToggle).written =
        (actions.foldl perform create).written ++ (escapes ++ items) ∧
      (∀ w ∈ escapes, w = TermKeyListener.escape) ∧ (∀ w ∈ items, w.Valid) ∧
      ∀ m, (actions.foldl perform create).touches m
        (.onKeyDown keyCode event appMode allowToggle) = [.use] → items.length = 1 := by
  have hsound : Sound (actions.foldl perform create) :=
    sound_of_run h ⟨by decide, List.forall_mem_nil _⟩
  exact ⟨hsound.written, fun c hc => write_codePoint (hsound.written _ hc),
    fun keyCode event appMode allowToggle hevent =>
      hsound.onKeyDown_writes hevent appMode allowToggle⟩

theorem written_of_run_sample :
    ((sampleKeys ++ sampleText).foldl perform create).written.length = 5 ∧
      ∀ w ∈ ((sampleKeys ++ sampleText).foldl perform create).written, w.Valid := by
  refine ⟨by decide, (written_of_run ?_).1⟩
  simp [sampleKeys, sampleEvent, sampleText, KeyAction.InRange, IsCodePoint, maxCodePoint]

end EmulatorView

/-! ## §4  The older copy -/

/-- What `mapAndSend` hands on: a character, or the code of a key. -/
inductive HandedOn where
  | char (c : Int)
  | key (keyCode : Int)
deriving DecidableEq, Repr

/-- `mapAndSend` with the offset of either copy. -/
def handedOn (offset : Int) (control fn : Bool) (c : Int) : HandedOn :=
  if mapControlCharFrom offset control fn c < offset then
    .char (mapControlCharFrom offset control fn c)
  else .key (mapControlCharFrom offset control fn c - offset)

theorem map_fnDigit {control fn : Bool} {c : Int} (h : IsFnDigit control fn c) (offset : Int) :
    mapControlCharFrom offset control fn c = castChar (c + offset + keycodeF1 - 1) := by
  obtain ⟨rfl, rfl, hlow, hhigh⟩ := h
  have hzero : lit '0' = 48 := rfl
  have hnine : lit '9' = 57 := rfl
  have hdigit : c = 49 ∨ c = 50 ∨ c = 51 ∨ c = 52 ∨ c = 53 ∨ c = 54 ∨ c = 55 ∨ c = 56 ∨ c = 57 := by
    omega
  rcases hdigit with rfl | rfl | rfl | rfl | rfl | rfl | rfl | rfl | rfl <;> rfl

/-- The copies do the same with a character of the input method exactly if it is below the
older offset and no digit under Fn.  From that offset on the older copy takes every character
for a key. -/
theorem copies_agree_iff (control fn : Bool) (c : JChar) :
    (handedOn olderOffset control fn c.toNat = handedOn keycodeOffset control fn c.toNat ↔
      (c.toNat : Int) < olderOffset ∧ ¬ IsFnDigit control fn c.toNat) ∧
    (olderOffset ≤ c.toNat →
      handedOn olderOffset control fn c.toNat = .key (c.toNat - olderOffset)) := by
  have holder : olderOffset = 1000 := rfl
  have hnewer : keycodeOffset = 10485760 := rfl
  have hone : keycodeF1 = 131 := rfl
  have hnine : lit '9' = 57 := rfl
  have hlt : c.toNat < 2 ^ 16 := c.isLt
  unfold handedOn
  by_cases hfn : IsFnDigit control fn c.toNat
  · have hdigit := hfn.2.2
    have hzero : lit '0' = 48 := rfl
    rw [map_fnDigit hfn, map_fnDigit hfn]
    unfold castChar
    rw [if_neg (by omega), if_pos (by omega)]
    refine ⟨⟨HandedOn.noConfusion, fun hboth => absurd hfn hboth.2⟩, fun hlarge => ?_⟩
    omega
  · cases mapControlChar_maps control fn c.toNat with
    | same hsame =>
        rw [hsame, hsame, if_pos (show (c.toNat : Int) < keycodeOffset by omega)]
        split_ifs with hsmall
        · exact ⟨⟨fun _ => ⟨hsmall, hfn⟩, fun _ => rfl⟩, fun hlarge => by omega⟩
        · exact ⟨⟨False.elim, fun hboth => absurd hboth.1 hsmall⟩, fun _ => rfl⟩
    | ascii r hc hr hascii =>
        rw [hascii, hascii, if_pos (by omega), if_pos (by omega)]
        exact ⟨⟨fun _ => ⟨by omega, hfn⟩, fun _ => rfl⟩, fun hlarge => by omega⟩
    | key k hc hk hkey =>
        have hpos := mappedKeys_nonneg k hk
        rw [hkey, hkey, if_neg (by omega), if_neg (by omega)]
        refine ⟨⟨fun _ => ⟨by omega, hfn⟩, fun _ => ?_⟩, fun hlarge => by omega⟩
        exact congrArg HandedOn.key (by omega)
    | digit hc _ => exact absurd hc hfn

/-- What happens to a listener of either copy, but for the menu of the newer one. -/
inductive CopyAction where
  | touch (m : Modifier) (down : Bool)
  | character (c : JChar)

/-- A modifier goes down or up. -/
def touched (key : Modifier → ModifierKey) (m : Modifier) (down : Bool) : Modifier → ModifierKey :=
  fun n => if n = m then if down then (key m).onPress else (key m).onRelease else key n

def adjusted (key : Modifier → ModifierKey) : Modifier → ModifierKey :=
  fun m => (key m).adjustAfterKeypress

/-- What a copy hands on along a run. -/
def handedAlong (offset : Int) : (Modifier → ModifierKey) → List CopyAction → List HandedOn
  | _, [] => []
  | key, .touch m down :: actions => handedAlong offset (touched key m down) actions
  | key, .character c :: actions =>
      handedOn offset (key .control).isActive (key .fn).isActive c.toNat ::
        handedAlong offset
          (if mapControlCharFrom offset (key .control).isActive (key .fn).isActive c.toNat > -1
            then adjusted key else key) actions

/-- Every character of a run is one on which the copies agree. -/
def PlainAlong : (Modifier → ModifierKey) → List CopyAction → Prop
  | _, [] => True
  | key, .touch m down :: actions => PlainAlong (touched key m down) actions
  | key, .character c :: actions =>
      ((c.toNat : Int) < olderOffset ∧
        ¬ IsFnDigit (key .control).isActive (key .fn).isActive c.toNat) ∧
      PlainAlong (adjusted key) actions

theorem mapControlChar_used {offset : Int} (hoffset : 0 ≤ offset) (control fn : Bool) (c : JChar) :
    mapControlCharFrom offset control fn c.toNat > -1 := by
  cases mapControlChar_maps control fn c.toNat with
  | same hsame =>
      rw [hsame]
      omega
  | ascii r _ hr hascii =>
      rw [hascii]
      omega
  | key k _ hk hkey =>
      have hpos := mappedKeys_nonneg k hk
      rw [hkey]
      omega
  | digit _ hdigit =>
      rw [hdigit]
      unfold castChar
      omega

theorem handedAlong_eq_iff (key : Modifier → ModifierKey) (actions : List CopyAction) :
    handedAlong olderOffset key actions = handedAlong keycodeOffset key actions ↔
      PlainAlong key actions := by
  induction actions generalizing key with
  | nil => exact ⟨fun _ => trivial, fun _ => rfl⟩
  | cons action actions ih =>
      cases action with
      | touch m down => exact ih _
      | character c =>
          unfold handedAlong PlainAlong
          rw [if_pos (mapControlChar_used (by decide) _ _ c),
            if_pos (mapControlChar_used (by decide) _ _ c), List.cons.injEq, ih,
            (copies_agree_iff _ _ c).1]

/-- Along every run of modifiers and characters the two copies hand on the same exactly if
every character is below the older offset and no digit under Fn at its time; from that offset
on the older copy takes every character for a key. -/
theorem copies_agree_along (key : Modifier → ModifierKey) (actions : List CopyAction) :
    (handedAlong olderOffset key actions = handedAlong keycodeOffset key actions ↔
      PlainAlong key actions) ∧
    ∀ (control fn : Bool) (c : JChar), olderOffset ≤ c.toNat →
      handedOn olderOffset control fn c.toNat = .key (c.toNat - olderOffset) :=
  ⟨handedAlong_eq_iff key actions, fun control fn c => (copies_agree_iff control fn c).2⟩

end Kbox.Emulatorview
