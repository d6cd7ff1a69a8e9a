import Kbox.Emulatorview.TypedText

/-!
# Composing text

The callbacks of the two `InputConnection`s.  They keep a string and offsets into it; the copies
differ in how far they check the offsets before they cut, and in what they make of surrogates when
they send the text.
-/

namespace Kbox

open Kbox.Framework Kbox.Emulatorview

/-! ## §1  The callbacks -/

structure InputConnection where
  mImeBuffer : List JChar
  mCursor : Int
  mComposingTextStart : Int
  mComposingTextEnd : Int
  mSelectedTextStart : Int
  mSelectedTextEnd : Int
  /-- What `sendText` has handed on, to the session or to the key tables; an `IOException` of the
  terminal is caught and logged. -/
  sent : List HandedOn
deriving DecidableEq, Repr

/-- `String.substring` -/
def substring (text : List JChar) (beginIndex endIndex : Int) : Except Exn (List JChar) :=
  if beginIndex < 0 ∨ endIndex > text.length ∨ beginIndex > endIndex then
    .error .stringIndexOutOfBounds
  else .ok (stretch text beginIndex.toNat (endIndex - beginIndex).toNat)

/-- Whether Ctrl and Fn act on a character. -/
structure Modifiers where
  control : Bool
  fn : Bool
deriving DecidableEq, Repr

/-- A character is written, and a key's code looked up. -/
def passOn (write : Int → Except Exn Unit) : HandedOn → Except Exn Unit
  | .char r => write r
  | .key _ => .ok ⟨⟩

/-- `mapAndSend` for one character after the other, with the modifiers that act on each of them. -/
def mapAndSendAll (offset : Int) (write : Int → Except Exn Unit) :
    List Modifiers → List Int → Except Exn (List HandedOn)
  | _, [] => .ok []
  | acting, c :: cs => do
      let modifiers := acting.headD ⟨false, false⟩
      let handed := handedOn offset modifiers.control modifiers.fn c
      passOn write handed
      return handed :: (← mapAndSendAll offset write acting.tail cs)

theorem mapAndSendAll_cons (offset : Int) (write : Int → Except Exn Unit)
    (acting : List Modifiers) (c : Int) (cs : List Int) :
    mapAndSendAll offset write acting (c :: cs) = (do
      let modifiers := acting.headD ⟨false, false⟩
      let handed := handedOn offset modifiers.control modifiers.fn c
      passOn write handed
      return handed :: (← mapAndSendAll offset write acting.tail cs)) := rfl

/-- The methods that are not the same in both copies. -/
structure InputMethods where
  sendText : List Modifiers → List JChar → Except Exn (List HandedOn)
  clearComposingText : InputConnection → Except Exn InputConnection
  setComposingText : List JChar → Int → InputConnection → Except Exn InputConnection
  getSelectedText : InputConnection → Except Exn (List JChar)

namespace InputConnection

/-- A new connection of a view. -/
def create (mImeBuffer : List JChar) : InputConnection := ⟨mImeBuffer, 0, 0, 0, 0, 0, []⟩

/-- `clearComposingText`, behind the check that one copy makes. -/
def removeComposing (s : InputConnection) : Except Exn InputConnection := do
  let before ← substring s.mImeBuffer 0 s.mComposingTextStart
  let after ← substring s.mImeBuffer s.mComposingTextEnd s.mImeBuffer.length
  return { s with
    mImeBuffer := before ++ after
    mCursor :=
      if s.mCursor < s.mComposingTextStart then s.mCursor
      else if s.mCursor < s.mComposingTextEnd then s.mComposingTextStart
      else s.mCursor - (s.mComposingTextEnd - s.mComposingTextStart)
    mComposingTextStart := 0
    mComposingTextEnd := 0 }

/-- `setComposingText`, behind the check that one copy makes.  The new end is no greater than the
length of a string; the position of the cursor may overflow. -/
def replaceComposing (text : List JChar) (newCursorPosition : Int) (s : InputConnection) :
    Except Exn InputConnection := do
  let before ← substring s.mImeBuffer 0 s.mComposingTextStart
  let after ← substring s.mImeBuffer s.mComposingTextEnd s.mImeBuffer.length
  let newEnd := s.mComposingTextStart + text.length
  return { s with
    mImeBuffer := before ++ text ++ after
    mComposingTextEnd := newEnd
    mCursor :=
      if newCursorPosition > 0 then isub (iadd newEnd newCursorPosition) 1
      else isub s.mComposingTextStart newCursorPosition }

def beginBatchEdit (s : InputConnection) : InputConnection :=
  { s with mImeBuffer := [], mCursor := 0, mComposingTextStart := 0, mComposingTextEnd := 0 }

def finishComposingText (m : InputMethods) (acting : List Modifiers) (s : InputConnection) :
    Except Exn InputConnection := do
  let handed ← m.sendText acting s.mImeBuffer
  return { s with
    sent := s.sent ++ handed
    mImeBuffer := []
    mComposingTextStart := 0
    mComposingTextEnd := 0
    mCursor := 0 }

def commitText (m : InputMethods) (acting : List Modifiers) (text : List JChar)
    (s : InputConnection) : Except Exn InputConnection := do
  let s ← m.clearComposingText s
  let handed ← m.sendText acting text
  return { s with sent := s.sent ++ handed, mImeBuffer := [], mCursor := 0 }

def setSelection (start last : Int) (s : InputConnection) : InputConnection :=
  let length : Int := s.mImeBuffer.length
  if start = last ∧ start > 0 ∧ start < length then
    { s with mSelectedTextStart := 0, mSelectedTextEnd := 0, mCursor := start }
  else if start < last ∧ start > 0 ∧ last < length then
    { s with mSelectedTextStart := start, mSelectedTextEnd := last, mCursor := start }
  else s

def setComposingRegion (m : InputMethods) (start last : Int) (s : InputConnection) :
    Except Exn InputConnection :=
  if start < last ∧ start > 0 ∧ last < s.mImeBuffer.length then do
    let s ← m.clearComposingText s
    return { s with mComposingTextStart := start, mComposingTextEnd := last }
  else return s

def getTextAfterCursor (n : Int) (s : InputConnection) : Except Exn (List JChar) :=
  let len := min n (isub s.mImeBuffer.length s.mCursor)
  if len ≤ 0 ∨ s.mCursor < 0 ∨ s.mCursor ≥ s.mImeBuffer.length then return []
  else substring s.mImeBuffer s.mCursor (s.mCursor + len)

def getTextBeforeCursor (n : Int) (s : InputConnection) : Except Exn (List JChar) :=
  let len := min n s.mCursor
  if len ≤ 0 ∨ s.mCursor < 0 ∨ s.mCursor ≥ s.mImeBuffer.length then return []
  else substring s.mImeBuffer (s.mCursor - len) s.mCursor

end InputConnection

open InputConnection

namespace Androidterm.EmulatorView

/-- `OutputStream.write` takes every `int`. -/
def sendText (acting : List Modifiers) (text : List JChar) : Except Exn (List HandedOn) :=
  mapAndSendAll olderOffset (fun _ => .ok ⟨⟩) acting (text.map fun c => (c.toNat : Int))

def clearComposingText (s : InputConnection) : Except Exn InputConnection := s.removeComposing

def setComposingText (text : List JChar) (newCursorPosition : Int) (s : InputConnection) :
    Except Exn InputConnection := s.replaceComposing text newCursorPosition

def getSelectedText (s : InputConnection) : Except Exn (List JChar) :=
  substring s.mImeBuffer s.mSelectedTextStart (s.mSelectedTextEnd + 1)

def methods : InputMethods := ⟨sendText, clearComposingText, setComposingText, getSelectedText⟩

end Androidterm.EmulatorView

namespace Emulatorview.EmulatorView

/-- What `sendText` makes of the characters: a high surrogate takes the one behind it, whatever
that is, and is replaced at the end. -/
def codePoints : List JChar → List Int
  | [] => []
  | [c] => if isHighSurrogate c then [0xfffd] else [(c.toNat : Int)]
  | c :: d :: rest =>
      if isHighSurrogate c then toCodePoint c d :: codePoints rest
      else (c.toNat : Int) :: codePoints (d :: rest)

/-- `Character.toChars` in `TermSession.write(int)`. -/
def sessionWrite (codePoint : Int) : Except Exn Unit :=
  if codePoint < 0 ∨ codePoint > 0x10ffff then .error .illegalArgument else .ok ⟨⟩

def sendText (acting : List Modifiers) (text : List JChar) : Except Exn (List HandedOn) :=
  mapAndSendAll keycodeOffset sessionWrite acting (codePoints text)

def clearComposingText (s : InputConnection) : Except Exn InputConnection :=
  let len : Int := s.mImeBuffer.length
  if s.mComposingTextStart > len ∨ s.mComposingTextEnd > len then
    return { s with mComposingTextStart := 0, mComposingTextEnd := 0 }
  else s.removeComposing

def setComposingText (text : List JChar) (newCursorPosition : Int) (s : InputConnection) :
    Except Exn InputConnection :=
  let len : Int := s.mImeBuffer.length
  if s.mComposingTextStart > len ∨ s.mComposingTextEnd > len then return s
  else s.replaceComposing text newCursorPosition

def getSelectedText (s : InputConnection) : Except Exn (List JChar) :=
  let len : Int := s.mImeBuffer.length
  if s.mSelectedTextEnd ≥ len ∨ s.mSelectedTextStart > s.mSelectedTextEnd then return []
  else substring s.mImeBuffer s.mSelectedTextStart (s.mSelectedTextEnd + 1)

def methods : InputMethods := ⟨sendText, clearComposingText, setComposingText, getSelectedText⟩

end Emulatorview.EmulatorView

namespace InputConnection

/-- The calls that an input method makes; `acting` says which of Ctrl and Fn act on the characters
that are sent. -/
inductive Callback
  | beginBatchEdit
  | setComposingText (text : List JChar) (newCursorPosition : Int)
  | setComposingRegion (start last : Int)
  | setSelection (start last : Int)
  | commitText (acting : List Modifiers) (text : List JChar) (newCursorPosition : Int)
  | finishComposingText (acting : List Modifiers)
  | getTextBeforeCursor (n : Int)
  | getTextAfterCursor (n : Int)
  | getSelectedText
deriving DecidableEq, Repr

def Callback.run (m : InputMethods) (s : InputConnection) : Callback → Except Exn InputConnection
  | .beginBatchEdit => .ok s.beginBatchEdit
  | .setComposingText text newCursorPosition => m.setComposingText text newCursorPosition s
  | .setComposingRegion start last => s.setComposingRegion m start last
  | .setSelection start last => .ok (s.setSelection start last)
  | .commitText acting text _ => s.commitText m acting text
  | .finishComposingText acting => s.finishComposingText m acting
  | .getTextBeforeCursor n => (s.getTextBeforeCursor n).map fun _ => s
  | .getTextAfterCursor n => (s.getTextAfterCursor n).map fun _ => s
  | .getSelectedText => (m.getSelectedText s).map fun _ => s

/-! ## §2  One callback -/

/-- The composing text is a piece of the buffer, and the selection was one. -/
structure Consistent (s : InputConnection) : Prop where
  composing : 0 ≤ s.mComposingTextStart ∧ s.mComposingTextStart ≤ s.mComposingTextEnd ∧
    s.mComposingTextEnd ≤ s.mImeBuffer.length
  selected : 0 ≤ s.mSelectedTextStart ∧ s.mSelectedTextStart ≤ s.mSelectedTextEnd

/-- The callback returns, the composing text is a piece of the buffer, and `setComposingRegion`
has set the region and nothing else. -/
def Callback.Meets (m : InputMethods) (s : InputConnection) (c : Callback) : Prop :=
  ∃ t, c.run m s = .ok t ∧
    (0 ≤ t.mComposingTextStart ∧ t.mComposingTextStart ≤ t.mComposingTextEnd ∧
      t.mComposingTextEnd ≤ t.mImeBuffer.length) ∧
    ∀ start last, c = .setComposingRegion start last →
      t = { s with
        mComposingTextStart := t.mComposingTextStart, mComposingTextEnd := t.mComposingTextEnd }

/-- A region is set while there is no composing text, `getSelectedText` is called if it is
`selectable`, and the text that is sent is `sendable`. -/
def Callback.Safe (selectable : InputConnection → Prop) (sendable : List JChar → Prop)
    (s : InputConnection) : Callback → Prop
  | .setComposingRegion start last =>
      start < last ∧ start > 0 ∧ last < s.mImeBuffer.length →
        s.mComposingTextStart = s.mComposingTextEnd
  | .getSelectedText => selectable s
  | .commitText _ text _ => sendable text
  | .finishComposingText _ => sendable s.mImeBuffer
  | _ => True

/-- What the methods of a copy do while the offsets are right. -/
structure Copy (m : InputMethods) (selectable : InputConnection → Prop)
    (sendable : List JChar → Prop) : Prop where
  clear {s : InputConnection} : Consistent s → m.clearComposingText s = s.removeComposing
  replace {s : InputConnection} (text : List JChar) (n : Int) : Consistent s →
    m.setComposingText text n s = s.replaceComposing text n
  selected {s : InputConnection} : Consistent s →
    ((∃ text, m.getSelectedText s = .ok text) ↔ selectable s)
  sends (acting : List Modifiers) (text : List JChar) :
    (∃ handed, m.sendText acting text = .ok handed) ↔ sendable text

variable {m : InputMethods} {selectable : InputConnection → Prop}
  {sendable : List JChar → Prop} {s : InputConnection}

theorem substring_of_le {text : List JChar} {b e : Int} (hb : 0 ≤ b) (hbe : b ≤ e)
    (he : e ≤ text.length) :
    substring text b e = .ok (stretch text b.toNat (e - b).toNat) := by
  unfold substring
  rw [if_neg (by omega)]

/-- The two pieces around the composing text. -/
theorem Consistent.pieces (hs : Consistent s) :
    substring s.mImeBuffer 0 s.mComposingTextStart =
        .ok (s.mImeBuffer.take s.mComposingTextStart.toNat) ∧
      substring s.mImeBuffer s.mComposingTextEnd s.mImeBuffer.length =
        .ok (s.mImeBuffer.drop s.mComposingTextEnd.toNat) := by
  obtain ⟨hstart, hle, hend⟩ := hs.composing
  constructor
  · rw [substring_of_le (Int.le_refl 0) hstart (by omega), Int.sub_zero]
    rfl
  · rw [substring_of_le (by omega) hend (Int.le_refl _)]
    congr 1
    exact List.take_of_length_le (by rw [List.length_drop]; omega)

theorem Consistent.removeComposing (hs : Consistent s) :
    ∃ t, s.removeComposing = .ok t ∧ Consistent t ∧ t.mComposingTextStart = 0 ∧
      t.mComposingTextEnd = 0 ∧
      t.mImeBuffer = s.mImeBuffer.take s.mComposingTextStart.toNat ++
        s.mImeBuffer.drop s.mComposingTextEnd.toNat ∧
      (s.mComposingTextStart = s.mComposingTextEnd → t =
        { s with mComposingTextStart := 0, mComposingTextEnd := 0 }) := by
  obtain ⟨hbefore, hafter⟩ := hs.pieces
  unfold InputConnection.removeComposing
  rw [hbefore, hafter]
  refine ⟨_, rfl, ⟨⟨Int.le_refl 0, Int.le_refl 0, Int.natCast_nonneg _⟩, hs.selected⟩, rfl,
    rfl, rfl, fun hempty => ?_⟩
  have hcursor : (if s.mCursor < s.mComposingTextStart then s.mCursor
      else if s.mCursor < s.mComposingTextEnd then s.mComposingTextStart
      else s.mCursor - (s.mComposingTextEnd - s.mComposingTextStart)) = s.mCursor := by
    rw [hempty]
    split_ifs <;> omega
  rw [hcursor, hempty, List.take_append_drop]

theorem Consistent.replaceComposing (hs : Consistent s) (text : List JChar) (n : Int) :
    ∃ t, s.replaceComposing text n = .ok t ∧ Consistent t := by
  obtain ⟨hbefore, hafter⟩ := hs.pieces
  obtain ⟨hstart, hle, hend⟩ := hs.composing
  unfold InputConnection.replaceComposing
  rw [hbefore, hafter]
  refine ⟨_, rfl, ⟨hstart, ?_, ?_⟩, hs.selected⟩
  · show s.mComposingTextStart ≤ s.mComposingTextStart + text.length
    omega
  · show s.mComposingTextStart + text.length ≤ ((_ : List JChar).length : Int)
    rw [List.length_append, List.length_append, List.length_take, List.length_drop]
    omega

theorem Consistent.setSelection (hs : Consistent s) (start last : Int) :
    Consistent (s.setSelection start last) := by
  unfold InputConnection.setSelection
  dsimp only
  split_ifs with hpoint hrange
  · exact ⟨hs.composing, Int.le_refl 0, Int.le_refl 0⟩
  · exact ⟨hs.composing, by show (0 : Int) ≤ start; omega, Int.le_of_lt hrange.1⟩
  · exact hs

theorem getTextAfterCursor_ok (s : InputConnection) (n : Int) :
    ∃ text, s.getTextAfterCursor n = .ok text := by
  unfold getTextAfterCursor
  dsimp only
  split_ifs with hout
  · exact ⟨_, rfl⟩
  · have hwrap : isub s.mImeBuffer.length s.mCursor ≤ s.mImeBuffer.length - s.mCursor := by
      unfold isub wrap32
      omega
    exact ⟨_, substring_of_le (by omega) (by omega) (by omega)⟩

theorem getTextBeforeCursor_ok (s : InputConnection) (n : Int) :
    ∃ text, s.getTextBeforeCursor n = .ok text := by
  unfold getTextBeforeCursor
  dsimp only
  split_ifs with hout
  · exact ⟨_, rfl⟩
  · exact ⟨_, substring_of_le (by omega) (by omega) (by omega)⟩

/-- A safe callback meets what is asked of it, and leaves the offsets right. -/
theorem Copy.run_of_safe (hm : Copy m selectable sendable) (hs : Consistent s) {c : Callback}
    (hsafe : c.Safe selectable sendable s) : c.Meets m s ∧ ∀ t, c.run m s = .ok t → Consistent t := by
  have hreturns {t : InputConnection} (ht : c.run m s = .ok t) (hgood : Consistent t)
      (hregion : ∀ start last, c = .setComposingRegion start last →
        t = { s with
          mComposingTextStart := t.mComposingTextStart
          mComposingTextEnd := t.mComposingTextEnd }) :
      c.Meets m s ∧ ∀ t, c.run m s = .ok t → Consistent t := by
    refine ⟨⟨t, ht, hgood.composing, hregion⟩, fun u hu => ?_⟩
    rw [ht] at hu
    cases hu
    exact hgood
  have hempty : Consistent { s with
      mImeBuffer := [], mCursor := 0, mComposingTextStart := 0, mComposingTextEnd := 0 } :=
    ⟨⟨Int.le_refl 0, Int.le_refl 0, Int.le_refl 0⟩, hs.selected⟩
  cases c with
  | beginBatchEdit => exact hreturns rfl hempty nofun
  | setComposingText text n =>
      obtain ⟨t, ht, hgood⟩ := hs.replaceComposing text n
      exact hreturns ((hm.replace text n hs).trans ht) hgood nofun
  | setComposingRegion start last =>
      obtain ⟨t, ht, hgood, _, _, _, hsame⟩ := hs.removeComposing
      by_cases hguard : start < last ∧ start > 0 ∧ last < s.mImeBuffer.length
      · obtain rfl := hsame (hsafe hguard)
        refine hreturns (t := { s with
          mComposingTextStart := start, mComposingTextEnd := last }) ?_ ⟨?_, hs.selected⟩ ?_
        · show s.setComposingRegion m start last = _
          unfold InputConnection.setComposingRegion
          rw [if_pos hguard, hm.clear hs, ht]
          rfl
        · exact ⟨Int.le_of_lt hguard.2.1, Int.le_of_lt hguard.1, Int.le_of_lt hguard.2.2⟩
        · intro _ _ _
          rfl
      · refine hreturns (t := s) ?_ hs fun _ _ _ => rfl
        show s.setComposingRegion m start last = _
        unfold InputConnection.setComposingRegion
        rw [if_neg hguard]
        rfl
  | setSelection start last => exact hreturns rfl (hs.setSelection start last) nofun
  | commitText acting text n =>
      obtain ⟨t, ht, hgood, hstart, hend, _, _⟩ := hs.removeComposing
      obtain ⟨handed, hsend⟩ := (hm.sends acting text).mpr hsafe
      refine hreturns (t := { t with
        sent := t.sent ++ handed, mImeBuffer := [], mCursor := 0 }) ?_
        ⟨?_, hgood.selected⟩ nofun
      · show s.commitText m acting text = _
        unfold InputConnection.commitText
        rw [hm.clear hs, ht, hsend]
        rfl
      · rw [hstart, hend]
        exact ⟨Int.le_refl 0, Int.le_refl 0, Int.le_refl 0⟩
  | finishComposingText acting =>
      obtain ⟨handed, hsend⟩ := (hm.sends acting s.mImeBuffer).mpr hsafe
      refine hreturns (t := { s with
        sent := s.sent ++ handed, mImeBuffer := [], mComposingTextStart := 0
        mComposingTextEnd := 0, mCursor := 0 }) ?_ ⟨hempty.composing, hs.selected⟩ nofun
      show s.finishComposingText m acting = _
      unfold InputConnection.finishComposingText
      rw [hsend]
      rfl
  | getTextBeforeCursor n =>
      obtain ⟨text, htext⟩ := s.getTextBeforeCursor_ok n
      exact hreturns (congrArg (Except.map fun _ => s) htext) hs nofun
  | getTextAfterCursor n =>
      obtain ⟨text, htext⟩ := s.getTextAfterCursor_ok n
      exact hreturns (congrArg (Except.map fun _ => s) htext) hs nofun
  | getSelectedText =>
      obtain ⟨text, htext⟩ := (hm.selected hs).mpr hsafe
      exact hreturns (congrArg (Except.map fun _ => s) htext) hs nofun

/-- Only a safe callback does. -/
theorem Copy.safe_of_meets (hm : Copy m selectable sendable) (hs : Consistent s) {c : Callback}
    (hmeets : c.Meets m s) : c.Safe selectable sendable s := by
  obtain ⟨t, ht, _, hregion⟩ := hmeets
  cases c with
  | setComposingRegion start last =>
      intro hguard
      obtain ⟨u, hu, _, _, _, hbuffer, _⟩ := hs.removeComposing
      have hrun : s.setComposingRegion m start last =
          .ok { u with mComposingTextStart := start, mComposingTextEnd := last } := by
        unfold InputConnection.setComposingRegion
        rw [if_pos hguard, hm.clear hs, hu]
        rfl
      have htext : t.mImeBuffer = s.mImeBuffer :=
        (congrArg InputConnection.mImeBuffer (hregion start last rfl)).trans rfl
      have hsame : u.mImeBuffer = s.mImeBuffer := by
        have heq : t = { u with mComposingTextStart := start, mComposingTextEnd := last } :=
          Except.ok.inj (ht.symm.trans hrun)
        rw [← htext, heq]
      -- what is cut out has no length
      have hlength := congrArg List.length (hbuffer.symm.trans hsame)
      rw [List.length_append, List.length_take, List.length_drop] at hlength
      obtain ⟨hstart, hle, hend⟩ := hs.composing
      omega
  | getSelectedText =>
      refine (hm.selected hs).mp ?_
      cases htext : m.getSelectedText s with
      | ok text => exact ⟨text, rfl⟩
      | error e =>
          rw [Callback.run, htext] at ht
          cases ht
  | commitText acting text n =>
      refine (hm.sends acting text).mp ?_
      obtain ⟨u, hu, _⟩ := hs.removeComposing
      cases hsend : m.sendText acting text with
      | ok handed => exact ⟨handed, rfl⟩
      | error e =>
          rw [Callback.run, InputConnection.commitText, hm.clear hs, hu] at ht
          change (m.sendText acting text >>= fun handed => _) = _ at ht
          rw [hsend] at ht
          cases ht
  | finishComposingText acting =>
      refine (hm.sends acting s.mImeBuffer).mp ?_
      cases hsend : m.sendText acting s.mImeBuffer with
      | ok handed => exact ⟨handed, rfl⟩
      | error e =>
          rw [Callback.run, InputConnection.finishComposingText, hsend] at ht
          cases ht
  | _ => trivial

/-! ## §3  Runs -/

/-- Every callback of a run satisfies `P` in the state it is made in. -/
def AllSteps (m : InputMethods) (P : InputConnection → Callback → Prop) :
    List Callback → InputConnection → Prop
  | [], _ => True
  | c :: cs, s => P s c ∧ ∀ t, c.run m s = .ok t → AllSteps m P cs t

theorem Copy.allSteps_iff (hm : Copy m selectable sendable) (hs : Consistent s) (cs : List Callback) :
    AllSteps m (fun s c => c.Meets m s) cs s ↔
      AllSteps m (fun s c => c.Safe selectable sendable s) cs s := by
  induction cs generalizing s with
  | nil => exact Iff.rfl
  | cons c cs ih =>
      constructor
      · rintro ⟨hmeets, hrest⟩
        have hsafe := hm.safe_of_meets hs hmeets
        exact ⟨hsafe, fun t ht => (ih ((hm.run_of_safe hs hsafe).2 t ht)).mp (hrest t ht)⟩
      · rintro ⟨hsafe, hrest⟩
        obtain ⟨hmeets, hgood⟩ := hm.run_of_safe hs hsafe
        exact ⟨hmeets, fun t ht => (ih (hgood t ht)).mpr (hrest t ht)⟩

theorem consistent_create (mImeBuffer : List JChar) : Consistent (create mImeBuffer) :=
  ⟨⟨Int.le_refl 0, Int.le_refl 0, Int.natCast_nonneg _⟩, Int.le_refl 0, Int.le_refl 0⟩

/-- A write that never throws takes every text. -/
theorem mapAndSendAll_ok (offset : Int) (acting : List Modifiers) (cs : List Int) :
    ∃ handed, mapAndSendAll offset (fun _ => .ok ⟨⟩) acting cs = .ok handed := by
  induction cs generalizing acting with
  | nil => exact ⟨[], rfl⟩
  | cons c cs ih =>
      obtain ⟨handed, hrest⟩ := ih acting.tail
      rw [mapAndSendAll_cons, hrest]
      dsimp only
      cases handedOn offset (acting.headD ⟨false, false⟩).control
        (acting.headD ⟨false, false⟩).fn c <;> exact ⟨_, rfl⟩

end InputConnection

namespace Emulatorview.EmulatorView

/-- The session throws on what is no code point, whatever its buffers hold. -/
theorem sessionWrite_eq (w : CodePointWriter) (c : Int) :
    (w.write c).map (fun _ => ()) = sessionWrite c := by
  unfold CodePointWriter.write sessionWrite
  split_ifs <;> rfl

/-- Ctrl and Fn make code points or keys of code points, and leave all beyond as it is. -/
theorem passOn_ok_iff {c : Int} (hc : 0 ≤ c) (hbound : c < keycodeOffset)
    (modifiers : Modifiers) :
    passOn sessionWrite (handedOn keycodeOffset modifiers.control modifiers.fn c) = .ok ⟨⟩ ↔
      c ≤ maxCodePoint := by
  have hlast : maxCodePoint = 0x10ffff := rfl
  have hoffset : keycodeOffset = 10485760 := rfl
  unfold handedOn
  constructor
  · intro hok
    by_contra hlarge
    have hsame : mapControlCharFrom keycodeOffset modifiers.control modifiers.fn c = c := by
      cases mapControlChar_maps modifiers.control modifiers.fn c with
      | same h => exact h keycodeOffset
      | ascii r hsmall _ _ => omega
      | key k hsmall _ _ => omega
      | digit hdigit _ =>
          have hnine : lit '9' = 57 := rfl
          have := hdigit.2.2.2
          omega
    rw [hsame, if_pos hbound, passOn, sessionWrite, if_pos (by omega)] at hok
    cases hok
  · intro hle
    rcases mapped_codePoint ⟨hc, hle⟩ modifiers.control modifiers.fn with
      ⟨hlow, hhigh⟩ | ⟨key, hkey, hmapped⟩
    · unfold mapControlChar at hlow hhigh
      rw [if_pos (by omega), passOn, sessionWrite, if_neg (by omega)]
    · have hpos := mappedKeys_nonneg key hkey
      unfold mapControlChar at hmapped
      rw [if_neg (by omega), passOn]

/-- From the left, a high surrogate and the character behind it, whatever that is, make no value
beyond the code points. -/
def Sendable : List JChar → Prop
  | c :: d :: rest =>
      if isHighSurrogate c then toCodePoint c d ≤ maxCodePoint ∧ Sendable rest
      else Sendable (d :: rest)
  | _ => True

instance decidableSendable : (text : List JChar) → Decidable (Sendable text)
  | [] => .isTrue trivial
  | [_] => .isTrue trivial
  | c :: d :: rest =>
      if h : isHighSurrogate c then
        have := decidableSendable rest
        decidable_of_iff (toCodePoint c d ≤ maxCodePoint ∧ Sendable rest)
          (by rw [Sendable, if_pos h])
      else
        have := decidableSendable (d :: rest)
        decidable_of_iff (Sendable (d :: rest)) (by rw [Sendable, if_neg h])

theorem codePoints_range (text : List JChar) :
    ∀ c ∈ codePoints text, 0 ≤ c ∧ c < keycodeOffset := by
  have hoffset : keycodeOffset = 10485760 := rfl
  have hunit (c : JChar) : 0 ≤ (c.toNat : Int) ∧ (c.toNat : Int) < keycodeOffset := by
    have := c.isLt
    omega
  induction text using codePoints.induct with
  | case1 => exact fun _ h => by cases h
  | case2 c hhigh =>
      rw [codePoints, if_pos hhigh]
      decide
  | case3 c hhigh =>
      rw [codePoints, if_neg hhigh]
      exact fun x hx => List.eq_of_mem_singleton hx ▸ hunit c
  | case4 c d rest hhigh ih =>
      rw [codePoints, if_pos hhigh]
      refine List.forall_mem_cons.mpr ⟨?_, ih⟩
      have hc := c.isLt
      have hd := d.isLt
      unfold isHighSurrogate at hhigh
      have hrange := of_decide_eq_true hhigh
      unfold toCodePoint
      omega
  | case5 c d rest hhigh ih =>
      rw [codePoints, if_neg hhigh]
      exact List.forall_mem_cons.mpr ⟨hunit c, ih⟩

theorem sendable_iff (text : List JChar) :
    Sendable text ↔ ∀ c ∈ codePoints text, c ≤ maxCodePoint := by
  have hlast : maxCodePoint = 0x10ffff := rfl
  have hunit (c : JChar) : (c.toNat : Int) ≤ maxCodePoint := by
    have := c.isLt
    omega
  induction text using codePoints.induct with
  | case1 => exact ⟨fun _ => nofun, fun _ => trivial⟩
  | case2 c hhigh =>
      refine ⟨fun _ => ?_, fun _ => trivial⟩
      rw [codePoints, if_pos hhigh]
      decide
  | case3 c hhigh =>
      refine ⟨fun _ => ?_, fun _ => trivial⟩
      rw [codePoints, if_neg hhigh]
      exact fun x hx => List.eq_of_mem_singleton hx ▸ hunit c
  | case4 c d rest hhigh ih =>
      rw [Sendable, codePoints, if_pos hhigh, if_pos hhigh, List.forall_mem_cons]
      exact and_congr_right' ih
  | case5 c d rest hhigh ih =>
      rw [Sendable, codePoints, if_neg hhigh, if_neg hhigh, List.forall_mem_cons]
      exact ih.trans (and_iff_right (hunit c)).symm

theorem mapAndSendAll_sessionWrite (acting : List Modifiers) {cs : List Int}
    (hcs : ∀ c ∈ cs, 0 ≤ c ∧ c < keycodeOffset) :
    (∃ handed, mapAndSendAll keycodeOffset sessionWrite acting cs = .ok handed) ↔
      ∀ c ∈ cs, c ≤ maxCodePoint := by
  induction cs generalizing acting with
  | nil => exact ⟨fun _ => nofun, fun _ => ⟨[], rfl⟩⟩
  | cons c cs ih =>
      obtain ⟨⟨hc, hbound⟩, hrest⟩ := List.forall_mem_cons.mp hcs
      have hwrite := passOn_ok_iff hc hbound (acting.headD ⟨false, false⟩)
      rw [List.forall_mem_cons, ← hwrite, ← ih acting.tail hrest]
      rw [mapAndSendAll_cons]
      dsimp only
      cases hpass : passOn sessionWrite (handedOn keycodeOffset
          (acting.headD ⟨false, false⟩).control (acting.headD ⟨false, false⟩).fn c) with
      | error e => exact ⟨nofun, fun h => by cases h.1⟩
      | ok u =>
          cases hall : mapAndSendAll keycodeOffset sessionWrite acting.tail cs with
          | error e => exact ⟨nofun, fun ⟨_, _, h⟩ => by cases h⟩
          | ok handed => exact ⟨fun _ => ⟨rfl, handed, rfl⟩, fun _ => ⟨_, rfl⟩⟩

theorem sendText_iff (acting : List Modifiers) (text : List JChar) :
    (∃ handed, sendText acting text = .ok handed) ↔ Sendable text :=
  (mapAndSendAll_sessionWrite acting (codePoints_range text)).trans (sendable_iff text).symm

end Emulatorview.EmulatorView

namespace InputConnection

theorem copy_androidterm : Copy Androidterm.EmulatorView.methods
    (fun s => s.mSelectedTextEnd < s.mImeBuffer.length) fun _ => True where
  clear _ := rfl
  replace _ _ _ := rfl
  selected {s} hs := by
    obtain ⟨hstart, hle⟩ := hs.selected
    show (∃ text, substring s.mImeBuffer s.mSelectedTextStart (s.mSelectedTextEnd + 1) =
      .ok text) ↔ _
    unfold substring
    split_ifs with hout
    · exact ⟨nofun, fun h => absurd hout (by omega)⟩
    · exact ⟨fun _ => by omega, fun _ => ⟨_, rfl⟩⟩
  sends acting _ := ⟨fun _ => trivial, fun _ => mapAndSendAll_ok _ acting _⟩

theorem copy_emulatorview : Copy Emulatorview.EmulatorView.methods (fun _ => True)
    Emulatorview.EmulatorView.Sendable where
  clear hs := if_neg (by have := hs.composing; omega)
  replace _ _ hs := if_neg (by have := hs.composing; omega)
  selected {s} hs := by
    obtain ⟨hstart, hle⟩ := hs.selected
    refine ⟨fun _ => trivial, fun _ => ?_⟩
    show ∃ text, Emulatorview.EmulatorView.getSelectedText s = .ok text
    unfold Emulatorview.EmulatorView.getSelectedText
    dsimp only
    split_ifs with hout
    · exact ⟨_, rfl⟩
    · exact ⟨_, substring_of_le hstart (by omega) (by omega)⟩
  sends := Emulatorview.EmulatorView.sendText_iff

/-- **Composing text** stays consistent in a run of callbacks if and only if a region is only set
while there is no composing text, and, in the one copy, the selected text is only asked for while
the selection ends inside the buffer, in the other only `Sendable` text is sent. -/
theorem composing_consistent_iff (cs : List Callback) (mImeBuffer : List JChar) :
    (AllSteps Androidterm.EmulatorView.methods
        (fun s c => c.Meets Androidterm.EmulatorView.methods s) cs (create mImeBuffer) ↔
      AllSteps Androidterm.EmulatorView.methods
        (fun s c => c.Safe (fun s => s.mSelectedTextEnd < s.mImeBuffer.length) (fun _ => True) s)
        cs (create mImeBuffer)) ∧
    (AllSteps Emulatorview.EmulatorView.methods
        (fun s c => c.Meets Emulatorview.EmulatorView.methods s) cs (create mImeBuffer) ↔
      AllSteps Emulatorview.EmulatorView.methods
        (fun s c => c.Safe (fun _ => True) Emulatorview.EmulatorView.Sendable s) cs
        (create mImeBuffer)) := by
  have hcreate := consistent_create mImeBuffer
  exact ⟨copy_androidterm.allSteps_iff hcreate cs, copy_emulatorview.allSteps_iff hcreate cs⟩

/-- The callbacks of a run, up to the first that throws. -/
def runAll (m : InputMethods) : List Callback → InputConnection → Except Exn InputConnection
  | [], s => .ok s
  | c :: cs, s => (c.run m s).bind (runAll m cs)

/-- The four characters that are being composed are taken out, and then a region is set in what is
left; the next text has no place, and on a new connection there is nothing to select.  A high
surrogate in front of what is no low one makes a value that the session throws at. -/
theorem region_outlives_text :
    let compose : List Callback := [.setComposingText [97, 98, 99, 100] 1, .setComposingRegion 1 3]
    let left : Except Exn InputConnection := .ok ⟨[], 0, 1, 3, 0, 0, []⟩
    runAll Androidterm.EmulatorView.methods compose (create []) = left ∧
      runAll Emulatorview.EmulatorView.methods compose (create []) = left ∧
      runAll Androidterm.EmulatorView.methods (compose ++ [.setComposingText [97] 1])
        (create []) = .error .stringIndexOutOfBounds ∧
      runAll Androidterm.EmulatorView.methods [.getSelectedText] (create []) =
        .error .stringIndexOutOfBounds ∧
      runAll Emulatorview.EmulatorView.methods [.commitText [] [0xdbff, 0xe000] 1] (create []) =
        .error .illegalArgument := by
  decide +kernel

end InputConnection

end Kbox
