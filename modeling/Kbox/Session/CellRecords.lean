import Kbox.Session.CellWrites
import Kbox.Session.LineEdits

/-!
# The record of every cell

Each call of the session stores characters in the colours in force, and moves
cells around.  Along a run, a record of what was stored last runs along with
the array of cells; the cells of the active rows are the codes of their
records.
-/

namespace Kbox.Session

open Kbox.Framework

namespace TerminalEmulator

/-! ## §1  Colours -/

/-- The cells among the fields of the emulator. -/
def cellsField : ArrayField TerminalEmulator JChar where
  read s := s.mScreen.mData
  write d s := { s with mScreen := { s.mScreen with mData := d } }
  read_write _ _ := rfl
  write_read _ := rfl
  write_write _ _ _ := rfl

/-- A blank or a character of `p`, in the colours in force. -/
structure InForce (p : Nat → Prop) (f b : Nat) (w : Written) : Prop where
  char : w.char = 32 ∨ p w.char
  range : 32 ≤ w.char ∧ w.char ≤ 127
  foreColor : w.foreColor = f
  backColor : w.backColor = b

/-- Colours of four bits, a margin on the screen, and active rows that can be read. -/
structure Sound (s : TerminalEmulator) : Prop where
  foreColor : s.mForeColor ≤ 15
  backColor : s.mBackColor ≤ 15
  topMargin : 0 ≤ s.mTopMargin
  screen : s.mScreen.Active

/-- A sound emulator with the effective colours `f` and `b`. -/
structure Drawing (f b : Nat) (s : TerminalEmulator) : Prop where
  foreColor : s.mForeColor ≤ 15
  backColor : s.mBackColor ≤ 15
  topMargin : 0 ≤ s.mTopMargin
  screen : s.mScreen.Active
  fore_eq : s.getForeColor = f
  back_eq : s.getBackColor = b

variable {p : Nat → Prop} {f b : Nat} {s : TerminalEmulator}

theorem Drawing.sound (h : Drawing f b s) : Sound s :=
  ⟨h.foreColor, h.backColor, h.topMargin, h.screen⟩

theorem Sound.drawing (h : Sound s) : Drawing s.getForeColor s.getBackColor s :=
  ⟨h.foreColor, h.backColor, h.topMargin, h.screen, rfl, rfl⟩

/-- Two colours mixed by their bold bits are four bits wide. -/
theorem mix_le (x y : Nat) : (x &&& 0x7) ||| (y &&& 0x8) ≤ 15 := by
  have hx : x &&& 0x7 < 2 ^ 4 := Nat.lt_of_le_of_lt Nat.and_le_right (by decide)
  have hy : y &&& 0x8 < 2 ^ 4 := Nat.lt_of_le_of_lt Nat.and_le_right (by decide)
  have hmix := Nat.or_lt_two_pow hx hy
  omega

theorem Sound.getForeColor_le (h : Sound s) : s.getForeColor ≤ 15 := by
  have hfore := h.foreColor
  unfold getForeColor
  split_ifs
  · exact mix_le _ _
  · exact hfore

theorem Sound.getBackColor_le (h : Sound s) : s.getBackColor ≤ 15 := by
  have hback := h.backColor
  unfold getBackColor
  split_ifs
  · exact mix_le _ _
  · exact hback

theorem Drawing.proper (h : Drawing f b s) {w : Written} (hw : InForce p f b w) : w.Proper := by
  obtain ⟨_, hchar, rfl, rfl⟩ := hw
  refine ⟨hchar, ?_, ?_⟩
  · rw [← h.fore_eq]
    exact h.sound.getForeColor_le
  · rw [← h.back_eq]
    exact h.sound.getBackColor_le

/-! ## §2  Calls that write in the colours in force -/

/-- `x` writes blanks and characters of `p` in the colours `f` and `b`, and leaves these in
force. -/
def Writes {α : Type} (p : Nat → Prop) (f b : Nat) (x : EmulatorM α) : Prop :=
  ∀ s, Drawing f b s →
    Oblivious cellsField Written.code (InForce p f b) (Drawing f b) x s

section Rules

variable {α β : Type}

theorem writes_pure (a : α) : Writes p f b (pure a) := fun _ hs => oblivious_pure a hs

theorem writes_checked (r : Except Exn α) : Writes p f b (checked r) :=
  fun _ hs => oblivious_checked r hs

theorem writes_throwIf {c : Prop} [Decidable c] {e : Exn} : Writes p f b (throwIf c e) :=
  fun _ hs => oblivious_throwIf hs

theorem writes_modify {g : TerminalEmulator → TerminalEmulator}
    (h : ∀ s, Drawing f b s → Drawing f b (g s))
    (hg : ∀ s d, g (cellsField.write d s) = cellsField.write d (g s)) : Writes p f b (modify g) :=
  fun s hs => oblivious_modify (h s hs) (hg s)

theorem Writes.bind {x : EmulatorM α} {g : α → EmulatorM β} (hx : Writes p f b x)
    (hg : ∀ a, Writes p f b (g a)) : Writes p f b (x >>= g) :=
  fun s hs => (hx s hs).bind fun a t ht _ => hg a t ht

theorem Writes.then {x : EmulatorM Unit} {y : EmulatorM β} (hx : Writes p f b x)
    (hy : Writes p f b y) : Writes p f b (do x; y) :=
  hx.bind fun _ => hy

/-- The fields that are read belong to an emulator with these colours. -/
theorem writes_read {g : TerminalEmulator → EmulatorM β}
    (h : ∀ s, Drawing f b s →
      Oblivious cellsField Written.code (InForce p f b) (Drawing f b) (g s) s)
    (hg : ∀ s d, g (cellsField.write d s) = g s) : Writes p f b (get >>= g) :=
  fun s hs => oblivious_get_bind (h s hs) fun d _ => hg s d

theorem writes_get_bind {g : TerminalEmulator → EmulatorM β} (h : ∀ s, Writes p f b (g s))
    (hg : ∀ s d, g (cellsField.write d s) = g s) : Writes p f b (get >>= g) :=
  writes_read (fun s hs => h s s hs) hg

theorem writes_ite {c : Prop} [Decidable c] {x y : EmulatorM α} (hx : c → Writes p f b x)
    (hy : ¬ c → Writes p f b y) : Writes p f b (if c then x else y) :=
  fun s hs => oblivious_ite (fun hc => hx hc s hs) fun hc => hy hc s hs

theorem writes_when {c : Prop} [Decidable c] {x : EmulatorM Unit} (hx : c → Writes p f b x) :
    Writes p f b (when c x) :=
  fun s hs => oblivious_when hs fun hc => hx hc s hs

/-- A call on a screen with active rows. -/
theorem oblivious_onScreen (hs : Drawing f b s) {x : ScreenM α}
    (hx : Oblivious TranscriptScreen.cellsField Written.code (InForce p f b) (fun _ => True) x
      s.mScreen) (hk : Keeps TranscriptScreen.Active x) :
    Oblivious cellsField Written.code (InForce p f b) (Drawing f b) (onScreen x) s :=
  oblivious_onField (hx.keeping (hk _ hs.screen)) (fun _ => rfl) (fun _ _ => rfl) (fun _ _ => rfl)
    (fun _ _ _ => rfl) fun _ ht => { hs with screen := ht }

theorem writes_onScreen {x : ScreenM α}
    (hx : ∀ t,
      Oblivious TranscriptScreen.cellsField Written.code (InForce p f b) (fun _ => True) x t)
    (hk : Keeps TranscriptScreen.Active x) : Writes p f b (onScreen x) :=
  fun _ hs => oblivious_onScreen hs (hx _) hk

end Rules

/-! ## §3  Drawing -/

theorem writes_setCursorRow (row : Int) : Writes p f b (setCursorRow row) :=
  writes_modify (fun _ h => { h with }) fun _ _ => rfl

theorem writes_setCursorCol (col : Int) : Writes p f b (setCursorCol col) :=
  writes_modify (fun _ h => { h with }) fun _ _ => rfl

theorem writes_setCursorRowCol (row col : Int) : Writes p f b (setCursorRowCol row col) :=
  writes_modify (fun _ h => { h with }) fun _ _ => rfl

theorem writes_setCursorPosition (x y : Int) : Writes p f b (setCursorPosition x y) :=
  writes_get_bind (fun _ => writes_setCursorRowCol _ _) fun _ _ => rfl

theorem writes_setTabStop (i : Int) (value : Bool) : Writes p f b (setTabStop i value) := by
  intro s hs
  cases hset : arraySet (Exn.arrayIndexOutOfBounds .mTabStop) s.mTabStop i value with
  | ok tabStop =>
      refine @oblivious_frame _ _ _ _ _ _ _ _ _ _ _ (.ok ⟨⟩) { s with mTabStop := tabStop }
        { hs with } rfl fun d _ => ?_
      simp only [setTabStop, bind, EStateM.bind, get_apply, cellsField, hset]
      rfl
  | error e =>
      refine @oblivious_frame _ _ _ _ _ _ _ _ _ _ _ (.error e) s hs rfl fun d _ => ?_
      simp only [setTabStop, bind, EStateM.bind, get_apply, cellsField, hset]
      rfl

theorem writes_scroll : Writes p f b scroll := by
  refine Writes.then (writes_modify (fun _ h => { h with }) fun _ _ => rfl) ?_
  refine writes_read (fun s hs => ?_) fun _ _ => rfl
  have hblank : InForce p f b ⟨32, s.getForeColor, s.getBackColor⟩ :=
    ⟨Or.inl rfl, show 32 ≤ 32 ∧ 32 ≤ 127 by omega, hs.fore_eq, hs.back_eq⟩
  exact oblivious_onScreen hs (TranscriptScreen.oblivious_scroll _ _ hblank)
    (TranscriptScreen.keeps_scroll hs.topMargin _ (hs.proper hblank))

theorem writes_doLinefeed : Writes p f b doLinefeed :=
  writes_get_bind (fun _ => writes_ite (fun _ => writes_scroll.then (writes_setCursorRow _))
    fun _ => writes_setCursorRow _) fun _ _ => rfl

/-- `blockSet` with a character in the colours in force. -/
theorem oblivious_fill (hs : Drawing f b s) (sx sy w h : Int) {c : Nat} (hc : 32 ≤ c ∧ c ≤ 127)
    (hp : c = 32 ∨ p c) :
    Oblivious cellsField Written.code (InForce p f b) (Drawing f b)
      (onScreen (TranscriptScreen.blockSet sx sy w h c s.getForeColor s.getBackColor)) s := by
  have hforce : InForce p f b ⟨c, s.getForeColor, s.getBackColor⟩ :=
    ⟨hp, hc, hs.fore_eq, hs.back_eq⟩
  have hset := @TranscriptScreen.oblivious_blockSet (InForce p f b) s.mScreen sx sy w h _ hforce
  have hkeep := TranscriptScreen.keeps_blockSet sx sy w h (hs.proper hforce)
  refine oblivious_onScreen hs ?_ ?_
  · exact hset
  · exact hkeep

theorem writes_blockClear (sx sy w h : Int) : Writes p f b (blockClear sx sy w h) := by
  unfold blockClear
  exact writes_read (fun s hs => @oblivious_fill p f b s hs sx sy w h 32 (by omega) (Or.inl rfl))
    fun _ _ => rfl

theorem writes_blockCopy (sx sy w h dx dy : Int) :
    Writes p f b (onScreen (TranscriptScreen.blockCopy sx sy w h dx dy)) :=
  writes_onScreen (fun _ => TranscriptScreen.oblivious_blockCopy _ _ _ _ _ _)
    (TranscriptScreen.keeps_blockCopy _ _ _ _ _ _)

theorem writes_wrapCursor : Writes p f b wrapCursor := by
  refine writes_get_bind (fun s => writes_ite (fun _ => ?_) fun _ => writes_pure _) fun _ _ => rfl
  refine Writes.then (writes_onScreen (fun _ => TranscriptScreen.oblivious_setLineWrap _)
    (TranscriptScreen.keeps_setLineWrap _)) ?_
  refine Writes.then (writes_modify (fun _ h => { h with }) fun _ _ => rfl) ?_
  exact writes_ite (fun _ => writes_modify (fun _ h => { h with }) fun _ _ => rfl)
    fun _ => writes_scroll

theorem writes_moveRight : Writes p f b moveRight :=
  writes_get_bind (fun _ => writes_ite (fun _ => writes_blockCopy _ _ _ _ _ _)
    fun _ => writes_pure _) fun _ _ => rfl

/-- A printed byte is a character of the low half, since bytes are signed. -/
theorem writes_emit {c : JByte} (hc : 32 ≤ c.toInt) (hp : p c.toInt.toNat) :
    Writes p f b (emit c) := by
  have hmax : c.toInt < 2 ^ 7 := BitVec.toInt_lt
  have hchar : c.toInt = ((c.toInt.toNat : Nat) : Int) := by omega
  refine writes_wrapCursor.then (writes_get_bind (fun s₁ => ?_) fun _ _ => rfl)
  refine (writes_when fun _ => writes_moveRight).then (writes_read (fun s hs => ?_) fun _ _ => rfl)
  have hforce : InForce p f b ⟨c.toInt.toNat, s.getForeColor, s.getBackColor⟩ :=
    ⟨Or.inr hp, by show 32 ≤ c.toInt.toNat ∧ c.toInt.toNat ≤ 127; omega, hs.fore_eq, hs.back_eq⟩
  rw [hchar]
  refine (oblivious_onScreen hs (TranscriptScreen.oblivious_set s.mCursorCol s.mCursorRow hforce)
    (TranscriptScreen.keeps_set s.mCursorCol s.mCursorRow (hs.proper hforce))).then
      fun t ht _ => ?_
  exact oblivious_modify { ht with } fun _ => rfl

/-! ## §4  Escape sequences -/

theorem writes_startEscapeSequence (state : EscapeState) :
    Writes p f b (startEscapeSequence state) :=
  writes_modify (fun _ h => { h with }) fun _ _ => rfl

theorem writes_continueSequence : Writes p f b continueSequence :=
  writes_modify (fun _ h => { h with }) fun _ _ => rfl

theorem writes_continueSequenceIn (state : EscapeState) :
    Writes p f b (continueSequenceIn state) :=
  writes_modify (fun _ h => { h with }) fun _ _ => rfl

theorem writes_finishSequence : Writes p f b finishSequence :=
  writes_modify (fun _ h => { h with }) fun _ _ => rfl

theorem writes_parseArg (c : JByte) : Writes p f b (parseArg c) := by
  refine writes_ite (fun _ => ?_) fun _ => writes_ite (fun _ => ?_) fun _ => writes_finishSequence
  · exact Writes.then (writes_modify (fun _ h => { h with }) fun _ _ => rfl)
      writes_continueSequence
  · exact Writes.then (writes_modify (fun _ h => { h with }) fun _ _ => rfl)
      writes_continueSequence

theorem writes_setAltCharSet (alternateCharSet : Bool) :
    Writes p f b (setAltCharSet alternateCharSet) :=
  writes_modify (fun _ h => { h with }) fun _ _ => rfl

theorem writes_doSelectCharSet (c : JByte) : Writes p f b (doSelectCharSet c) :=
  writes_ite (fun _ => writes_pure _) fun _ => writes_finishSequence

theorem writes_doEscPound (c : JByte) (hp : toChar c = '8' → p 69) :
    Writes p f b (doEscPound c) := by
  unfold doEscPound
  split
  · next heq =>
      exact writes_read (fun s hs => @oblivious_fill p f b s hs 0 0 s.mColumns s.mRows 69 (by omega)
        (Or.inr (hp heq))) fun _ _ => rfl
  · exact writes_finishSequence

theorem writes_reverseIndex : Writes p f b reverseIndex := by
  intro s hs
  by_cases htop : s.mCursorRow ≤ s.mTopMargin
  · have hscroll : Writes p f b (do
        onScreen (TranscriptScreen.blockCopy 0 s.mTopMargin s.mColumns
          (s.mBottomMargin - (s.mTopMargin + 1)) 0 (s.mTopMargin + 1))
        blockClear 0 s.mTopMargin s.mColumns 1) :=
      (writes_blockCopy _ _ _ _ _ _).then (writes_blockClear _ _ _ _)
    exact (hscroll s hs).congr fun d _ => congrFun (if_pos htop) _
  · have hmove : Writes p f b (modify fun s => { s with mCursorRow := s.mCursorRow - 1 }) :=
      writes_modify (fun _ h => { h with }) fun _ _ => rfl
    exact (hmove s hs).congr fun d _ => congrFun (if_neg htop) _

theorem writes_sendDeviceAttributes : Writes p f b sendDeviceAttributes :=
  writes_modify (fun _ h => { h with }) fun _ _ => rfl

theorem writes_doEsc (c : JByte) : Writes p f b (doEsc c) := by
  unfold doEsc
  split
  case h_5 => exact writes_get_bind (fun _ => writes_setCursorRowCol _ _) fun _ _ => rfl
  case h_6 => exact writes_doLinefeed
  case h_7 => exact (writes_setCursorCol _).then writes_doLinefeed
  case h_8 => exact writes_get_bind (fun _ => writes_setCursorRowCol _ _) fun _ _ => rfl
  case h_9 => exact writes_get_bind (fun _ => writes_setTabStop _ _) fun _ _ => rfl
  case h_10 => exact writes_reverseIndex
  all_goals exact writes_modify (fun _ h => { h with }) fun _ _ => rfl

theorem writes_insertChars : Writes p f b insertChars :=
  writes_get_bind (fun _ => (writes_blockCopy _ _ _ _ _ _).then (writes_blockClear _ _ _ _))
    fun _ _ => rfl

theorem writes_deleteChars : Writes p f b deleteChars :=
  writes_get_bind (fun _ => (writes_blockCopy _ _ _ _ _ _).then (writes_blockClear _ _ _ _))
    fun _ _ => rfl

theorem writes_insertLines : Writes p f b insertLines :=
  writes_get_bind (fun _ => (writes_blockCopy _ _ _ _ _ _).then (writes_blockClear _ _ _ _))
    fun _ _ => rfl

theorem writes_deleteLines : Writes p f b deleteLines :=
  writes_get_bind (fun _ => (writes_blockCopy _ _ _ _ _ _).then (writes_blockClear _ _ _ _))
    fun _ _ => rfl

theorem writes_eraseInDisplay : Writes p f b eraseInDisplay := by
  refine writes_get_bind (fun s => ?_) fun _ _ => rfl
  split
  · exact (writes_blockClear _ _ _ _).then (writes_blockClear _ _ _ _)
  · exact (writes_blockClear _ _ _ _).then (writes_blockClear _ _ _ _)
  · exact writes_blockClear _ _ _ _
  · exact writes_finishSequence

theorem writes_eraseInLine : Writes p f b eraseInLine := by
  refine writes_get_bind (fun s => ?_) fun _ _ => rfl
  split
  · exact writes_blockClear _ _ _ _
  · exact writes_blockClear _ _ _ _
  · exact writes_blockClear _ _ _ _
  · exact writes_finishSequence

/-- All columns, as far as the array of tab stops goes. -/
def clearAllTabStops (s : TerminalEmulator) : TerminalEmulator :=
  { s with mTabStop := List.replicate (min s.mColumns.toNat s.mTabStop.length) false ++
      s.mTabStop.drop s.mColumns.toNat }

theorem clearTabStop_eq (s : TerminalEmulator) : clearTabStop s =
    (match s.getArg0 0 with
      | 0 => setTabStop s.mCursorCol false
      | 3 => do
          modify clearAllTabStops
          throwIf (s.mTabStop.length < s.mColumns) (.arrayIndexOutOfBounds .mTabStop)
      | _ => pure ⟨⟩ : EmulatorM Unit) s := by
  unfold clearTabStop
  simp only [bind, EStateM.bind, get_apply]
  generalize s.getArg0 0 = n
  rcases n with (_ | _ | _ | _ | n) | n <;> rfl

theorem writes_clearTabStop : Writes p f b clearTabStop := by
  intro s hs
  have hbody : Writes p f b (match s.getArg0 0 with
      | 0 => setTabStop s.mCursorCol false
      | 3 => do
          modify clearAllTabStops
          throwIf (s.mTabStop.length < s.mColumns) (.arrayIndexOutOfBounds .mTabStop)
      | _ => pure ⟨⟩ : EmulatorM Unit) := by
    split
    · exact writes_setTabStop _ _
    · exact Writes.then (writes_modify (fun _ h => { h with }) fun _ _ => rfl) writes_throwIf
    · exact writes_pure _
  exact (hbody s hs).congr fun d _ => clearTabStop_eq _

theorem writes_doSetMode (newValue : Bool) : Writes p f b (doSetMode newValue) := by
  refine writes_get_bind (fun s => ?_) fun _ _ => rfl
  split
  · exact writes_modify (fun _ h => { h with }) fun _ _ => rfl
  · exact writes_modify (fun _ h => { h with }) fun _ _ => rfl
  · exact writes_pure _

theorem writes_setHorizontalVerticalPosition : Writes p f b setHorizontalVerticalPosition :=
  writes_get_bind (fun _ => writes_setCursorPosition _ _) fun _ _ => rfl

theorem writes_setMargins : Writes p f b setMargins := by
  refine writes_get_bind (fun s => ?_) fun _ _ => rfl
  refine Writes.then (writes_modify (fun _ h => ?_) fun _ _ => rfl) (writes_setCursorRowCol _ _)
  exact { h with topMargin := Int.le_max_left _ _ }

theorem writes_clearAndHome : Writes p f b clearAndHome :=
  writes_get_bind (fun _ => (writes_blockClear _ _ _ _).then (writes_setCursorRowCol _ _))
    fun _ _ => rfl

theorem writes_changeDecFlags (c : JByte) (mask : BitVec 32) :
    Writes p f b (changeDecFlags c mask) := by
  unfold changeDecFlags
  split
  case h_5 => exact writes_parseArg c
  all_goals exact writes_modify (fun _ h => { h with }) fun _ _ => rfl

theorem writes_doEscLSBQuest (c : JByte) : Writes p f b (doEscLSBQuest c) := by
  refine writes_get_bind (fun s => ?_) fun _ _ => rfl
  refine (writes_changeDecFlags _ _).then ?_
  exact (writes_when fun _ => writes_clearAndHome).then
    (writes_when fun _ => writes_setCursorPosition _ _)

/-! ## §5  SGR -/

theorem or_le_fifteen {x y : Nat} (hx : x ≤ 15) (hy : y ≤ 15) : x ||| y ≤ 15 := by
  have hor := Nat.or_lt_two_pow (show x < 2 ^ 4 by omega) (show y < 2 ^ 4 by omega)
  omega

theorem and_le_fifteen {x y : Nat} (hx : x ≤ 15) : x &&& y ≤ 15 :=
  Nat.le_trans Nat.and_le_left hx

/-- The masks keep both colours within four bits. -/
theorem Sound.applyRendition (h : Sound s) (code : Int) : Sound (applyRendition code s) := by
  have hfore := h.foreColor
  have hback := h.backColor
  unfold TerminalEmulator.applyRendition
  refine iteInduction (fun _ => ?_) fun _ => ?_
  · exact { h with foreColor := show 7 ≤ 15 by omega, backColor := show 0 ≤ 15 by omega }
  refine iteInduction (fun _ => ?_) fun _ => ?_
  · exact { h with foreColor := or_le_fifteen hfore (by decide) }
  refine iteInduction (fun _ => ?_) fun _ => ?_
  · exact { h with backColor := or_le_fifteen hback (by decide) }
  refine iteInduction (fun _ => ?_) fun _ => ?_
  · exact { h with }
  refine iteInduction (fun _ => ?_) fun _ => ?_
  · exact { h with foreColor := and_le_fifteen hfore }
  refine iteInduction (fun _ => ?_) fun _ => ?_
  · exact { h with backColor := and_le_fifteen hback }
  refine iteInduction (fun _ => ?_) fun _ => ?_
  · exact { h with }
  refine iteInduction (fun hcode => ?_) fun _ => ?_
  · exact { h with foreColor := or_le_fifteen (and_le_fifteen hfore) (by omega) }
  refine iteInduction (fun _ => ?_) fun _ => ?_
  · exact { h with foreColor := show 7 ≤ 15 by omega, backColor := and_le_fifteen hback }
  refine iteInduction (fun hcode => ?_) fun _ => ?_
  · exact { h with backColor := or_le_fifteen (and_le_fifteen hback) (by omega) }
  refine iteInduction (fun _ => ?_) fun _ => ?_
  · exact { h with backColor := and_le_fifteen hback }
  · exact h

theorem applyRendition_write (code : Int) (d : List JChar) (s : TerminalEmulator) :
    applyRendition code (cellsField.write d s) = cellsField.write d (applyRendition code s) := by
  unfold applyRendition
  simp only [apply_ite (cellsField.write d)]
  rfl

variable {A : Written → Prop}

theorem oblivious_renditionFrom (fuel i : Nat) {s : TerminalEmulator} (hs : Sound s) :
    Oblivious cellsField Written.code A Sound (renditionFrom fuel i) s := by
  induction fuel generalizing i s with
  | zero => exact oblivious_pure _ hs
  | succ fuel ih =>
      refine oblivious_get_bind ?_ fun _ _ => rfl
      by_cases hi : i < maxEscapeParameters
      · simp only [dif_pos hi]
        refine oblivious_ite (fun _ => ih (i + 1) hs) fun _ => ?_
        refine Oblivious.then (oblivious_modify (hs.applyRendition _)
          fun d => applyRendition_write _ d s) fun t ht _ => ih (i + 1) ht
      · simp only [dif_neg hi]
        exact oblivious_throw _ hs

/-- SGR writes nothing. -/
theorem oblivious_selectGraphicRendition (hs : Sound s) :
    Oblivious cellsField Written.code A Sound selectGraphicRendition s :=
  oblivious_get_bind (oblivious_renditionFrom _ 0 hs) fun _ _ => rfl

/-! ## §6  Bytes -/

/-- A call that leaves its colours in force leaves colours of four bits. -/
theorem Writes.sound {α : Type} {x : EmulatorM α} (hx : Writes p f b x) (hs : Drawing f b s) :
    Oblivious cellsField Written.code (InForce p f b) Sound x s :=
  (hx s hs).mono (fun _ hw => hw) fun _ ht => ht.sound

theorem oblivious_doEscLeftSquareBracket (hs : Drawing f b s) (c : JByte) :
    Oblivious cellsField Written.code (InForce p f b) Sound (doEscLeftSquareBracket c) s := by
  refine oblivious_get_bind ?_ fun _ _ => rfl
  split
  case h_1 => exact writes_insertChars.sound hs
  case h_2 => exact (writes_setCursorRow _).sound hs
  case h_3 => exact (writes_setCursorRow _).sound hs
  case h_4 => exact (writes_setCursorCol _).sound hs
  case h_5 => exact (writes_setCursorCol _).sound hs
  case h_6 => exact (writes_setCursorCol _).sound hs
  case h_7 => exact writes_setHorizontalVerticalPosition.sound hs
  case h_8 => exact writes_eraseInDisplay.sound hs
  case h_9 => exact writes_eraseInLine.sound hs
  case h_10 => exact writes_insertLines.sound hs
  case h_11 => exact writes_deleteLines.sound hs
  case h_12 => exact writes_deleteChars.sound hs
  case h_13 => exact writes_finishSequence.sound hs
  case h_14 => exact (writes_continueSequenceIn _).sound hs
  case h_15 => exact writes_sendDeviceAttributes.sound hs
  case h_16 => exact (writes_setCursorRow _).sound hs
  case h_17 => exact writes_setHorizontalVerticalPosition.sound hs
  case h_18 => exact writes_clearTabStop.sound hs
  case h_19 => exact (writes_doSetMode _).sound hs
  case h_20 => exact (writes_doSetMode _).sound hs
  case h_21 => exact oblivious_selectGraphicRendition hs.sound
  case h_22 => exact writes_setMargins.sound hs
  case h_23 => exact (writes_parseArg c).sound hs

theorem oblivious_processInState (hs : Drawing f b s) (c : JByte)
    (hself : 32 ≤ c.toInt → p c.toInt.toNat) (hletter : toChar c = '8' → p 69) :
    Oblivious cellsField Written.code (InForce p f b) Sound (processInState c) s := by
  refine oblivious_get_bind ?_ fun _ _ => rfl
  split
  · exact (writes_when fun hc => writes_emit hc (hself hc)).sound hs
  · exact (writes_doEsc c).sound hs
  · exact (writes_doEscPound c hletter).sound hs
  · exact (writes_doSelectCharSet c).sound hs
  · exact (writes_doSelectCharSet c).sound hs
  · exact oblivious_doEscLeftSquareBracket hs c
  · exact (writes_doEscLSBQuest c).sound hs

/-- The characters that a byte stores beside blanks: itself, the `E` of DECALN, and DEL where it
cancels a sequence. -/
def Typed (b : JByte) (c : Nat) : Prop :=
  (c : Int) = b.toInt ∨ toChar b = '8' ∧ c = 69 ∨ (b.toNat = 24 ∨ b.toNat = 26) ∧ c = 127

/-- A byte writes in the colours that are in force when it comes. -/
theorem oblivious_process (hs : Sound s) (c : JByte) :
    Oblivious cellsField Written.code (InForce (Typed c) s.getForeColor s.getBackColor) Sound
      (process c) s := by
  have hd := hs.drawing
  generalize s.getForeColor = f at hd ⊢
  generalize s.getBackColor = b at hd ⊢
  have hcancel (hc : c.toNat = 24 ∨ c.toNat = 26) : Writes (Typed c) f b (do
      if (← get).mEscapeState ≠ .none then
        finishSequence
        emit 127) :=
    writes_get_bind (fun _ => writes_ite (fun _ => writes_finishSequence.then
      (writes_emit (by decide) (Or.inr (Or.inr ⟨hc, rfl⟩)))) fun _ => writes_pure _) fun _ _ => rfl
  unfold process
  split
  · exact (writes_pure _).sound hd
  · exact (writes_pure _).sound hd
  · exact Writes.sound (writes_get_bind (fun _ => writes_setCursorCol _) fun _ _ => rfl) hd
  · exact Writes.sound (writes_get_bind (fun _ => (writes_checked _).bind
      fun _ => writes_setCursorCol _) fun _ _ => rfl) hd
  · exact (writes_setCursorCol _).sound hd
  · exact writes_doLinefeed.sound hd
  · exact writes_doLinefeed.sound hd
  · exact writes_doLinefeed.sound hd
  · exact (writes_setAltCharSet _).sound hd
  · exact (writes_setAltCharSet _).sound hd
  · next heq => exact Writes.sound (hcancel (Or.inl heq)) hd
  · next heq => exact Writes.sound (hcancel (Or.inr heq)) hd
  · exact (writes_startEscapeSequence _).sound hd
  · exact (writes_startEscapeSequence _).sound hd
  · have hstart : Writes (Typed c) f b (modify fun s => { s with mContinueSequence := false }) :=
      writes_modify (fun _ h => { h with }) fun _ _ => rfl
    refine (hstart s hd).bind_mono (fun _ ht => ht.sound) fun _ t ht _ => ?_
    have hself (hc : 32 ≤ c.toInt) : Typed c c.toInt.toNat := Or.inl (by omega)
    refine (oblivious_processInState ht c hself fun h => Or.inr (Or.inl ⟨h, rfl⟩)).then
      fun u hu _ => ?_
    refine oblivious_get_bind ?_ fun _ _ => rfl
    exact oblivious_when hu fun _ => oblivious_modify { hu with } fun _ => rfl

/-! ## §7  Resets and resizes -/

/-- A reset writes in its own colours. -/
theorem oblivious_reset (hs : Sound s) :
    Oblivious cellsField Written.code (InForce p 7 0) (Drawing 7 0) reset s := by
  refine Oblivious.then (oblivious_modify ?_ fun _ => rfl) fun t ht _ => ?_
  · exact {
      foreColor := show 7 ≤ 15 by omega
      backColor := show 0 ≤ 15 by omega
      topMargin := show (0 : Int) ≤ 0 by omega
      screen := hs.screen
      fore_eq := rfl
      back_eq := rfl }
  · have hclear : Writes p 7 0 (do
        let s ← get
        blockClear 0 0 s.mColumns s.mRows) :=
      writes_get_bind (fun _ => writes_blockClear _ _ _ _) fun _ _ => rfl
    have htabs : Writes p 7 0 setDefaultTabStops :=
      writes_modify (fun _ h => { h with }) fun _ _ => rfl
    exact (htabs.then hclear) t ht

theorem writes_replay {text : List JChar} (htext : ∀ c ∈ text, TranscriptScreen.Printable c)
    (hp : ∀ c ∈ text, p c.toNat) : Writes p f b (replay text) := by
  induction text with
  | nil => exact writes_pure _
  | cons c rest ih =>
      have hrest := ih (fun c' hc' => htext c' (List.mem_cons_of_mem _ hc'))
        fun c' hc' => hp c' (List.mem_cons_of_mem _ hc')
      refine writes_ite (fun _ => ?_) fun hbyte => ?_
      · exact (writes_setCursorCol 0).then (writes_doLinefeed.then hrest)
      · rcases htext c List.mem_cons_self with rfl | hc
        · exact absurd rfl hbyte
        · have hnat : (c.setWidth 8).toNat = c.toNat := by
            rw [BitVec.toNat_setWidth, Nat.mod_eq_of_lt (by omega)]
          have hint : (c.setWidth 8).toInt = (c.toNat : Int) := by
            rw [BitVec.toInt_eq_toNat_of_lt (by omega), hnat]
          refine Writes.then (writes_emit (by omega) ?_) hrest
          rw [hint, Int.toNat_natCast]
          exact hp c List.mem_cons_self

/-- `updateSize`, up to the loop that emits the transcript: the text and an emulator of the new
size. -/
def clearForSize (columns rows : Int) : EmulatorM (List JChar) := do
  let s ← get
  throwIf (columns ≤ 0) .illegalArgument
  throwIf (rows ≤ 0) .illegalArgument
  let transcriptText ← onScreen TranscriptScreen.getTranscriptText
  onScreen (TranscriptScreen.resize columns.toNat rows.toNat s.mForeColor s.mBackColor)
  setSize columns rows
  modify fun s => { s with mCursorRow := 0, mCursorCol := 0, mAboutToAutoWrap := false }
  return (transcriptText.reverse.dropWhile (· = 10)).reverse

theorem updateSize_eq {columns rows : Int} (hsize : ¬ (s.mRows = rows ∧ s.mColumns = columns)) :
    updateSize columns rows s = (clearForSize columns rows >>= replay) s := by
  unfold updateSize clearForSize
  simp only [bind_assoc, pure_bind]
  show (if _ then _ else _ : EmulatorM Unit) s = _
  rw [if_neg hsize]
  rfl

theorem keeps_setSize {data : List JChar} (columns rows : Int) :
    Keeps (fun t => Sound t ∧ t.mScreen.mData = data) (setSize columns rows) := by
  refine Keeps.then (keeps_modify fun s h => ?_) (keeps_modify fun s h => ?_)
  · by_cases hrows : s.mRows ≠ rows
    · simp only [if_pos hrows]
      exact ⟨{ h.1 with topMargin := Int.le_refl 0 }, h.2⟩
    · simp only [if_neg hrows]
      exact h
  · by_cases hcolumns : s.mColumns ≠ columns
    · simp only [if_pos hcolumns]
      exact ⟨{ h.1 with }, h.2⟩
    · simp only [if_neg hcolumns]
      exact h

/-- The screen is blank, in the colours themselves; nothing else that a cell depends on changes. -/
theorem clearForSize_returns (hs : Sound s) {columns rows : Int}
    (hsizes : TranscriptScreen.Storable columns.toNat s.mScreen.mTotalRows rows.toNat) :
    wp (clearForSize columns rows)
      (fun text t => Sound t ∧ (∀ c ∈ text, TranscriptScreen.Printable c) ∧
        t.mScreen.mData = TranscriptScreen.freshCells columns.toNat s.mScreen.mTotalRows rows.toNat
          (Written.code ⟨32, s.mForeColor, s.mBackColor⟩) 0)
      (fun _ _ => True) s := by
  unfold clearForSize
  rw [wp_bind, wp_get, wp_bind, wp_throwIf]
  refine ⟨fun _ => trivial, fun _ => ?_⟩
  rw [wp_bind, wp_throwIf]
  refine ⟨fun _ => trivial, fun _ => ?_⟩
  rw [wp_bind]
  unfold onScreen
  rw [wp_onField]
  refine wp_mono hs.screen.getTranscriptText ?_ fun _ _ _ => trivial
  rintro text _ ⟨rfl, htext⟩
  rw [wp_bind, wp_onField]
  unfold TranscriptScreen.resize
  rw [wp_bind, wp_get]
  have hblank : Written.Proper ⟨32, s.mForeColor, s.mBackColor⟩ :=
    ⟨show 32 ≤ 32 ∧ 32 ≤ 127 by omega, hs.foreColor, hs.backColor⟩
  refine wp_mono (TranscriptScreen.init_fresh hsizes hblank _) ?_ fun _ _ _ => trivial
  rintro _ screen hscreen
  rw [wp_bind]
  refine wp_mono (keeps_setSize columns rows _ ⟨{ hs with screen := hscreen.active }, hscreen.data⟩)
    ?_ fun _ _ _ => trivial
  rintro _ t ⟨ht, hdata⟩
  rw [wp_bind, wp_modify, wp_pure]
  refine ⟨{ ht with }, fun c hc => htext c ?_, hdata⟩
  have hmem := List.mem_reverse.mp hc
  exact List.mem_reverse.mp ((List.dropWhile_sublist _).subset hmem)

/-! ## §8  Runs -/

/-- The cell of a record, and the 0 of the allocated array where there is none. -/
def codeOf : Option Written → JChar
  | none => 0
  | some w => w.code

/-- Whatever the cells hold, `x` makes these edits to them, and everything else comes out the
same. -/
def Makes {α : Type} (x : EmulatorM α) (s : TerminalEmulator) (edits : List (Edit Written)) :
    Prop :=
  ∀ d, d.length = s.mScreen.mData.length → after x (cellsField.write d s) =
    cellsField.write (Edit.applyAll Written.code edits d) (after x s)

/-- Everything that is stored is a blank or a character of `p`, in the colours `f` and `b`. -/
def StoresIn (p : Nat → Prop) (f b : Nat) (edits : List (Edit Written)) : Prop :=
  ∀ e ∈ edits, e.Stores (InForce p f b)

/-- The record of every cell: what was stored into it last, or into the cell it was moved from.
Bytes store what they print in the colours they find; resets blanks in the colours they set; a
resize starts with a screen that is blank in the two colours themselves, and replays the text
over it. -/
inductive Recorded : TerminalEmulator → List (Option Written) → Prop
  | create {columns totalRows rows : Nat} {screen : TranscriptScreen} {s : TerminalEmulator}
      {edits : List (Edit Written)}
      (hscreen : TranscriptScreen.create columns totalRows rows 0 7 = .ok screen)
      (hreset : reset (allocate screen columns rows) = .ok ⟨⟩ s)
      (hedits : Makes reset (allocate screen columns rows) edits)
      (hstores : StoresIn (fun _ => False) s.getForeColor s.getBackColor edits) :
      Recorded s (Edit.applyAll some edits
        (TranscriptScreen.freshCells columns totalRows rows (some ⟨32, 0, 7⟩) none))
  | byte {s : TerminalEmulator} {records : List (Option Written)} {edits : List (Edit Written)}
      (b : JByte) (hs : Recorded s records) (hedits : Makes (process b) s edits)
      (hstores : StoresIn (Typed b) s.getForeColor s.getBackColor edits) :
      Recorded (after (process b) s) (Edit.applyAll some edits records)
  | reset {s t : TerminalEmulator} {records : List (Option Written)} {edits : List (Edit Written)}
      (hs : Recorded s records) (hreset : TerminalEmulator.reset s = .ok ⟨⟩ t)
      (hedits : Makes TerminalEmulator.reset s edits)
      (hstores : StoresIn (fun _ => False) t.getForeColor t.getBackColor edits) :
      Recorded t (Edit.applyAll some edits records)
  | updateSize {s t u : TerminalEmulator} {records : List (Option Written)}
      {edits : List (Edit Written)} {columns rows : Int} {text : List JChar}
      (hs : Recorded s records) (hclear : clearForSize columns rows s = .ok text u)
      (hreplay : replay text u = .ok ⟨⟩ t) (hedits : Makes (replay text) u edits)
      (hstores : StoresIn (fun n => ∃ c ∈ text, c.toNat = n) u.getForeColor u.getBackColor
        edits) :
      Recorded t (Edit.applyAll some edits
        (TranscriptScreen.freshCells columns.toNat s.mScreen.mTotalRows rows.toNat
          (some ⟨32, s.mForeColor, s.mBackColor⟩) none))

/-- What calls of the session lead to.  `append` catches the exceptions of `process`; an exception
of `reset` or `updateSize` is caught nowhere and ends the run. -/
inductive Reachable : TerminalEmulator → Prop
  | create {columns totalRows rows : Nat} {s : TerminalEmulator}
      (hsizes : TranscriptScreen.Storable columns totalRows rows)
      (hcreate : TerminalEmulator.create columns totalRows rows = .ok s) : Reachable s
  | byte {s : TerminalEmulator} (b : JByte) (hs : Reachable s) : Reachable (after (process b) s)
  | reset {s t : TerminalEmulator} (hs : Reachable s)
      (hreset : TerminalEmulator.reset s = .ok ⟨⟩ t) : Reachable t
  | updateSize {s t : TerminalEmulator} {columns rows : Int} (hs : Reachable s)
      (hsizes : TranscriptScreen.Storable columns.toNat s.mScreen.mTotalRows rows.toNat)
      (hupdate : TerminalEmulator.updateSize columns rows s = .ok ⟨⟩ t) : Reachable t

/-- A sound emulator whose cells are the codes of their records. -/
structure Matches (s : TerminalEmulator) (records : List (Option Written)) : Prop where
  sound : Sound s
  cells : s.mScreen.mData = records.map codeOf
  proper : ∀ w, some w ∈ records → w.Proper

/-- An oblivious call, as seen from outside. -/
theorem makes_of_oblivious {α : Type} {x : EmulatorM α} {A : Written → Prop}
    {I : TerminalEmulator → Prop} (h : Oblivious cellsField Written.code A I x s) :
    I (after x s) ∧ ∃ edits, Makes x s edits ∧ (∀ e ∈ edits, e.Stores A) ∧
      (after x s).mScreen.mData = Edit.applyAll Written.code edits s.mScreen.mData := by
  obtain ⟨r, t, edits, hself, hI, hedits, hread, hrun⟩ := h.outcome
  have hafter : after x s = t := by
    unfold after
    rw [hself]
    cases r <;> rfl
  rw [hafter]
  refine ⟨hI, edits, fun d hd => ?_, fun e he => (hedits e he).2, hread⟩
  rw [hafter]
  unfold after
  rw [hrun d hd]
  cases r <;> rfl

theorem after_of_ok {α : Type} {x : EmulatorM α} {a : α} {t : TerminalEmulator}
    (h : x s = .ok a t) : after x s = t := by
  unfold after
  rw [h]

/-- The edits made to the records are those made to the cells. -/
theorem Matches.edit {records : List (Option Written)} {edits : List (Edit Written)}
    {t : TerminalEmulator} (hcells : s.mScreen.mData = records.map codeOf)
    (hproper : ∀ w, some w ∈ records → w.Proper) (ht : Sound t)
    (hstores : ∀ e ∈ edits, e.Stores Written.Proper)
    (hdata : t.mScreen.mData = Edit.applyAll Written.code edits s.mScreen.mData) :
    Matches t (Edit.applyAll some edits records) := by
  refine ⟨ht, ?_, fun w hw => ?_⟩
  · rw [hdata, hcells, Edit.applyAll_map]
    rfl
  · have hsome (v : Written) (hv : v.Proper) (w : Written) (hw : some v = some w) : w.Proper :=
      Option.some.inj hw ▸ hv
    have hold (o : Option Written) (ho : o ∈ records) (w : Written) (hw : o = some w) : w.Proper :=
      hproper w (hw ▸ ho)
    exact Edit.mem_applyAll hsome hstores hold _ hw w rfl

/-- What is stored in colours of four bits is proper. -/
theorem StoresIn.proper {edits : List (Edit Written)} (h : StoresIn p f b edits) (hf : f ≤ 15)
    (hb : b ≤ 15) : ∀ e ∈ edits, e.Stores Written.Proper := by
  intro e he
  have hstores := h e he
  cases e with
  | store i w =>
      obtain ⟨_, hchar, rfl, rfl⟩ := hstores
      exact ⟨hchar, hf, hb⟩
  | copy src dst n => trivial

/-- A blank screen and its records. -/
theorem map_freshCells (columns totalRows rows : Nat) (w : Written) :
    (TranscriptScreen.freshCells columns totalRows rows (some w) none).map codeOf =
      TranscriptScreen.freshCells columns totalRows rows w.code 0 := by
  unfold TranscriptScreen.freshCells
  rw [List.map_append, List.map_replicate, List.map_replicate]
  rfl

theorem mem_freshCells {columns totalRows rows : Nat} {w w' : Written}
    (h : some w' ∈ TranscriptScreen.freshCells columns totalRows rows (some w) none) : w' = w := by
  rcases List.mem_append.mp h with h | h
  · exact Option.some.inj (List.eq_of_mem_replicate h)
  · cases List.eq_of_mem_replicate h

/-- The two halves of the constructor. -/
theorem create_eq_ok {columns totalRows rows : Nat}
    (h : TerminalEmulator.create columns totalRows rows = .ok s) :
    ∃ screen, TranscriptScreen.create columns totalRows rows 0 7 = .ok screen ∧
      reset (allocate screen columns rows) = .ok ⟨⟩ s := by
  unfold TerminalEmulator.create at h
  obtain ⟨screen, hscreen, hreset⟩ := bind_ok_iff.mp h
  exact ⟨screen, hscreen, ok_of_construct hreset⟩

theorem updateSize_same {columns rows : Int} (hsize : s.mRows = rows ∧ s.mColumns = columns) :
    updateSize columns rows s = .ok ⟨⟩ s := by
  unfold updateSize
  show (if _ then _ else _ : EmulatorM Unit) s = _
  rw [if_pos hsize]
  rfl

theorem proper_blank {f b : Nat} (hf : f ≤ 15) (hb : b ≤ 15) : Written.Proper ⟨32, f, b⟩ :=
  ⟨show 32 ≤ 32 ∧ 32 ≤ 127 by omega, hf, hb⟩

theorem recorded_create {columns totalRows rows : Nat}
    (hsizes : TranscriptScreen.Storable columns totalRows rows)
    (h : TerminalEmulator.create columns totalRows rows = .ok s) :
    ∃ records, Recorded s records ∧ Matches s records := by
  obtain ⟨screen, hscreen, hreset⟩ := create_eq_ok h
  have hblank : Written.Proper ⟨32, 0, 7⟩ := proper_blank (by omega) (by omega)
  have hinit : construct (TranscriptScreen.init columns totalRows rows 0 7)
      TranscriptScreen.unallocated = .ok screen := hscreen
  have hfresh := of_construct hinit (TranscriptScreen.init_fresh hsizes hblank _)
  have hstart : Sound (allocate screen columns rows) :=
    ⟨Nat.zero_le _, Nat.zero_le _, Int.le_refl 0, hfresh.active⟩
  obtain ⟨hs, edits, hedits, hstores, hdata⟩ := makes_of_oblivious (oblivious_reset hstart)
  rw [after_of_ok hreset] at hs hdata
  have hcolors : StoresIn (fun _ => False) s.getForeColor s.getBackColor edits := by
    rw [hs.fore_eq, hs.back_eq]
    exact hstores
  have hcells : (allocate screen columns rows).mScreen.mData =
      (TranscriptScreen.freshCells columns totalRows rows (some ⟨32, 0, 7⟩) none).map codeOf := by
    rw [map_freshCells]
    exact hfresh.data
  have hproper (w : Written) (hw : some w ∈
      TranscriptScreen.freshCells columns totalRows rows (some ⟨32, 0, 7⟩) none) : w.Proper := by
    rw [mem_freshCells hw]
    exact hblank
  exact ⟨_, .create hscreen hreset hedits hcolors, Matches.edit hcells hproper hs.sound
    (hcolors.proper hs.sound.getForeColor_le hs.sound.getBackColor_le) hdata⟩

variable {records : List (Option Written)}

theorem recorded_byte (hrecords : Recorded s records) (hmatch : Matches s records) (c : JByte) :
    ∃ records', Recorded (after (process c) s) records' ∧
      Matches (after (process c) s) records' := by
  obtain ⟨ht, edits, hedits, hstores, hdata⟩ :=
    makes_of_oblivious (oblivious_process hmatch.sound c)
  have hcolors : StoresIn (Typed c) s.getForeColor s.getBackColor edits := hstores
  exact ⟨_, .byte c hrecords hedits hcolors, Matches.edit hmatch.cells hmatch.proper ht
    (hcolors.proper hmatch.sound.getForeColor_le hmatch.sound.getBackColor_le) hdata⟩

theorem recorded_reset {t : TerminalEmulator} (hrecords : Recorded s records)
    (hmatch : Matches s records) (hreset : reset s = .ok ⟨⟩ t) :
    ∃ records', Recorded t records' ∧ Matches t records' := by
  obtain ⟨ht, edits, hedits, hstores, hdata⟩ := makes_of_oblivious (oblivious_reset hmatch.sound)
  rw [after_of_ok hreset] at ht hdata
  have hcolors : StoresIn (fun _ => False) t.getForeColor t.getBackColor edits := by
    rw [ht.fore_eq, ht.back_eq]
    exact hstores
  exact ⟨_, .reset hrecords hreset hedits hcolors, Matches.edit hmatch.cells hmatch.proper
    ht.sound (hcolors.proper ht.sound.getForeColor_le ht.sound.getBackColor_le) hdata⟩

theorem recorded_updateSize {t : TerminalEmulator} {columns rows : Int}
    (hrecords : Recorded s records) (hmatch : Matches s records)
    (hsizes : TranscriptScreen.Storable columns.toNat s.mScreen.mTotalRows rows.toNat)
    (hupdate : updateSize columns rows s = .ok ⟨⟩ t) :
    ∃ records', Recorded t records' ∧ Matches t records' := by
  by_cases hsame : s.mRows = rows ∧ s.mColumns = columns
  · rw [updateSize_same hsame] at hupdate
    cases hupdate
    exact ⟨records, hrecords, hmatch⟩
  · rw [updateSize_eq hsame] at hupdate
    obtain ⟨text, u, hclear, hreplay⟩ := bind_eq_ok hupdate
    obtain ⟨hu, htext, hdata⟩ :=
      (wp_of_ok hclear).mp (clearForSize_returns hmatch.sound hsizes)
    have hwrites : Writes (fun n => ∃ c ∈ text, c.toNat = n) u.getForeColor u.getBackColor
        (replay text) := writes_replay htext fun c hc => ⟨c, hc, rfl⟩
    obtain ⟨ht, edits, hedits, hstores, hafter⟩ :=
      makes_of_oblivious (hwrites.sound hu.drawing)
    rw [after_of_ok hreplay] at ht hafter
    have hcolors : StoresIn (fun n => ∃ c ∈ text, c.toNat = n) u.getForeColor u.getBackColor
        edits := hstores
    have hcells : u.mScreen.mData =
        (TranscriptScreen.freshCells columns.toNat s.mScreen.mTotalRows rows.toNat
          (some ⟨32, s.mForeColor, s.mBackColor⟩) none).map codeOf := by
      rw [map_freshCells]
      exact hdata
    have hproper (w : Written) (hw : some w ∈
        TranscriptScreen.freshCells columns.toNat s.mScreen.mTotalRows rows.toNat
          (some ⟨32, s.mForeColor, s.mBackColor⟩) none) : w.Proper := by
      rw [mem_freshCells hw]
      exact proper_blank hmatch.sound.foreColor hmatch.sound.backColor
    exact ⟨_, .updateSize hrecords hclear hreplay hedits hcolors, Matches.edit hcells hproper ht
      (hcolors.proper hu.getForeColor_le hu.getBackColor_le) hafter⟩

/-- Every call of a run goes on with the records. -/
theorem recorded_of_reachable (h : Reachable s) :
    ∃ records, Recorded s records ∧ Matches s records := by
  induction h with
  | create hsizes hcreate => exact recorded_create hsizes hcreate
  | byte c _ ih =>
      obtain ⟨records, hrecords, hmatch⟩ := ih
      exact recorded_byte hrecords hmatch c
  | reset _ hreset ih =>
      obtain ⟨records, hrecords, hmatch⟩ := ih
      exact recorded_reset hrecords hmatch hreset
  | updateSize _ hsizes hupdate ih =>
      obtain ⟨records, hrecords, hmatch⟩ := ih
      exact recorded_updateSize hrecords hmatch hsizes hupdate

/-! ## §9  Cells -/

/-- The cell at index `i` of the array is the code of its record, and splits into it: the low byte
is the character, the two halves of the high byte are the colours. -/
def Splits (s : TerminalEmulator) (records : List (Option Written)) (i : Nat) : Prop :=
  ∃ (w : Written) (c : JChar), records[i]? = some (some w) ∧ s.mScreen.mData[i]? = some c ∧
    (32 ≤ w.char ∧ w.char ≤ 127) ∧ w.foreColor ≤ 15 ∧ w.backColor ≤ 15 ∧
    c.toNat % 256 = w.char ∧ c.toNat / 4096 = w.foreColor ∧ c.toNat / 256 % 16 = w.backColor

/-- A cell that was never stored into is in no active row. -/
theorem Matches.splits (h : Matches s records) {row : Int} {r : Nat}
    (hr : TranscriptScreen.Locates s.mScreen row r) {x : Nat} (hx : x < s.mScreen.mColumns)
    (hin : r * s.mScreen.mColumns + x < s.mScreen.mData.length) :
    Splits s records (r * s.mScreen.mColumns + x) := by
  have hlength : s.mScreen.mData.length = records.length := by
    rw [h.cells, List.length_map]
  have hrecord := List.getElem?_eq_getElem (show r * s.mScreen.mColumns + x < records.length by
    omega)
  have hcell : s.mScreen.mData[r * s.mScreen.mColumns + x]? =
      some (codeOf records[r * s.mScreen.mColumns + x]) := by
    rw [h.cells, List.getElem?_map, hrecord]
    rfl
  have hlegible := h.sound.screen.inked row r hr x hx _ hcell
  generalize records[r * s.mScreen.mColumns + x] = o at hrecord hcell hlegible
  cases o with
  | none => exact absurd hlegible not_legible_zero
  | some w =>
      have hw := h.proper w (List.mem_of_getElem? hrecord)
      obtain ⟨hchar, hfore, hback⟩ := Written.split_code hw
      exact ⟨w, _, hrecord, hcell, hw.char, hw.foreColor, hw.backColor, hchar, hfore, hback⟩

/-- In every reachable state both colours are four bits wide, and every cell that can be addressed
splits into the character and the colours it was last written with. -/
theorem cells_never_leak (h : Reachable s) :
    s.mForeColor ≤ 15 ∧ s.mBackColor ≤ 15 ∧ ∃ records, Recorded s records ∧
      ∀ row : Int, -s.mScreen.mActiveTranscriptRows ≤ row → row < s.mScreen.mScreenRows →
        ∀ x < s.mScreen.mColumns, ∃ r : Nat,
          TranscriptScreen.externalToInternalRow row s.mScreen = .ok (r : Int) s.mScreen ∧
          Splits s records (r * s.mScreen.mColumns + x) := by
  obtain ⟨records, hrecords, hmatch⟩ := recorded_of_reachable h
  refine ⟨hmatch.sound.foreColor, hmatch.sound.backColor, records, hrecords, ?_⟩
  intro row hlo hhi x hx
  obtain ⟨r, ⟨hr, hlt⟩, hrow, _⟩ := hmatch.sound.screen.sized.locates hlo hhi
  have hin : r * s.mScreen.mColumns + x < s.mScreen.mData.length := by
    rw [hmatch.sound.screen.sized.data_length]
    exact rowMajor_lt hx hlt
  exact ⟨r, hrow, hmatch.splits hr hx hin⟩

/-- A letter on a screen of three columns and two rows, in its cell. -/
theorem cells_never_leak_letter : ∃ s, TerminalEmulator.create 3 5 2 = .ok s ∧
    (after (process 65) s).mForeColor ≤ 15 ∧ (after (process 65) s).mBackColor ≤ 15 ∧
    (after (process 65) s).mScreen.mData[0]? = some (TranscriptScreen.encode 65 7 0) ∧
    ∃ records, Recorded (after (process 65) s) records ∧
      Splits (after (process 65) s) records 0 := by
  have hcreated : (TerminalEmulator.create 3 5 2).map (fun s =>
      let screen := (after (process 65) s).mScreen
      decide ((screen.mActiveTranscriptRows = 0 ∧ screen.mScreenRows = 2 ∧ screen.mColumns = 3) ∧
        screen.mData[0]? = some (TranscriptScreen.encode 65 7 0))) = .ok true := by
    decide +kernel
  obtain ⟨s, hcreate, ⟨htranscript, hrows, hcolumns⟩, hletter⟩ := exists_create hcreated
  obtain ⟨hfore, hback, records, hrecords, hsplits⟩ := cells_never_leak
    (.byte 65 (.create ⟨by decide, by decide, by decide, by decide⟩ hcreate))
  obtain ⟨r, hr, hcell⟩ := hsplits 0 (by omega) (by omega) 0 (by omega)
  have hvisible := TranscriptScreen.externalToInternalRow_screen
    (s := (after (process 65) s).mScreen) (y := 0) (by omega)
  cases hvisible.symm.trans hr
  rw [Nat.zero_mul] at hcell
  exact ⟨s, hcreate, hfore, hback, hletter, records, hrecords, hcell⟩

end TerminalEmulator

end Kbox.Session
