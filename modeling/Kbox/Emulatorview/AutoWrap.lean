import Kbox.Emulatorview.ByteFrames
import Kbox.Emulatorview.Palette
import Kbox.Emulatorview.CursorAddressing
import Kbox.Emulatorview.SamplePlatform

/-!
# Autowrap along a run

The wraparound bit is on from the start.  It is turned off by DECRST, by restoring a private mode,
and by DECRC when nothing has been saved since the last reset.
-/

namespace Kbox.Emulatorview.TerminalEmulator

open Kbox.Framework

/-- The wraparound bit of `mDecFlags`. -/
def Wraps (s : TerminalEmulator) : Prop := s.autoWrapEnabled = true

instance (s : TerminalEmulator) : Decidable (Wraps s) := by unfold Wraps; infer_instance

/-! ## §1  Calls that leave the flags alone -/

section Frame

instance : Framed Wraps where
  same := fun {s t} h hsame => by
    have hflags : t.mDecFlags = s.mDecFlags := congrArg Prod.fst hsame
    unfold Wraps autoWrapEnabled
    rw [hflags]
    exact h

theorem wraps_modify {f : TerminalEmulator → TerminalEmulator}
    (hf : ∀ s, (f s).mDecFlags = s.mDecFlags) : Keeps Wraps (modify f : EmulatorM Unit) := by
  refine keeps_modify fun s h => ?_
  unfold Wraps autoWrapEnabled
  rw [hf]
  exact h

theorem wraps_setUTF8Mode (utf8Mode : Bool) : Keeps Wraps (setUTF8Mode utf8Mode) := by
  refine wraps_modify fun s => ?_
  by_cases hset : utf8Mode = true ∧ ¬ s.mUTF8Mode = true
  · simp only [if_pos hset]
  · simp only [if_neg hset]

theorem wraps_doEscPercent (b : JByte) : Keeps Wraps (doEscPercent b) := by
  have hselect (utf8Mode : Bool) : Keeps Wraps (doEscPercent.select utf8Mode) :=
    Keeps.then (wraps_setUTF8Mode _) (wraps_modify fun _ => rfl)
  unfold doEscPercent
  split
  · exact hselect false
  · exact hselect true
  · exact keeps_pure _

theorem wraps_changeDecFlags {b : JByte} (hb : toChar b ≠ 'l' ∧ toChar b ≠ 'r') (mask : BitVec 32) :
    Keeps Wraps (changeDecFlags b mask) := by
  unfold changeDecFlags
  split
  case h_1 =>
    refine keeps_modify fun s h => ?_
    unfold Wraps autoWrapEnabled at h ⊢
    rw [decide_eq_true_eq] at h ⊢
    intro hzero
    apply h
    rw [BitVec.and_comm, BitVec.and_or_distrib_left] at hzero
    rw [BitVec.and_comm]
    exact (BitVec.or_eq_zero_iff.mp hzero).1
  case h_2 hl => exact absurd hl hb.1
  case h_3 hr => exact absurd hr hb.2
  case h_4 => exact wraps_modify fun _ => rfl
  case h_5 => exact framed_parseArg b

end Frame

/-! ## §2  Bytes -/

section Bytes

variable [Platform] {s : TerminalEmulator}

/-- A byte that is not taken for DECRST, the restoring of a private mode or DECRC. -/
structure Harmless (b : JByte) (s : TerminalEmulator) : Prop where
  esc : toChar b = '8' → s.mEscapeState ≠ .esc
  priv : toChar b = 'l' ∨ toChar b = 'r' → s.mEscapeState ≠ .leftSquareBracketQuestionMark

theorem wraps_dispatch {b : JByte} (hb : Harmless b s) (h : Wraps s) :
    wp (dispatch b) (fun _ => Wraps) (fun _ => Wraps) s := by
  refine framed_dispatch ⟨fun hstate h8 => absurd hstate (hb.esc h8), fun hstate mask => ?_,
    fun _ => wraps_doEscPercent b⟩ h
  exact wraps_changeDecFlags ⟨fun hl => hb.priv (.inl hl) hstate,
    fun hr => hb.priv (.inr hr) hstate⟩ mask

omit [Platform] in
/-- None of the three bytes comes from a C1 control. -/
theorem harmless_c1 {b : JByte} (hb : isC1 b = true) (t : TerminalEmulator) :
    Harmless 27 t ∧ Harmless ((b &&& 0x7f) + 0x40) t := by
  have hbytes : ∀ b : JByte, isC1 b = true → toChar ((b &&& 0x7f) + 0x40) ≠ '8' ∧
      toChar ((b &&& 0x7f) + 0x40) ≠ 'l' ∧ toChar ((b &&& 0x7f) + 0x40) ≠ 'r' := by
    decide +kernel
  obtain ⟨h8, hl, hr⟩ := hbytes b hb
  refine ⟨⟨fun h => absurd h (by decide), ?_⟩, ⟨fun h => absurd h h8, ?_⟩⟩
  · rintro (h | h) <;> exact absurd h (by decide)
  · rintro (h | h)
    · exact absurd h hl
    · exact absurd h hr

theorem wraps_processUndecoded {b : JByte} (hb : Harmless b s) (h : Wraps s) :
    wp (processUndecoded b) (fun _ => Wraps) (fun _ => Wraps) s := by
  unfold processUndecoded
  rw [wp_ite, wp_bind]
  refine ⟨fun hc1 => ?_, fun _ => wraps_dispatch hb h⟩
  refine wp_mono (wraps_dispatch (harmless_c1 hc1 s).1 h) (fun _ t ht => ?_) fun _ _ ht => ht
  exact wraps_dispatch (harmless_c1 hc1 t).2 ht

omit [Platform] in
theorem wraps_putByte (b : JByte) : Keeps Wraps (putByte b) := by
  apply keeps_read
  intro s h
  rw [wp_bind, wp_throwIf, wp_set]
  exact ⟨fun _ => h, fun _ => h⟩

theorem wraps_emitDecoded (chars : List JChar) : Keeps Wraps (emitDecoded chars) := by
  refine (keeps_checked _).bind fun c => keeps_ite (fun hc => ?_) fun _ => framed_emitChars chars
  intro s h
  have hbytes : ∀ b : JByte, 0x80 ≤ b.toNat →
      toChar b ≠ '8' ∧ toChar b ≠ 'l' ∧ toChar b ≠ 'r' := by
    decide +kernel
  obtain ⟨h8, hl, hr⟩ := hbytes (c.setWidth 8) (by rw [BitVec.toNat_setWidth]; omega)
  refine wraps_processUndecoded ⟨fun h => absurd h h8, ?_⟩ h
  rintro (h | h)
  · exact absurd h hl
  · exact absurd h hr

theorem wraps_continueUTF8 (b : JByte) : Keeps Wraps (continueUTF8 b) := by
  have hfinish : Keeps Wraps finishUTF8 := by
    refine Keeps.then (wraps_modify fun _ => rfl) (keeps_get_bind fun s => ?_)
    exact (wraps_emitDecoded _).then (wraps_modify fun _ => rfl)
  refine keeps_ite (fun _ => ?_) fun _ => ?_
  · exact Keeps.then (wraps_modify fun _ => rfl) (framed_emit _)
  · refine (wraps_putByte b).then (Keeps.then (wraps_modify fun _ => rfl) ?_)
    exact keeps_get_bind fun _ => keeps_when fun _ => hfinish

theorem wraps_startUTF8 (b : JByte) : Keeps Wraps (startUTF8 b) := by
  unfold startUTF8
  cases toFollow b with
  | some n => exact Keeps.then (wraps_modify fun _ => rfl) (wraps_putByte b)
  | none => exact framed_emit _

theorem wraps_process {b : JByte} (hb : (s.mUTF8Mode = true → s.mUTF8ToFollow = 0) → Harmless b s)
    (h : Wraps s) : wp (process b) (fun _ => Wraps) (fun _ => Wraps) s := by
  by_cases hraw : s.mUTF8Mode = true → s.mUTF8ToFollow = 0 ∧ b.toNat < 0x80
  · rw [wp_congr (process_undecoded hraw)]
    exact wraps_processUndecoded (hb fun hmode => (hraw hmode).1) h
  · push Not at hraw
    obtain ⟨hmode, hraw⟩ := hraw
    by_cases hfollow : s.mUTF8ToFollow > 0
    · rw [wp_congr (process_continue b hmode hfollow)]
      exact wraps_continueUTF8 b s h
    · rw [wp_congr (process_start hmode (by omega) hraw)]
      exact wraps_startUTF8 b s h

end Bytes

/-! ## §3  Resets -/

section Resets

variable [Platform] {s : TerminalEmulator}

/-- A reset turns autowrap on. -/
theorem wraps_reset (s : TerminalEmulator) :
    wp reset (fun _ => Wraps) (fun _ => Wraps) s := by
  unfold reset
  rw [wp_bind, wp_modify]
  have hrest : Keeps Wraps (do
      computeEffectiveCharSet
      setDefaultTabStops
      let s ← get
      blockClear 0 0 s.mColumns s.mRows
      setUTF8Mode s.mDefaultUTF8Mode
      modify fun s => { s with
        mUTF8EscapeUsed := false
        mUTF8ToFollow := 0
        mUTF8ByteBuffer := { s.mUTF8ByteBuffer with position := 0 }
        mInputCharBuffer := { s.mInputCharBuffer with position := 0 } } : EmulatorM Unit) := by
    refine Keeps.then (wraps_modify fun _ => rfl) (Keeps.then (wraps_modify fun _ => rfl) ?_)
    refine keeps_get_bind fun s => (framed_blockClear _ _ _ _).then ?_
    exact (wraps_setUTF8Mode _).then (wraps_modify fun _ => rfl)
  refine hrest _ ?_
  show decide (kWraparoundModeMask &&& kWraparoundModeMask ≠ 0) = true
  decide

omit [Platform] in
theorem wraps_setDefaultUTF8Mode (utf8 : Bool) : Keeps Wraps (setDefaultUTF8Mode utf8) := by
  refine Keeps.then (wraps_modify fun _ => rfl) (keeps_get_bind fun _ => ?_)
  exact keeps_when fun _ => wraps_setUTF8Mode utf8

end Resets

/-! ## §4  Runs -/

section Runs

variable [Platform] {s : TerminalEmulator}

/-- DECRST, or the restoring of a private mode. -/
def Call.EndsPrivate (s : TerminalEmulator) : Call → Prop
  | .byte b => (b = 108 ∨ b = 114) ∧ s.mEscapeState = .leftSquareBracketQuestionMark ∧
      (s.mUTF8Mode = true → s.mUTF8ToFollow = 0)
  | _ => False

/-- DECRC. -/
def Call.RestoresCursor (s : TerminalEmulator) : Call → Prop
  | .byte b => b = 56 ∧ s.mEscapeState = .esc ∧ (s.mUTF8Mode = true → s.mUTF8ToFollow = 0)
  | _ => False

/-- The flags that DECRC would restore have the wraparound bit: the cursor has been saved since
the last reset. -/
def SavedWraps (s : TerminalEmulator) : Prop :=
  s.mSavedDecFlags_DECSC_DECRC &&& kWraparoundModeMask ≠ 0

instance (s : TerminalEmulator) : Decidable (SavedWraps s) := by
  unfold SavedWraps; infer_instance

instance (call : Call) (s : TerminalEmulator) : Decidable (call.EndsPrivate s) :=
  match call with
  | .byte _ => by unfold Call.EndsPrivate; infer_instance
  | .updateSize _ _ => .isFalse id
  | .reset => .isFalse id
  | .setDefaultUTF8Mode _ => .isFalse id

instance (call : Call) (s : TerminalEmulator) : Decidable (call.RestoresCursor s) :=
  match call with
  | .byte _ => by unfold Call.RestoresCursor; infer_instance
  | .updateSize _ _ => .isFalse id
  | .reset => .isFalse id
  | .setDefaultUTF8Mode _ => .isFalse id

omit [Platform] in
theorem toChar_eq_iff (b : JByte) :
    (toChar b = '8' → b = 56) ∧ (toChar b = 'l' → b = 108) ∧ (toChar b = 'r' → b = 114) := by
  revert b
  decide +kernel

/-- Every other call keeps autowrap on. -/
theorem wraps_call {call : Call} (hprivate : ¬ call.EndsPrivate s)
    (hrestore : ¬ call.RestoresCursor s) (h : Wraps s) : Wraps (after call.body s) := by
  cases call with
  | byte b =>
      obtain ⟨h8, hl, hr⟩ := toChar_eq_iff b
      refine after_of_wp (wraps_process (fun hdecoded => ?_) h)
      refine ⟨fun hb hesc => ?_, fun hb hstate => ?_⟩
      · exact hrestore ⟨h8 hb, hesc, hdecoded⟩
      · exact hprivate ⟨hb.imp hl hr, hstate, hdecoded⟩
  | updateSize columns rows => exact (framed_updateSize columns rows).after h
  | reset => exact after_of_wp (wraps_reset s)
  | setDefaultUTF8Mode utf8 => exact (wraps_setDefaultUTF8Mode utf8).after h

omit [Platform] in
theorem and_restored (flags saved : BitVec 32) :
    ((flags &&& ~~~kDecscDecrcMask) ||| saved) &&& kWraparoundModeMask =
      saved &&& kWraparoundModeMask := by
  have hmask : ~~~kDecscDecrcMask &&& kWraparoundModeMask = 0#32 := by decide
  rw [BitVec.and_comm, BitVec.and_or_distrib_left, BitVec.and_comm _ (flags &&& _),
    BitVec.and_assoc, hmask, BitVec.and_zero, BitVec.zero_or, BitVec.and_comm]

/-- After DECRC autowrap is what it was when the cursor was saved. -/
theorem wraps_restoresCursor {call : Call} (hcall : call.RestoresCursor s) :
    Wraps (after call.body s) ↔ SavedWraps s := by
  cases call with
  | byte b =>
      obtain ⟨rfl, hesc, hdecoded⟩ := hcall
      have hstate (u : TerminalEmulator) (hu : u.mEscapeState = .esc) :
          processInState 56 u = restoreCursor u := by
        simp only [processInState, bind, EStateM.bind, get_apply, hu]
        rfl
      have hafter := process_in_sequence hdecoded (by decide)
        ((hstate { s with mContinueSequence := false } hesc).trans rfl)
      show Wraps (after (process 56) s) ↔ _
      rw [hafter]
      unfold SavedWraps
      rw [← and_restored s.mDecFlags]
      exact decide_eq_true_iff
  | updateSize columns rows => exact absurd hcall id
  | reset => exact absurd hcall id
  | setDefaultUTF8Mode utf8 => exact absurd hcall id

theorem wraps_run_iff {calls : List Call} (h : Wraps s)
    (hcalls : RunMeets (fun call s => ¬ call.EndsPrivate s) calls s) :
    (∀ n, Wraps (run (calls.take n) s)) ↔
      RunMeets (fun call s => call.RestoresCursor s → SavedWraps s) calls s := by
  induction calls generalizing s with
  | nil =>
      refine ⟨fun _ => trivial, fun _ n => ?_⟩
      rw [List.take_nil]
      exact h
  | cons call calls ih =>
      obtain ⟨hprivate, hrest⟩ := hcalls
      constructor
      · intro hall
        have hnext : Wraps (after call.body s) := hall 1
        exact ⟨fun hrestore => (wraps_restoresCursor hrestore).mp hnext,
          (ih hnext hrest).mp fun n => hall (n + 1)⟩
      · rintro ⟨hsaved, hmeets⟩ n
        have hnext : Wraps (after call.body s) := by
          by_cases hrestore : call.RestoresCursor s
          · exact (wraps_restoresCursor hrestore).mpr (hsaved hrestore)
          · exact wraps_call hprivate hrestore h
        cases n with
        | zero => exact h
        | succ n => exact (ih hnext hrest).mpr hmeets n

theorem wraps_create {columns totalRows rows : Nat} (h : create columns totalRows rows = .ok s) :
    Wraps s := by
  obtain ⟨screen, _, h⟩ := bind_ok_iff.mp h
  exact of_construct h (wraps_reset _)

end Runs

/-! ## §5  The last column -/

section LastColumn

variable [Platform] {s t : TerminalEmulator}

/-- `emit` of a narrow character wraps first. -/
def Wrapping (s : TerminalEmulator) : Prop :=
  s.autoWrapEnabled = true ∧ s.mCursorCol = s.mColumns - 1 ∧ s.mAboutToAutoWrap = true

instance (s : TerminalEmulator) : Decidable (Wrapping s) := by unfold Wrapping; infer_instance

/-- The column that a narrow character goes to. -/
def drawnColumn (s : TerminalEmulator) : Int := if Wrapping s then 0 else s.mCursorCol

/-- Bring the cursor to where a character of the given width goes. -/
def place (width : Int) : EmulatorM (Int × Int) := do
  when (← get).autoWrapEnabled (wrapCursor width)
  when ((← get).mInsertMode ∧ width ≠ 0) (moveRight width)
  let s ← get
  pure (s.mCursorRow, s.mCursorCol)

theorem emit_place {c : Int} (hc : 32 ≤ c ∧ c ≤ 126) :
    emit c s = (do
      let (row, col) ← place 1
      onScreen (TranscriptScreen.set col row c s.getStyle)
      modify fun s => { s with mJustWrapped := false }
      advanceCursor s.autoWrapEnabled 1 : EmulatorM Unit) s := by
  have hwidth := charWidth_ascii hc
  unfold emit emitStyled place placeChar
  generalize charWidth c = width at hwidth ⊢
  subst hwidth
  simp only [bind_assoc, pure_bind, one_ne_zero, if_false]
  rfl

omit [Platform] in
/-- What a call on the screen leaves is the emulator with another screen. -/
theorem wp_onScreen_other {α : Type} {x : ScreenM α} {Q : α → TerminalEmulator → Prop}
    {E : Exn → TerminalEmulator → Prop} (hQ : ∀ a screen, Q a { s with mScreen := screen })
    (hE : ∀ e screen, E e { s with mScreen := screen }) : wp (onScreen x) Q E s := by
  unfold onScreen
  rw [wp_onField]
  exact wp_mono (wp_true _ _) (fun _ _ _ => hQ _ _) fun _ _ _ => hE _ _

/-- The row of the next character, when it wraps: one further down, or the region scrolls. -/
def NextRow (s t : TerminalEmulator) : Prop :=
  t.mCursorRow = s.mCursorRow + 1 ∨ t.mScrollCounter = iadd s.mScrollCounter 1

/-- What `place` does to the cursor. -/
structure Positioned (s t : TerminalEmulator) : Prop where
  col : t.mCursorCol = drawnColumn s
  columns : t.mColumns = s.mColumns
  row : Wrapping s → NextRow s t

omit [Platform] in
theorem positioned_wrapCursor (h : s.autoWrapEnabled = true) :
    wp (wrapCursor 1) (fun _ => Positioned s) (fun _ _ => True) s := by
  unfold wrapCursor
  rw [wp_bind, wp_get, wp_ite]
  constructor
  · rintro ⟨hcol, habout⟩
    have hwrap : Wrapping s := ⟨h, hcol, habout.resolve_right (by decide)⟩
    have hzero : (0 : Int) = drawnColumn s := (if_pos hwrap).symm
    rw [wp_bind]
    refine wp_onScreen_other (fun _ screen => ?_) fun _ _ => trivial
    rw [wp_bind, wp_modify, wp_ite, wp_modify]
    refine ⟨fun _ => ⟨hzero, rfl, fun _ => .inl rfl⟩, fun _ => ?_⟩
    unfold scroll
    rw [wp_bind, wp_modify, wp_bind, wp_get]
    exact wp_onScreen_other (fun _ _ => ⟨hzero, rfl, fun _ => .inr rfl⟩) fun _ _ => trivial
  · intro hstay
    have hwrap : ¬ Wrapping s := fun hw => hstay ⟨hw.2.1, .inl hw.2.2⟩
    rw [wp_pure]
    exact ⟨(if_neg hwrap).symm, rfl, fun hw => absurd hw hwrap⟩

theorem positioned_moveRight {width : Int} (h : Positioned s t) :
    wp (moveRight width) (fun _ => Positioned s) (fun _ _ => True) t := by
  unfold moveRight
  rw [wp_bind, wp_get, wp_ite, wp_pure]
  refine ⟨fun _ => ?_, fun _ => h⟩
  exact wp_onScreen_other (fun _ _ => ⟨h.col, h.columns, h.row⟩) fun _ _ => trivial

theorem wp_place :
    wp (place 1) (fun p t => p = (t.mCursorRow, t.mCursorCol) ∧ Positioned s t) (fun _ _ => True)
      s := by
  have hinsert (t : TerminalEmulator) (h : Positioned s t) :
      wp (do
        when ((← get).mInsertMode ∧ (1 : Int) ≠ 0) (moveRight 1)
        let t ← get
        pure (t.mCursorRow, t.mCursorCol) : EmulatorM (Int × Int))
        (fun p t => p = (t.mCursorRow, t.mCursorCol) ∧ Positioned s t) (fun _ _ => True) t := by
    rw [wp_bind, wp_get, wp_bind, wp_when]
    refine ⟨fun _ => ?_, fun _ => ?_⟩
    · refine wp_mono (positioned_moveRight h) (fun _ u hu => ?_) fun _ _ _ => trivial
      rw [wp_bind, wp_get, wp_pure]
      exact ⟨rfl, hu⟩
    · rw [wp_bind, wp_get, wp_pure]
      exact ⟨rfl, h⟩
  unfold place
  rw [wp_bind, wp_get, wp_bind, wp_when]
  refine ⟨fun hauto => ?_, fun hauto => ?_⟩
  · exact wp_mono (positioned_wrapCursor hauto) (fun _ t ht => hinsert t ht) fun _ _ _ => trivial
  · have hwrap : ¬ Wrapping s := fun hw => hauto hw.1
    exact hinsert s ⟨(if_neg hwrap).symm, rfl, fun hw => absurd hw hwrap⟩

/-- The cursor behind a narrow character. -/
structure CursorDrawn (s t : TerminalEmulator) : Prop where
  about : s.autoWrapEnabled = true → t.mAboutToAutoWrap = decide (drawnColumn s = s.mColumns - 1)
  col : t.mCursorCol = min (drawnColumn s + 1) (s.mColumns - 1)
  columns : t.mColumns = s.mColumns
  row : Wrapping s → NextRow s t

theorem drawn_emit {c : Int} (hc : 32 ≤ c ∧ c ≤ 126) :
    wp (emit c) (fun _ => CursorDrawn s) (fun _ _ => True) s := by
  rw [wp_congr (emit_place hc), wp_bind]
  refine wp_mono wp_place ?_ fun _ _ _ => trivial
  rintro ⟨row, col⟩ t ⟨hp, ht⟩
  rw [wp_bind]
  refine wp_onScreen_other (fun _ screen => ?_) fun _ _ => trivial
  unfold advanceCursor
  rw [wp_bind, wp_modify, wp_modify]
  refine ⟨fun hauto => ?_, ?_, ht.columns, ht.row⟩
  · show (if s.autoWrapEnabled = true then decide (t.mCursorCol = t.mColumns - 1)
      else t.mAboutToAutoWrap) = _
    rw [if_pos hauto, ht.col, ht.columns]
  · show min (t.mCursorCol + 1) (t.mColumns - 1) = _
    rw [ht.col, ht.columns]

/-- A printable ASCII character, drawn as it is. -/
structure Printed (b : JByte) (s : TerminalEmulator) : Prop where
  ascii : 32 ≤ b.toNat ∧ b.toNat ≤ 126
  ground : s.mEscapeState = .none
  decoded : s.mUTF8Mode = true → s.mUTF8ToFollow = 0
  plain : s.mUseAlternateCharSet = false

theorem drawn_process {b : JByte} (hb : Printed b s) (h : process b s = .ok ⟨⟩ t) :
    CursorDrawn s t := by
  have hascii := hb.ascii
  have hint : b.toInt = b.toNat := by
    rw [BitVec.toInt_eq_toNat_of_lt]
    omega
  have hc : 32 ≤ b.toInt ∧ b.toInt ≤ 126 := by omega
  have hwp : wp (process b) (fun _ => CursorDrawn s) (fun _ _ => True) s := by
    rw [wp_congr (process_dispatch hb.decoded (by omega)),
      dispatch_text (by omega), wp_bind, wp_modify, wp_bind]
    unfold processInState
    rw [wp_bind, wp_get]
    simp only [hb.ground]
    unfold emitByte
    rw [wp_when, wp_bind, wp_get, wp_ite]
    refine ⟨fun _ => ⟨fun halt => ?_, fun _ => ?_⟩, fun hlow => absurd hc.1 hlow⟩
    · exact absurd (halt.symm.trans hb.plain) (by decide)
    · refine wp_mono (drawn_emit hc) (fun _ u hu => ?_) fun _ _ _ => trivial
      rw [wp_bind, wp_get, wp_when]
      have hdrawn : CursorDrawn s u := ⟨hu.about, hu.col, hu.columns, hu.row⟩
      exact ⟨fun _ => (wp_modify _ _ _ _).mpr ⟨hu.about, hu.col, hu.columns, hu.row⟩,
        fun _ => hdrawn⟩
  exact (wp_of_ok h).mp hwp

omit [Platform] in
/-- After a character in the last column the next one wraps. -/
theorem wrapping_of_drawn (h : Wraps s) (hwraps : Wraps t) (hdrawn : CursorDrawn s t)
    (hcol : drawnColumn s = s.mColumns - 1) : Wrapping t := by
  refine ⟨hwraps, ?_, ?_⟩
  · rw [hdrawn.col, hdrawn.columns, hcol]
    omega
  · rw [hdrawn.about h, decide_eq_true hcol]

/-- No character of the run is overwritten in the last column: the next printable one goes to the
first column, of the next row or of a row that the region has scrolled. -/
def KeepsLastColumn (calls : List Call) (s : TerminalEmulator) : Prop :=
  ∀ n b b', calls[n]? = some (.byte b) → calls[n + 1]? = some (.byte b') →
    Printed b (run (calls.take n) s) → Printed b' (run (calls.take (n + 1)) s) →
    process b (run (calls.take n) s) = .ok ⟨⟩ (run (calls.take (n + 1)) s) →
    process b' (run (calls.take (n + 1)) s) = .ok ⟨⟩ (run (calls.take (n + 2)) s) →
    drawnColumn (run (calls.take n) s) = (run (calls.take n) s).mColumns - 1 →
    drawnColumn (run (calls.take (n + 1)) s) = 0 ∧
      NextRow (run (calls.take (n + 1)) s) (run (calls.take (n + 2)) s)

theorem keepsLastColumn {calls : List Call} (h : ∀ n, Wraps (run (calls.take n) s)) :
    KeepsLastColumn calls s := by
  intro n b b' _ _ hb hb' hprocess hprocess' hcol
  have hwrap := wrapping_of_drawn (h n) (h (n + 1)) (drawn_process hb hprocess) hcol
  exact ⟨if_pos hwrap, (drawn_process hb' hprocess').row hwrap⟩

/-- A new emulator, or one that has just been reset. -/
def Restarted (s : TerminalEmulator) : Prop :=
  (∃ columns totalRows rows, create columns totalRows rows = .ok s) ∨ ∃ s₀, s = after reset s₀

/-- **Autowrap stays on exactly as long as no DECRC restores the flags of a time before the last
reset.**  While it is on, text is not overwritten in the last column. -/
theorem autowrap_stays_iff {calls : List Call} (h : Restarted s)
    (hcalls : RunMeets (fun call s => ¬ call.EndsPrivate s) calls s) :
    ((∀ n, Wraps (run (calls.take n) s)) ∧ KeepsLastColumn calls s) ↔
      RunMeets (fun call s => call.RestoresCursor s → SavedWraps s) calls s := by
  have hwraps : Wraps s := by
    rcases h with ⟨columns, totalRows, rows, hcreate⟩ | ⟨s₀, rfl⟩
    · exact wraps_create hcreate
    · exact after_of_wp (wraps_reset s₀)
  rw [← wraps_run_iff hwraps hcalls]
  constructor
  · exact fun hkeeps => hkeeps.1
  · exact fun hall => ⟨hall, keepsLastColumn hall⟩

/-- `ESC 7 ESC 8` -/
def saveRestore : List Call := [27, 55, 27, 56].map .byte

omit [Platform] in
theorem autowrap_stays_iff_saved : let _ := samplePlatform
    ∃ s, create 2 3 2 = .ok s ∧
      (((∀ n, Wraps (run (saveRestore.take n) s)) ∧ KeepsLastColumn saveRestore s) ↔
        RunMeets (fun call s => call.RestoresCursor s → SavedWraps s) saveRestore s) := by
  let _ := samplePlatform
  have hmeets : (create 2 3 2).map (fun s =>
      decide (RunMeets (fun call s => ¬ call.EndsPrivate s) saveRestore s)) = .ok true := by
    decide +kernel
  cases hcreate : create 2 3 2 with
  | error e =>
      rw [hcreate] at hmeets
      cases hmeets
  | ok s =>
      rw [hcreate] at hmeets
      have hcalls := of_decide_eq_true (Except.ok.inj hmeets)
      exact ⟨s, hcreate, autowrap_stays_iff (.inl ⟨2, 3, 2, hcreate⟩) hcalls⟩

instance (b : JByte) (s : TerminalEmulator) : Decidable (Printed b s) :=
  decidable_of_iff ((32 ≤ b.toNat ∧ b.toNat ≤ 126) ∧ s.mEscapeState = .none ∧
    (s.mUTF8Mode = true → s.mUTF8ToFollow = 0) ∧ s.mUseAlternateCharSet = false)
    ⟨fun ⟨h1, h2, h3, h4⟩ => ⟨h1, h2, h3, h4⟩, fun ⟨h1, h2, h3, h4⟩ => ⟨h1, h2, h3, h4⟩⟩

/-- `ESC 8 A B C` -/
def restoreOnly : List Call := [27, 56, 65, 66, 67].map .byte

omit [Platform] in
/-- On a new emulator of two columns, `C` is written over `B` behind `ESC 8`. -/
theorem restore_ends_autowrap : let _ := samplePlatform
    ∃ s, create 2 3 2 = .ok s ∧
      RunMeets (fun call s => ¬ call.EndsPrivate s) restoreOnly s ∧
      ¬ Wraps (run (restoreOnly.take 2) s) ∧ ¬ KeepsLastColumn restoreOnly s := by
  let _ := samplePlatform
  have hrun : (create 2 3 2).map (fun s => decide (
      RunMeets (fun call s => ¬ call.EndsPrivate s) restoreOnly s ∧
      ¬ Wraps (run (restoreOnly.take 2) s) ∧
      Printed 66 (run (restoreOnly.take 3) s) ∧ Printed 67 (run (restoreOnly.take 4) s) ∧
      ((process 66).run' (run (restoreOnly.take 3) s)).isSome ∧
      ((process 67).run' (run (restoreOnly.take 4) s)).isSome ∧
      drawnColumn (run (restoreOnly.take 3) s) = (run (restoreOnly.take 3) s).mColumns - 1 ∧
      drawnColumn (run (restoreOnly.take 4) s) = 1)) = .ok true := by
    decide +kernel
  cases hcreate : create 2 3 2 with
  | error e =>
      rw [hcreate] at hrun
      cases hrun
  | ok s =>
      rw [hcreate] at hrun
      obtain ⟨hcalls, hwraps, hB, hC, hokB, hokC, hlast, hcol⟩ :=
        of_decide_eq_true (Except.ok.inj hrun)
      refine ⟨s, hcreate, hcalls, hwraps, fun hkeeps => ?_⟩
      have hfirst := hkeeps 3 66 67 rfl rfl hB hC (run_ok_iff.mpr ⟨hokB, rfl⟩)
        (run_ok_iff.mpr ⟨hokC, rfl⟩) hlast
      exact absurd (hcol.symm.trans hfirst.1) (by decide)

end LastColumn

end Kbox.Emulatorview.TerminalEmulator
