import Mathlib.Tactic.IntervalCases
import Kbox.Emulatorview.CursorAddressing

/-!
# Private modes, byte by byte

`doEscLSBQuest` runs for every byte behind `ESC [ ?` and looks at the parameter as far as it has
been read.  What it does for mode 3 and for mode 6 it does at every byte that follows a 3 or a 6.
-/

namespace Kbox.Emulatorview.TerminalEmulator

open Kbox.Framework

/-! ## §1  Parameters -/

/-- The byte of a parameter: a digit, or the semicolon. -/
def IsParameter (b : JByte) : Prop := isDigit b = true ∨ b = 59

theorem isDigit_iff {b : JByte} : isDigit b = true ↔ ∃ d : Digit, b = digitByte d := by
  constructor
  · revert b
    decide +kernel
  · rintro ⟨d, rfl⟩
    revert d
    decide

/-- The modes that are acted on whatever the byte. -/
def Acts (argument : Int) : Prop := argument = 3 ∨ argument = 6

instance (argument : Int) : Decidable (Acts argument) := by unfold Acts; infer_instance

theorem getDecFlagsMask_three (argument : Int) :
    getDecFlagsMask argument &&& k132ColumnModeMask ≠ 0 ↔ argument = 3 := by
  unfold getDecFlagsMask
  by_cases hrange : argument ≥ 1 ∧ argument ≤ 9
  · obtain ⟨hlo, hhi⟩ := hrange
    interval_cases argument <;> decide
  · rw [if_neg hrange]
    exact ⟨fun h => absurd rfl h, fun h => by omega⟩

theorem getDecFlagsMask_six (argument : Int) :
    getDecFlagsMask argument &&& kOriginModeMask ≠ 0 ↔ argument = 6 := by
  unfold getDecFlagsMask
  by_cases hrange : argument ≥ 1 ∧ argument ≤ 9
  · obtain ⟨hlo, hhi⟩ := hrange
    interval_cases argument <;> decide
  · rw [if_neg hrange]
    exact ⟨fun h => absurd rfl h, fun h => by omega⟩

/-- Behind `ESC [ ?` and some bytes of the parameters, with no UTF-8 sequence begun. -/
structure InPrivateMode (s : TerminalEmulator) : Prop where
  state : s.mEscapeState = .leftSquareBracketQuestionMark
  decoded : s.mUTF8Mode = true → s.mUTF8ToFollow = 0

/-- The emulator with one more byte of the parameters read. -/
def parsed (b : JByte) (s : TerminalEmulator) : TerminalEmulator :=
  if isDigit b then { s with
    mArgs := if h : s.mArgIndex < maxEscapeParameters then
        s.mArgs.set s.mArgIndex (appendDigit s.mArgs[s.mArgIndex] b)
      else s.mArgs
    mContinueSequence := true }
  else { s with
    mArgIndex := if s.mArgIndex < maxEscapeParameters then s.mArgIndex + 1 else s.mArgIndex
    mContinueSequence := true }

theorem mContinueSequence_parsed (b : JByte) (s : TerminalEmulator) :
    (parsed b s).mContinueSequence = true := by
  unfold parsed
  cases isDigit b <;> rfl

variable [Platform] {s t : TerminalEmulator} {b : JByte}

omit [Platform] in
theorem changeDecFlags_parameter (hb : IsParameter b) (mask : BitVec 32) :
    changeDecFlags b mask s = .ok ⟨⟩ (parsed b s) := by
  rcases hb with hdigit | rfl
  · obtain ⟨d, rfl⟩ := isDigit_iff.mp hdigit
    have hparse : changeDecFlags (digitByte d) mask = parseArg (digitByte d) := by
      fin_cases d <;> rfl
    rw [hparse]
    unfold parseArg parsed
    rw [hdigit]
    rfl
  · rfl

/-- No cell, no cursor position and no mode has changed. -/
structure Unchanged (s t : TerminalEmulator) : Prop where
  screen : t.mScreen = s.mScreen
  cursor : t.mCursorRow = s.mCursorRow ∧ t.mCursorCol = s.mCursorCol
  decFlags : t.mDecFlags = s.mDecFlags ∧ t.mSavedDecFlags = s.mSavedDecFlags
  modes : t.mInsertMode = s.mInsertMode ∧ t.mAutomaticNewlineMode = s.mAutomaticNewlineMode

omit [Platform] in
theorem Unchanged.trans {u : TerminalEmulator} (h : Unchanged s t) (h' : Unchanged t u) :
    Unchanged s u :=
  ⟨h'.screen.trans h.screen,
    ⟨h'.cursor.1.trans h.cursor.1, h'.cursor.2.trans h.cursor.2⟩,
    ⟨h'.decFlags.1.trans h.decFlags.1, h'.decFlags.2.trans h.decFlags.2⟩,
    ⟨h'.modes.1.trans h.modes.1, h'.modes.2.trans h.modes.2⟩⟩

omit [Platform] in
theorem unchanged_parsed (b : JByte) (s : TerminalEmulator) : Unchanged s (parsed b s) := by
  unfold parsed
  cases isDigit b <;> exact ⟨rfl, ⟨rfl, rfl⟩, ⟨rfl, rfl⟩, rfl, rfl⟩

/-! ## §2  Other modes -/

theorem doEscLSBQuest_inert (hflags : changeDecFlags b (getDecFlagsMask (s.getArg0 0)) s = .ok ⟨⟩ t)
    (hv : ¬ Acts (s.getArg0 0)) : doEscLSBQuest b s = .ok ⟨⟩ t := by
  have h3 : ¬ getDecFlagsMask (s.getArg0 0) &&& k132ColumnModeMask ≠ 0 :=
    fun h => hv (.inl ((getDecFlagsMask_three _).mp h))
  have h6 : ¬ getDecFlagsMask (s.getArg0 0) &&& kOriginModeMask ≠ 0 :=
    fun h => hv (.inr ((getDecFlagsMask_six _).mp h))
  simp only [doEscLSBQuest, bind, EStateM.bind, get_apply, hflags,
    when, if_neg h3, if_neg h6, pure, EStateM.pure]

/-- A byte behind `ESC [ ?`, from what `doEscLSBQuest` does with it. -/
theorem process_private (hs : InPrivateMode s) (hb : 32 ≤ b.toNat ∧ b.toNat < 128)
    (h : doEscLSBQuest b { s with mContinueSequence := false } = .ok ⟨⟩ t) :
    after (process b) s = if t.mContinueSequence then t else { t with mEscapeState := .none } := by
  have hstate (u : TerminalEmulator) (hu : u.mEscapeState = .leftSquareBracketQuestionMark) :
      processInState b u = doEscLSBQuest b u := by
    simp only [processInState, bind, EStateM.bind, get_apply, hu]
  refine process_in_sequence hs.decoded hb ?_
  exact (hstate { s with mContinueSequence := false } hs.state).trans h

omit [Platform] in
theorem IsParameter.range (hb : IsParameter b) : 32 ≤ b.toNat ∧ b.toNat < 128 := by
  rcases hb with hdigit | rfl
  · obtain ⟨d, rfl⟩ := isDigit_iff.mp hdigit
    revert d
    decide
  · decide

/-- A parameter byte is read and does nothing else. -/
theorem process_parameter (hs : InPrivateMode s) (hb : IsParameter b) (hv : ¬ Acts (s.getArg0 0)) :
    after (process b) s = parsed b s := by
  have hflags := changeDecFlags_parameter (s := { s with mContinueSequence := false }) hb
    (getDecFlagsMask (s.getArg0 0))
  have hparsed : parsed b { s with mContinueSequence := false } = parsed b s := by
    unfold parsed
    cases isDigit b <;> rfl
  rw [process_private hs hb.range (doEscLSBQuest_inert hflags hv), hparsed,
    if_pos (mContinueSequence_parsed b s)]

/-! ## §3  Modes 3 and 6 -/

/-- A clear screen without margins: clearing it again leaves it as it is. -/
structure Clear (s : TerminalEmulator) : Prop where
  rows : 0 < s.mRows
  columns : 0 < s.mColumns
  margins : s.mTopMargin = 0 ∧ 0 < s.mBottomMargin
  screen : TranscriptScreen.blockSet 0 0 s.mColumns s.mRows 32 s.getStyle s.mScreen =
    .ok ⟨⟩ s.mScreen

/-- The cursor in the first place. -/
def homed (s : TerminalEmulator) : TerminalEmulator :=
  { s with mCursorRow := 0, mCursorCol := 0, mAboutToAutoWrap := false }

theorem Clear.clearAndHome (hs : Clear s) : clearAndHome s = .ok ⟨⟩ (homed s) := by
  have hrows := hs.rows
  have hcolumns := hs.columns
  have hclear : blockClear 0 0 s.mColumns s.mRows s = .ok ⟨⟩ s := by
    simp only [blockClear, onScreen, onField, bind, EStateM.bind, get_apply, hs.screen]
  have hrow : min 0 (s.mRows - 1) = 0 := by omega
  have hcol : min 0 (s.mColumns - 1) = 0 := by omega
  simp only [TerminalEmulator.clearAndHome, bind, EStateM.bind, get_apply, hclear]
  simp only [setCursorRowCol, modify_apply, hrow,
    hcol]
  rfl

omit [Platform] in
theorem setCursorPosition_home (hrows : 0 < s.mRows) (hcolumns : 0 < s.mColumns)
    (hmargins : s.mTopMargin = 0 ∧ 0 < s.mBottomMargin) :
    setCursorPosition 0 0 s = .ok ⟨⟩ (homed s) := by
  have haddressed : s.addressedRows.1 = 0 ∧ 0 < s.addressedRows.2 := by
    unfold addressedRows
    split_ifs
    · exact hmargins
    · exact ⟨rfl, hrows⟩
  have hzero : iadd 0 0 = 0 := by decide +kernel
  have hrow : min (max s.addressedRows.1 (min (iadd s.addressedRows.1 0) (s.addressedRows.2 - 1)))
      (s.mRows - 1) = 0 := by
    rw [haddressed.1, hzero]
    omega
  have hcol : min (max 0 (min 0 (s.mColumns - 1))) (s.mColumns - 1) = 0 := by omega
  rw [setCursorPosition_eq, hrow, hcol]
  rfl

theorem doEscLSBQuest_home (hflags : changeDecFlags b (getDecFlagsMask (s.getArg0 0)) s = .ok ⟨⟩ t)
    (ht : Clear t) (hv : Acts (s.getArg0 0)) : doEscLSBQuest b s = .ok ⟨⟩ (homed t) := by
  rcases hv with h | h
  · have h3 := (getDecFlagsMask_three (s.getArg0 0)).mpr h
    have h6 : ¬ getDecFlagsMask (s.getArg0 0) &&& kOriginModeMask ≠ 0 :=
      fun h' => absurd ((getDecFlagsMask_six _).mp h') (by omega)
    simp only [doEscLSBQuest, bind, EStateM.bind, get_apply, hflags, when, if_pos h3, if_neg h6,
      ht.clearAndHome, pure, EStateM.pure]
  · have h3 : ¬ getDecFlagsMask (s.getArg0 0) &&& k132ColumnModeMask ≠ 0 :=
      fun h' => absurd ((getDecFlagsMask_three _).mp h') (by omega)
    have h6 := (getDecFlagsMask_six (s.getArg0 0)).mpr h
    simp only [doEscLSBQuest, bind, EStateM.bind, get_apply, hflags, when, if_neg h3, if_pos h6,
      pure, EStateM.pure,
      setCursorPosition_home ht.rows ht.columns ht.margins]

/-! ## §4  Whole sequences -/

/-- `ESC [ ? Pn` and a final byte. -/
def privateBytes (digits : List Digit) (final : JByte) : List JByte :=
  [27, 91, 63] ++ (digits.map digitByte ++ [final])

/-- Behind `ESC [ ?`. -/
def questioned (s : TerminalEmulator) : TerminalEmulator :=
  { s with
    mEscapeState := .leftSquareBracketQuestionMark
    mArgIndex := 0
    mArgs := Vector.replicate maxEscapeParameters (-1)
    mContinueSequence := true }

/-- What a sequence may begin in. -/
structure TakesEscape (s : TerminalEmulator) : Prop where
  noString : s.mEscapeState ≠ .rightSquareBracket
  decoded : s.mUTF8Mode = true → s.mUTF8ToFollow = 0

theorem append_question (hs : TakesEscape s) : append [27, 91, 63] s = questioned s := by
  have happend : append [27, 91, 63] s = after (process 63) (append [27, 91] s) := rfl
  rw [happend, append_bracket hs.noString hs.decoded,
    process_in_sequence (s := collecting s 0 (Vector.replicate maxEscapeParameters (-1))) hs.decoded
      (by decide) rfl]
  rfl

theorem append_privateBytes (hs : TakesEscape s) (digits : List Digit) (final : JByte) :
    append (privateBytes digits final) s =
      after (process final) (append (digits.map digitByte) (questioned s)) := by
  rw [← append_question hs]
  unfold append privateBytes
  rw [List.foldl_append, List.foldl_append]
  rfl

omit [Platform] in
theorem acts_getArg0 (s : TerminalEmulator) :
    Acts (s.getArg0 0) ↔ Acts (s.mArgs[0]) := by
  show Acts (if s.mArgs[0] ≤ 0 then 0 else s.mArgs[0]) ↔ _
  unfold Acts
  split_ifs <;> omega

/-- The emulator while the digits of the first parameter are read. -/
structure Reading (digits : List Digit) (s : TerminalEmulator) : Prop extends
    InPrivateMode s where
  index : s.mArgIndex = 0
  value : s.mArgs[0] = intOfDigits digits

omit [Platform] in
theorem Reading.acts {digits : List Digit} (hs : Reading digits s) :
    Acts (s.getArg0 0) ↔ Acts (intOfDigits digits) := by
  rw [acts_getArg0, hs.value]

omit [Platform] in
theorem Reading.getArg0 {digits : List Digit} (hs : Reading digits s)
    (hpos : 0 < intOfDigits digits) : s.getArg0 0 = intOfDigits digits := by
  have hvalue : s.getArg0 0 =
      if s.mArgs[0] ≤ 0 then (0 : Int) else s.mArgs[0] := rfl
  rw [hvalue, hs.value, if_neg (by omega)]

omit [Platform] in
theorem reading_questioned (hs : TakesEscape s) : Reading [] (questioned s) :=
  ⟨⟨rfl, hs.decoded⟩, rfl, Vector.getElem_replicate _⟩

omit [Platform] in
theorem Reading.parsed {digits : List Digit} (hs : Reading digits s) (d : Digit) :
    Reading (digits ++ [d]) (parsed (digitByte d) s) := by
  have hdigit : isDigit (digitByte d) = true := isDigit_iff.mpr ⟨d, rfl⟩
  unfold TerminalEmulator.parsed
  rw [if_pos hdigit]
  refine ⟨⟨hs.state, hs.decoded⟩, hs.index, ?_⟩
  have hlt : s.mArgIndex < maxEscapeParameters := by
    rw [hs.index]
    decide
  have hvalue : s.mArgs[s.mArgIndex] = intOfDigits digits := by
    rw [← hs.value]
    congr 1
    exact hs.index
  show (if h : s.mArgIndex < maxEscapeParameters then
    s.mArgs.set s.mArgIndex (appendDigit s.mArgs[s.mArgIndex] (digitByte d)) else s.mArgs)[0] = _
  rw [dif_pos hlt, Vector.getElem_set, if_pos hs.index, hvalue, appendDigit_digitByte,
    intOfDigits_append]

theorem append_digit (digits : List Digit) (d : Digit) (s : TerminalEmulator) :
    append ((digits ++ [d]).map digitByte) s =
      after (process (digitByte d)) (append (digits.map digitByte) s) := by
  unfold append
  rw [List.map_append, List.foldl_append]
  rfl

omit [Platform] in
/-- The prefixes of `digits ++ [d]` but the whole are those of `digits`. -/
theorem forall_prefix_append {digits : List Digit} {d : Digit} {P : List Digit → Prop}
    (h : ∀ p, p <+: digits ++ [d] → p ≠ digits ++ [d] → P p) :
    (∀ p, p <+: digits → p ≠ digits → P p) ∧ P digits := by
  constructor
  · intro p hp _
    refine h p (hp.trans (List.prefix_append _ _)) fun heq => ?_
    have hlength := hp.length_le
    rw [heq, List.length_append, List.length_singleton] at hlength
    omega
  · refine h digits (List.prefix_append _ _) fun heq => ?_
    have hlength := congrArg List.length heq
    rw [List.length_append, List.length_singleton] at hlength
    omega

/-- Digits none of whose beginnings is a 3 or a 6. -/
theorem append_digits_inert (hs : TakesEscape s) {digits : List Digit}
    (hinert : ∀ p, p <+: digits → p ≠ digits → ¬ Acts (intOfDigits p)) :
    Reading digits (append (digits.map digitByte) (questioned s)) ∧
      Unchanged s (append (digits.map digitByte) (questioned s)) := by
  induction digits using List.reverseRecOn with
  | nil => exact ⟨reading_questioned hs, rfl, ⟨rfl, rfl⟩, ⟨rfl, rfl⟩, rfl, rfl⟩
  | append_singleton digits d ih =>
      obtain ⟨hprefixes, hwhole⟩ := forall_prefix_append hinert
      obtain ⟨hreading, hsame⟩ := ih hprefixes
      have hd : IsParameter (digitByte d) := .inl (isDigit_iff.mpr ⟨d, rfl⟩)
      rw [append_digit,
        process_parameter hreading.toInPrivateMode hd fun h => hwhole (hreading.acts.mp h)]
      exact ⟨hreading.parsed d, hsame.trans (unchanged_parsed _ _)⟩

/-- DECSET and DECRST. -/
def IsFinal (final : JByte) : Prop := final = 104 ∨ final = 108

omit [Platform] in
theorem changeDecFlags_final {final : JByte} (hfinal : IsFinal final) (mask : BitVec 32) :
    ∃ flags : BitVec 32 → BitVec 32, ∀ s : TerminalEmulator,
      changeDecFlags final mask s = .ok ⟨⟩ { s with mDecFlags := flags s.mDecFlags } := by
  rcases hfinal with rfl | rfl
  · exact ⟨fun flags => flags ||| mask, fun s => rfl⟩
  · exact ⟨fun flags => flags &&& ~~~mask, fun s => rfl⟩

omit [Platform] in
theorem IsFinal.range {final : JByte} (hfinal : IsFinal final) :
    32 ≤ final.toNat ∧ final.toNat < 128 := by
  rcases hfinal with rfl | rfl <;> decide

theorem append_private_inert (hs : TakesEscape s) {digits : List Digit} {final : JByte}
    (hfinal : IsFinal final) (hinert : ∀ p, p <+: digits → ¬ Acts (intOfDigits p)) :
    let t := append (privateBytes digits final) s
    t.mScreen = s.mScreen ∧ t.mCursorRow = s.mCursorRow ∧ t.mCursorCol = s.mCursorCol := by
  intro t
  obtain ⟨hreading, hsame⟩ := append_digits_inert hs fun p hp _ => hinert p hp
  have ht : t = after (process final) (append (digits.map digitByte) (questioned s)) :=
    append_privateBytes hs digits final
  generalize append (digits.map digitByte) (questioned s) = u at hreading hsame ht
  obtain ⟨flags, hflags⟩ := changeDecFlags_final hfinal
    (getDecFlagsMask (getArg0 { u with mContinueSequence := false } 0))
  have hquiet : ¬ Acts (getArg0 { u with mContinueSequence := false } 0) := fun h =>
    hinert digits (List.prefix_refl _) (hreading.acts.mp h)
  rw [ht, process_private hreading.toInPrivateMode hfinal.range
    (doEscLSBQuest_inert (hflags _) hquiet)]
  exact ⟨hsame.screen, hsame.cursor⟩

/-! ## §5  A sequence that acts -/

theorem Clear.parsed (hs : Clear s) (b : JByte) : Clear (parsed b s) := by
  unfold TerminalEmulator.parsed
  cases isDigit b <;> exact ⟨hs.rows, hs.columns, hs.margins, hs.screen⟩

/-- Behind a 3 or a 6, a digit takes the cursor home. -/
theorem process_parameter_home (hs : InPrivateMode s) (hclear : Clear s) (hb : IsParameter b)
    (hv : Acts (s.getArg0 0)) : after (process b) s = homed (parsed b s) := by
  have hflags := changeDecFlags_parameter (s := { s with mContinueSequence := false }) hb
    (getDecFlagsMask (s.getArg0 0))
  have hparsed : parsed b { s with mContinueSequence := false } = parsed b s := by
    unfold TerminalEmulator.parsed
    cases isDigit b <;> rfl
  rw [hparsed] at hflags
  rw [process_private hs hb.range (doEscLSBQuest_home hflags (hclear.parsed b) hv)]
  exact if_pos (mContinueSequence_parsed b s)

theorem append_digits_home (hs : TakesEscape s) (hclear : Clear s) (digits : List Digit) :
    Reading digits (append (digits.map digitByte) (questioned s)) ∧
      Clear (append (digits.map digitByte) (questioned s)) ∧
      ((∃ p, (p <+: digits ∧ p ≠ digits) ∧ Acts (intOfDigits p)) →
        (append (digits.map digitByte) (questioned s)).mCursorCol = 0) := by
  induction digits using List.reverseRecOn with
  | nil =>
      refine ⟨reading_questioned hs, ⟨hclear.rows, hclear.columns, hclear.margins, hclear.screen⟩,
        ?_⟩
      rintro ⟨p, ⟨hp, hne⟩, _⟩
      exact absurd (List.prefix_nil.mp hp) hne
  | append_singleton digits d ih =>
      obtain ⟨hreading, hclear', hhome⟩ := ih
      have hd : IsParameter (digitByte d) := .inl (isDigit_iff.mpr ⟨d, rfl⟩)
      rw [append_digit]
      by_cases hacts : Acts (intOfDigits digits)
      · rw [process_parameter_home hreading.toInPrivateMode hclear' hd (hreading.acts.mpr hacts)]
        have hparsed := hreading.parsed d
        have hstill := hclear'.parsed (digitByte d)
        exact ⟨⟨⟨hparsed.state, hparsed.decoded⟩, hparsed.index, hparsed.value⟩,
          ⟨hstill.rows, hstill.columns, hstill.margins, hstill.screen⟩, fun _ => rfl⟩
      · rw [process_parameter hreading.toInPrivateMode hd fun h => hacts (hreading.acts.mp h)]
        refine ⟨hreading.parsed d, hclear'.parsed _, ?_⟩
        rintro ⟨p, ⟨hp, hne⟩, hp'⟩
        rw [(unchanged_parsed _ _).cursor.2]
        refine hhome ⟨p, ?_, hp'⟩
        rcases List.prefix_concat_iff.mp hp with heq | hp
        · exact absurd heq hne
        · exact ⟨hp, fun heq => hacts (heq ▸ hp')⟩

theorem append_private_home (hs : TakesEscape s) (hclear : Clear s) {digits : List Digit}
    {final : JByte} (hfinal : IsFinal final)
    (hacts : ∃ p, p <+: digits ∧ Acts (intOfDigits p)) :
    (append (privateBytes digits final) s).mCursorCol = 0 := by
  obtain ⟨hreading, hclear', hhome⟩ := append_digits_home hs hclear digits
  rw [append_privateBytes hs]
  generalize append (digits.map digitByte) (questioned s) = u at hreading hclear' hhome
  obtain ⟨flags, hflags⟩ := changeDecFlags_final hfinal
    (getDecFlagsMask (getArg0 { u with mContinueSequence := false } 0))
  by_cases hwhole : Acts (intOfDigits digits)
  · rw [process_private hreading.toInPrivateMode hfinal.range (doEscLSBQuest_home (hflags _)
      ⟨hclear'.rows, hclear'.columns, hclear'.margins, hclear'.screen⟩ (hreading.acts.mpr hwhole))]
    rfl
  · rw [process_private hreading.toInPrivateMode hfinal.range (doEscLSBQuest_inert (hflags _)
      fun h => hwhole (hreading.acts.mp h))]
    obtain ⟨p, hp, hp'⟩ := hacts
    exact hhome ⟨p, ⟨hp, fun heq => hwhole (heq ▸ hp')⟩, hp'⟩

/-! ## §6  Reachable states -/

/-- What calls of the session lead to. -/
def Reachable (s : TerminalEmulator) : Prop :=
  ∃ columns totalRows rows, 0 < columns ∧
    ∃ s₀ calls, create columns totalRows rows = .ok s₀ ∧ run calls s₀ = s

theorem Reachable.append (h : Reachable s) (bytes : List JByte) :
    Reachable (append bytes s) := by
  obtain ⟨columns, totalRows, rows, hpos, s₀, calls, hcreate, rfl⟩ := h
  refine ⟨columns, totalRows, rows, hpos, s₀, calls ++ bytes.map .byte, hcreate, ?_⟩
  unfold run TerminalEmulator.append
  rw [List.foldl_append, List.foldl_map]
  rfl

instance (s : TerminalEmulator) : Decidable (Clear s) :=
  decidable_of_iff ((0 < s.mRows ∧ 0 < s.mColumns ∧ s.mTopMargin = 0 ∧ 0 < s.mBottomMargin) ∧
    ((TranscriptScreen.blockSet 0 0 s.mColumns s.mRows 32 s.getStyle).run' s.mScreen).isSome ∧
    after (TranscriptScreen.blockSet 0 0 s.mColumns s.mRows 32 s.getStyle) s.mScreen = s.mScreen)
    ⟨fun ⟨⟨h1, h2, h3⟩, h4⟩ => ⟨h1, h2, h3, run_ok_iff.mpr h4⟩,
      fun ⟨h1, h2, h3, h4⟩ => ⟨⟨h1, h2, h3⟩, run_ok_iff.mp h4⟩⟩

omit [Platform] in
/-- `ESC [ C` in a new emulator. -/
theorem exists_clear : let _ := samplePlatform
    ∃ s, Reachable s ∧ TakesEscape s ∧ Clear s ∧ s.mCursorCol = 1 := by
  let _ := samplePlatform
  have hcreated : (create 2 3 2).map (fun s =>
      let t := append [27, 91, 67] s
      decide ((t.mEscapeState ≠ .rightSquareBracket ∧ t.mUTF8Mode = false) ∧ Clear t ∧
        t.mCursorCol = 1)) = .ok true := by
    decide +kernel
  cases hcreate : create 2 3 2 with
  | error e =>
      rw [hcreate] at hcreated
      cases hcreated
  | ok s =>
      rw [hcreate] at hcreated
      obtain ⟨⟨hstring, hmode⟩, hclear, hcol⟩ := of_decide_eq_true (Except.ok.inj hcreated)
      refine ⟨append [27, 91, 67] s, Reachable.append ?_ _, ⟨hstring, fun h => ?_⟩, hclear, hcol⟩
      · exact ⟨2, 3, 2, by decide, s, [], hcreate, rfl⟩
      · rw [hmode] at h
        cases h

omit [Platform] in
theorem acts_iff_first_digits (v : Int) :
    Acts v ↔ ∃ d : Digit, v = intOfDigits [d] ∧ Acts (intOfDigits [d]) := by
  constructor
  · rintro (rfl | rfl)
    · exact ⟨3, by decide +kernel⟩
    · exact ⟨6, by decide +kernel⟩
  · rintro ⟨d, rfl, h⟩
    exact h

omit [Platform] in
/-- A parameter byte changes nothing, on any platform, if and only if the parameter is neither 3
nor 6 so far. -/
theorem parameter_inert_iff (v : Int) :
    (∀ (_ : Platform) (s : TerminalEmulator), Reachable s → InPrivateMode s → s.getArg0 0 = v →
      ∀ b, IsParameter b → Unchanged s (after (process b) s)) ↔ ¬ Acts v := by
  constructor
  · intro hall hacts
    obtain ⟨d, rfl, hd⟩ := (acts_iff_first_digits v).mp hacts
    obtain ⟨s, hreachable, hs, hclear, hcol⟩ := exists_clear
    let _ := samplePlatform
    have hbytes : append ([d].map digitByte) (questioned s) =
        append ([27, 91, 63] ++ [d].map digitByte) s := by
      rw [← append_question hs]
      unfold append
      rw [List.foldl_append]
    have hprefix : ∀ p, p <+: [d] → p ≠ [d] → ¬ Acts (intOfDigits p) := by
      intro p hp hne
      rcases List.prefix_concat_iff.mp (show p <+: [] ++ [d] from hp) with heq | hp
      · exact absurd heq hne
      · rw [List.prefix_nil.mp hp]
        decide +kernel
    obtain ⟨hreading, hsame⟩ := append_digits_inert hs hprefix
    have hstill := (append_digits_home hs hclear [d]).2.1
    have hparameter : IsParameter (49 : JByte) := .inl (by decide)
    have hvalue := hreading.getArg0 (by rcases hd with h | h <;> omega)
    have hunchanged := hall samplePlatform _ (hbytes ▸ hreachable.append _)
      hreading.toInPrivateMode hvalue 49 hparameter
    rw [process_parameter_home hreading.toInPrivateMode hstill hparameter (by rw [hvalue]; exact hd)]
      at hunchanged
    have hmoved : (0 : Int) = 1 :=
      hunchanged.cursor.2.trans (hsame.cursor.2.trans hcol)
    exact absurd hmoved (by decide)
  · intro hv _ s _ hs hvalue b hb
    rw [process_parameter hs hb (by rw [hvalue]; exact hv)]
    exact unchanged_parsed b s

omit [Platform] in
/-- `ESC [ ? Pn h` and `ESC [ ? Pn l` leave screen and cursor alone if and only if no beginning of
the digits is read as a 3 or a 6. -/
theorem sequence_inert_iff (digits : List Digit) {final : JByte} (hfinal : IsFinal final) :
    (∀ (_ : Platform) (s : TerminalEmulator), Reachable s → TakesEscape s →
      let t := append (privateBytes digits final) s
      t.mScreen = s.mScreen ∧ t.mCursorRow = s.mCursorRow ∧ t.mCursorCol = s.mCursorCol) ↔
      ∀ p, p <+: digits → ¬ Acts (intOfDigits p) := by
  constructor
  · intro hall p hp hacts
    obtain ⟨s, hreachable, hs, hclear, hcol⟩ := exists_clear
    let _ := samplePlatform
    have hhome := append_private_home hs hclear hfinal ⟨p, hp, hacts⟩
    have hmoved : (0 : Int) = 1 :=
      hhome.symm.trans ((hall samplePlatform s hreachable hs).2.2.trans hcol)
    exact absurd hmoved (by decide)
  · intro hinert _ s _ hs
    exact append_private_inert hs hfinal hinert

omit [Platform] in
/-- A digit that breaks off a UTF-8 sequence becomes the replacement character. -/
theorem pending_parameter : ∃ (_ : Platform) (s : TerminalEmulator), Reachable s ∧
    s.mEscapeState = .leftSquareBracketQuestionMark ∧ ¬ Acts (s.getArg0 0) ∧
      ∃ b, IsParameter b ∧ ¬ Unchanged s (after (process b) s) := by
  let _ := samplePlatform
  have hcreated : (create 2 3 2).map (fun s =>
      let t := run [.setDefaultUTF8Mode true, .byte 27, .byte 91, .byte 63, .byte 0xc3] s
      decide (t.mEscapeState = .leftSquareBracketQuestionMark ∧ ¬ Acts (t.getArg0 0) ∧
        (after (process 49) t).mCursorCol ≠ t.mCursorCol)) = .ok true := by
    decide +kernel
  cases hcreate : create 2 3 2 with
  | error e =>
      rw [hcreate] at hcreated
      cases hcreated
  | ok s =>
      rw [hcreate] at hcreated
      obtain ⟨hstate, hvalue, hmoved⟩ := of_decide_eq_true (Except.ok.inj hcreated)
      exact ⟨samplePlatform, _, ⟨2, 3, 2, by decide, s, _, hcreate, rfl⟩, hstate, hvalue, 49,
        .inl (by decide), fun h => hmoved h.cursor.2⟩

end Kbox.Emulatorview.TerminalEmulator
