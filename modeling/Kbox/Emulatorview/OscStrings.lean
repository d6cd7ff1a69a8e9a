import Kbox.Emulatorview.Utf8
import Kbox.Emulatorview.AutoWrap
import Kbox.Emulatorview.PrivateModes

/-!
# The strings behind `ESC ]`

The decoder runs in front of the escape states, so a character outside of ASCII never gets into
`mOSCArg`: it is drawn.  A byte that does not fit into the buffer ends the sequence, and the number
in front of the first semicolon is read past everything that is no digit.
-/

namespace Kbox.Emulatorview.TerminalEmulator

open Kbox.Framework

/-! ## §1  Sequences -/

/-- No C0 control, no DEL and no C1 control. -/
def Printable (c : Char) : Prop := 0x20 ≤ c.toNat ∧ ¬ (0x7f ≤ c.toNat ∧ c.toNat ≤ 0x9f)

/-- `BEL` or `ESC \` -/
inductive StringTerminator where
  | bel | st

def StringTerminator.bytes : StringTerminator → List JByte
  | .bel => [7]
  | .st => [27, 92]

def oscBytes (payload : List Char) (terminator : StringTerminator) : List JByte :=
  [27, 93] ++ (payload.flatMap utf8 ++ terminator.bytes)

/-- The `T` of `0;T` and `2;T`. -/
def titleOf : List Char → Option (List Char)
  | '0' :: ';' :: text => some text
  | '2' :: ';' :: text => some text
  | _ => none

/-- What the title is to be behind the sequence. -/
def TitleSet (payload : List Char) (s t : TerminalEmulator) : Prop :=
  match titleOf payload with
  | none => t.mSession.title = s.mSession.title
  | some text => ∃ title, t.mSession.title = some title ∧ (title = text.flatMap utf16 ∨
      maxOscStringLength < (payload.flatMap utf8).length ∧ title <+: text.flatMap utf16)

/-- No cell, no cursor position, no margin and no mode has changed. -/
structure Undisturbed (s t : TerminalEmulator) : Prop extends Unchanged s t where
  margins : t.mTopMargin = s.mTopMargin ∧ t.mBottomMargin = s.mBottomMargin
  aboutToAutoWrap : t.mAboutToAutoWrap = s.mAboutToAutoWrap
  keypad : t.mbKeypadApplicationMode = s.mbKeypadApplicationMode
  charSets : t.mCharSet = s.mCharSet ∧ t.mAlternateCharSet = s.mAlternateCharSet
  utf8Mode : t.mUTF8Mode = s.mUTF8Mode

variable [Platform] {s t : TerminalEmulator} {b : JByte} {arg : List JByte}

/-- No byte of the sequence disturbs the terminal, and the title is set from the whole of it. -/
structure OscOpaque (payload : List Char) (terminator : StringTerminator)
    (s : TerminalEmulator) : Prop where
  undisturbed : ∀ p, p <+: oscBytes payload terminator → Undisturbed s (append p s)
  ends : (append (oscBytes payload terminator) s).mEscapeState = .none
  title : TitleSet payload s (append (oscBytes payload terminator) s)

/-! ## §2  Collecting -/

/-- `collectOSCArgs` on what is collected. -/
def collect (arg : List JByte) (b : JByte) : List JByte :=
  if arg.length < maxOscStringLength then arg ++ [b] else arg

/-- The string that is open. -/
def openString (s : TerminalEmulator) : Option (List JByte) :=
  if s.mEscapeState = .rightSquareBracket then some s.mOSCArg else none

/-- What `ESC ]` adds to: the string that is open, or a new one. -/
def opened (s : TerminalEmulator) : TerminalEmulator :=
  if s.mEscapeState = .rightSquareBracket then s else
    { s with mArgIndex := 0, mArgs := Vector.replicate maxEscapeParameters (-1) }

/-- What is collected behind `ESC ]`: in an open string the two bytes are part of it. -/
def begun : Option (List JByte) → List JByte
  | none => []
  | some arg => collect (collect arg 27) 93

/-- In a string of which so much is collected. -/
def gathering (s : TerminalEmulator) (arg : List JByte) : TerminalEmulator :=
  { s with
    mEscapeState := .rightSquareBracket
    mOSCArg := arg
    mContinueSequence := true }

/-- Behind the byte that did not fit. -/
def overflown (s : TerminalEmulator) (arg : List JByte) : TerminalEmulator :=
  { gathering s arg with mEscapeState := .none, mContinueSequence := false }

/-- What `doOSC` does to the session. -/
def titled (arg : List JByte) (log : SessionLog) : SessionLog :=
  let (ps, rest) := nextOSCInt 59 arg (-1)
  if ps = 0 ∨ ps = 2 then { log with title := some (nextOSCString rest) } else log

/-- The byte of a printable ASCII character. -/
def IsText (b : JByte) : Prop := 0x20 ≤ b.toNat ∧ b.toNat < 0x7f

theorem doEscRightSquareBracket_text (hb : IsText b) :
    doEscRightSquareBracket b = collectOSCArgs b := by
  obtain ⟨hlo, hhi⟩ := hb
  unfold doEscRightSquareBracket
  split
  · omega
  · omega
  · rfl

theorem processInState_string {u : TerminalEmulator} (hu : u.mEscapeState = .rightSquareBracket)
    (hb : IsText b) : processInState b u = collectOSCArgs b u := by
  rw [← doEscRightSquareBracket_text hb]
  simp only [processInState, bind, EStateM.bind, get_apply, hu]

theorem process_text (hd : s.mUTF8Mode = true → s.mUTF8ToFollow = 0) (hb : IsText b)
    (hroom : arg.length < maxOscStringLength) :
    after (process b) (gathering s arg) = gathering s (arg ++ [b]) := by
  have hcollect : processInState b { gathering s arg with mContinueSequence := false } =
      .ok ⟨⟩ (gathering s (arg ++ [b])) := by
    rw [processInState_string rfl hb]
    simp only [collectOSCArgs, bind, EStateM.bind, get_apply]
    rw [if_pos (show (gathering s arg).mOSCArg.length < maxOscStringLength from hroom)]
    rfl
  have hrange : 32 ≤ b.toNat ∧ b.toNat < 128 := ⟨hb.1, Nat.lt_succ_of_lt hb.2⟩
  rw [process_in_sequence (s := gathering s arg) hd hrange hcollect]
  rfl

theorem process_text_full (hd : s.mUTF8Mode = true → s.mUTF8ToFollow = 0) (hb : IsText b)
    (hroom : arg.length = maxOscStringLength) :
    after (process b) (gathering s arg) = overflown s arg := by
  have hcollect : processInState b { gathering s arg with mContinueSequence := false } =
      .ok ⟨⟩ (overflown s arg) := by
    rw [processInState_string rfl hb]
    simp only [collectOSCArgs, bind, EStateM.bind, get_apply]
    rw [if_neg (show ¬ (gathering s arg).mOSCArg.length < maxOscStringLength from
      Nat.not_lt.mpr (Nat.le_of_eq hroom.symm))]
    rfl
  have hrange : 32 ≤ b.toNat ∧ b.toNat < 128 := ⟨hb.1, Nat.lt_succ_of_lt hb.2⟩
  rw [process_in_sequence (s := gathering s arg) hd hrange hcollect]
  rfl

theorem append_snoc (bytes : List JByte) (b : JByte) (s : TerminalEmulator) :
    append (bytes ++ [b]) s = after (process b) (append bytes s) := by
  unfold append
  rw [List.foldl_append, List.foldl_cons, List.foldl_nil]

theorem append_append (bytes bytes' : List JByte) (s : TerminalEmulator) :
    append (bytes ++ bytes') s = append bytes' (append bytes s) := by
  unfold append
  rw [List.foldl_append]

/-- The bytes of a string are collected as long as there is room. -/
theorem append_text (hd : s.mUTF8Mode = true → s.mUTF8ToFollow = 0) {text : List JByte}
    (htext : ∀ b ∈ text, IsText b) (hroom : arg.length + text.length ≤ maxOscStringLength) :
    append text (gathering s arg) = gathering s (arg ++ text) := by
  induction text using List.reverseRecOn with
  | nil =>
      rw [List.append_nil]
      rfl
  | append_singleton text b ih =>
      rw [List.length_append, List.length_singleton] at hroom
      rw [append_snoc, ih (fun b' hb' => htext b' (List.mem_append_left _ hb')) (by omega),
        ← List.append_assoc]
      refine process_text hd (htext b (List.mem_append_right _ List.mem_cons_self)) ?_
      rw [List.length_append]
      omega

/-- The first byte without room ends the sequence. -/
theorem append_text_full (hd : s.mUTF8Mode = true → s.mUTF8ToFollow = 0) {text : List JByte}
    (htext : ∀ b ∈ text, IsText b) (hb : IsText b)
    (hroom : arg.length + text.length = maxOscStringLength) :
    append (text ++ [b]) (gathering s arg) = overflown s (arg ++ text) := by
  rw [append_snoc, append_text hd htext (Nat.le_of_eq hroom)]
  exact process_text_full hd hb (by rw [List.length_append, hroom])

/-! ## §3  The end of a string -/

theorem doOSC_ok : doOSC s = .ok ⟨⟩
    { s with mEscapeState := .none, mSession := titled s.mOSCArg s.mSession } := by
  simp only [doOSC, bind, EStateM.bind, get_apply]
  unfold titled
  obtain ⟨ps, rest⟩ := nextOSCInt 59 s.mOSCArg (-1)
  by_cases htitle : ps = 0 ∨ ps = 2
  · have hchange : ps = 0 ∨ ps = 1 ∨ ps = 2 := by omega
    simp only [when, if_pos hchange, changeTitle, modify_apply, if_pos htitle, finishSequence]
  · by_cases hicon : ps = 0 ∨ ps = 1 ∨ ps = 2
    · simp only [when, if_pos hicon, changeTitle, modify_apply, if_neg htitle, finishSequence]
    · simp only [when, if_neg hicon, modify_apply, if_neg htitle, finishSequence, pure, EStateM.pure]

/-- Behind the terminator of a string. -/
def closed (s : TerminalEmulator) (arg : List JByte) (continues : Bool) : TerminalEmulator :=
  { gathering s arg with
    mEscapeState := .none
    mSession := titled arg s.mSession
    mContinueSequence := continues }

theorem process_bel (hd : s.mUTF8Mode = true → s.mUTF8ToFollow = 0) :
    after (process 7) (gathering s arg) = closed s arg true := by
  have hdispatch : dispatch 7 (gathering s arg) = doOSC (gathering s arg) := by
    show (get >>= fun u : TerminalEmulator =>
      if u.mEscapeState = .rightSquareBracket then doEscRightSquareBracket 7
      else pure ⟨⟩ : EmulatorM Unit) (gathering s arg) = _
    simp only [bind, EStateM.bind, get_apply]
    rw [if_pos (show (gathering s arg).mEscapeState = .rightSquareBracket from rfl)]
    rfl
  unfold after
  rw [process_dispatch (s := gathering s arg) hd (by decide), hdispatch, doOSC_ok]
  rfl

/-- Behind the ESC of the terminator. -/
def terminating (s : TerminalEmulator) (arg : List JByte) : TerminalEmulator :=
  { gathering s arg with mEscapeState := .rightSquareBracketEsc }

theorem process_esc_open (hd : s.mUTF8Mode = true → s.mUTF8ToFollow = 0)
    (hopen : s.mEscapeState = .rightSquareBracket) :
    after (process 27) s = terminating s s.mOSCArg := by
  have hdispatch : dispatch 27 s = .ok ⟨⟩ (terminating s s.mOSCArg) := by
    show (get >>= fun u : TerminalEmulator =>
      if u.mEscapeState ≠ .rightSquareBracket then startEscapeSequence .esc
      else doEscRightSquareBracket 27 : EmulatorM Unit) s = _
    simp only [bind, EStateM.bind, get_apply]
    rw [if_neg (not_not_intro hopen)]
    rfl
  unfold after
  rw [process_dispatch hd (by decide), hdispatch]

theorem process_esc (hd : s.mUTF8Mode = true → s.mUTF8ToFollow = 0) :
    after (process 27) (gathering s arg) = terminating s arg :=
  process_esc_open (s := gathering s arg) hd rfl

/-- An `ESC` and a character behind it are part of the string. -/
theorem process_escaped (hd : s.mUTF8Mode = true → s.mUTF8ToFollow = 0) (hb : IsText b)
    (hbackslash : b ≠ 92) :
    after (process b) (terminating s arg) = gathering s (collect (collect arg 27) b) := by
  have hcollect (b : JByte) (u : TerminalEmulator) : ∃ state continues, collectOSCArgs b u =
      .ok ⟨⟩ { u with
        mEscapeState := state
        mOSCArg := collect u.mOSCArg b
        mContinueSequence := continues } := by
    unfold collect
    simp only [collectOSCArgs, bind, EStateM.bind, get_apply]
    by_cases hroom : u.mOSCArg.length < maxOscStringLength
    · rw [if_pos hroom, if_pos hroom]
      exact ⟨_, _, rfl⟩
    · rw [if_neg hroom, if_neg hroom]
      exact ⟨_, _, rfl⟩
  have hstate : processInState b { terminating s arg with mContinueSequence := false } =
      .ok ⟨⟩ (gathering s (collect (collect arg 27) b)) := by
    show doEscRightSquareBracketEsc b { terminating s arg with mContinueSequence := false } = _
    unfold doEscRightSquareBracketEsc
    rw [if_neg hbackslash]
    obtain ⟨_, _, hfirst⟩ := hcollect 27 { terminating s arg with mContinueSequence := false }
    simp only [bind, EStateM.bind, hfirst]
    obtain ⟨_, _, hsecond⟩ := hcollect b _
    rw [hsecond]
    rfl
  rw [process_in_sequence (s := terminating s arg) hd ⟨hb.1, Nat.lt_succ_of_lt hb.2⟩ hstate]
  rfl

theorem process_backslash (hd : s.mUTF8Mode = true → s.mUTF8ToFollow = 0) :
    after (process 92) (terminating s arg) = closed s arg false := by
  have hstate : processInState 92 { terminating s arg with mContinueSequence := false } =
      .ok ⟨⟩ (closed s arg false) := by
    show doEscRightSquareBracketEsc 92 { terminating s arg with mContinueSequence := false } = _
    unfold doEscRightSquareBracketEsc
    rw [if_pos rfl, doOSC_ok]
    rfl
  rw [process_in_sequence (s := terminating s arg) hd (by decide) hstate]
  rfl

theorem append_terminator (hd : s.mUTF8Mode = true → s.mUTF8ToFollow = 0) (arg : List JByte)
    (terminator : StringTerminator) :
    ∃ continues, append terminator.bytes (gathering s arg) = closed s arg continues := by
  cases terminator with
  | bel => exact ⟨true, process_bel hd⟩
  | st =>
      refine ⟨false, ?_⟩
      show after (process 92) (after (process 27) (gathering s arg)) = _
      rw [process_esc hd, process_backslash hd]

omit [Platform] in
/-- What the parser keeps for itself is neither cell nor cursor nor mode. -/
theorem undisturbed_machine (s : TerminalEmulator) (state : EscapeState) (argIndex : Nat)
    (args : Vector Int maxEscapeParameters) (arg : List JByte) (continues : Bool)
    (session : SessionLog) :
    Undisturbed s { s with
      mEscapeState := state
      mArgIndex := argIndex
      mArgs := args
      mOSCArg := arg
      mContinueSequence := continues
      mSession := session } :=
  ⟨⟨rfl, ⟨rfl, rfl⟩, ⟨rfl, rfl⟩, rfl, rfl⟩, ⟨rfl, rfl⟩, rfl, rfl, ⟨rfl, rfl⟩, rfl⟩

omit [Platform] in
theorem Undisturbed.trans {u : TerminalEmulator} (h : Undisturbed s t) (h' : Undisturbed t u) :
    Undisturbed s u where
  toUnchanged := h.toUnchanged.trans h'.toUnchanged
  margins := ⟨h'.margins.1.trans h.margins.1, h'.margins.2.trans h.margins.2⟩
  aboutToAutoWrap := h'.aboutToAutoWrap.trans h.aboutToAutoWrap
  keypad := h'.keypad.trans h.keypad
  charSets := ⟨h'.charSets.1.trans h.charSets.1, h'.charSets.2.trans h.charSets.2⟩
  utf8Mode := h'.utf8Mode.trans h.utf8Mode

omit [Platform] in
theorem undisturbed_opened (s : TerminalEmulator) : Undisturbed s (opened s) := by
  unfold opened
  split
  · exact undisturbed_machine s _ _ _ _ _ _
  · exact undisturbed_machine s _ _ _ _ _ _

omit [Platform] in
theorem opened_session (s : TerminalEmulator) : (opened s).mSession = s.mSession := by
  unfold opened
  split <;> rfl

omit [Platform] in
theorem opened_decoded (hd : s.mUTF8Mode = true → s.mUTF8ToFollow = 0) :
    (opened s).mUTF8Mode = true → (opened s).mUTF8ToFollow = 0 := by
  unfold opened
  split <;> exact hd

/-- The two bytes in front of a payload. -/
theorem append_osc (hd : s.mUTF8Mode = true → s.mUTF8ToFollow = 0) :
    Undisturbed s (append [27] s) ∧
      append [27, 93] s = gathering (opened s) (begun (openString s)) := by
  unfold opened openString
  by_cases hopen : s.mEscapeState = .rightSquareBracket
  · have hesc : append [27] s = terminating s s.mOSCArg := process_esc_open hd hopen
    rw [if_pos hopen, if_pos hopen]
    refine ⟨hesc ▸ undisturbed_machine s _ _ _ _ _ _, ?_⟩
    show after (process 93) (append [27] s) = _
    rw [hesc]
    exact process_escaped hd ⟨by decide, by decide⟩ (by decide)
  · have hesc := append_escape hopen hd
    rw [if_neg hopen, if_neg hopen]
    refine ⟨hesc ▸ undisturbed_machine s _ _ _ _ _ _, ?_⟩
    show after (process 93) (append [27] s) = _
    rw [hesc, process_in_sequence (s := { s with
      mEscapeState := .esc
      mArgIndex := 0
      mArgs := Vector.replicate maxEscapeParameters (-1) }) hd (by decide) rfl]
    rfl

omit [Platform] in
theorem prefix_pair {a b : JByte} {p : List JByte} (h : p <+: [a, b]) :
    p = [] ∨ p = [a] ∨ p = [a, b] := by
  rcases List.prefix_cons_iff.mp h with rfl | ⟨p', rfl, h'⟩
  · exact .inl rfl
  · rcases List.prefix_cons_iff.mp h' with rfl | ⟨p'', rfl, h''⟩
    · exact .inr (.inl rfl)
    · rw [List.prefix_nil.mp h'']
      exact .inr (.inr rfl)

/-- A terminator disturbs nothing, at no byte of it. -/
theorem undisturbed_terminator (hd : s.mUTF8Mode = true → s.mUTF8ToFollow = 0)
    {terminator : StringTerminator} {q : List JByte} (hq : q <+: terminator.bytes) :
    Undisturbed s (append q (gathering s arg)) := by
  obtain ⟨continues, hclosed⟩ := append_terminator hd arg terminator
  have hend : Undisturbed s (append terminator.bytes (gathering s arg)) := by
    rw [hclosed]
    exact undisturbed_machine s _ _ _ _ _ _
  cases terminator with
  | bel =>
      rcases List.prefix_concat_iff.mp (show q <+: [] ++ [7] from hq) with rfl | hq
      · exact hend
      · rw [List.prefix_nil.mp hq]
        exact undisturbed_machine s _ _ _ _ _ _
  | st =>
      rcases prefix_pair hq with rfl | rfl | rfl
      · exact undisturbed_machine s _ _ _ _ _ _
      · show Undisturbed s (after (process 27) (gathering s arg))
        rw [process_esc hd]
        exact undisturbed_machine s _ _ _ _ _ _
      · exact hend

/-- Behind a string that did not fit, a terminator is a byte of its own. -/
theorem terminator_overflown (hd : s.mUTF8Mode = true → s.mUTF8ToFollow = 0) (arg : List JByte)
    (terminator : StringTerminator) :
    (∀ q, q <+: terminator.bytes → Undisturbed s (append q (overflown s arg))) ∧
      (append terminator.bytes (overflown s arg)).mEscapeState = .none ∧
      (append terminator.bytes (overflown s arg)).mSession = s.mSession := by
  cases terminator with
  | bel =>
      have hbel : append [7] (overflown s arg) = overflown s arg := by
        have hdispatch : dispatch 7 (overflown s arg) = .ok ⟨⟩ (overflown s arg) := rfl
        show after (process 7) (overflown s arg) = _
        unfold after
        rw [process_dispatch (s := overflown s arg) hd (by decide), hdispatch]
      refine ⟨fun q hq => ?_, ?_⟩
      · rcases List.prefix_concat_iff.mp (show q <+: [] ++ [7] from hq) with rfl | hq
        · show Undisturbed s (append [7] (overflown s arg))
          rw [hbel]
          exact undisturbed_machine s _ _ _ _ _ _
        · rw [List.prefix_nil.mp hq]
          exact undisturbed_machine s _ _ _ _ _ _
      · show (append [7] (overflown s arg)).mEscapeState = .none ∧
          (append [7] (overflown s arg)).mSession = s.mSession
        rw [hbel]
        exact ⟨rfl, rfl⟩
  | st =>
      have hesc := append_escape (s := overflown s arg) nofun hd
      have hend : append [27, 92] (overflown s arg) = overflown
          { s with mArgIndex := 0, mArgs := Vector.replicate maxEscapeParameters (-1) } arg := by
        show after (process 92) (append [27] (overflown s arg)) = _
        rw [hesc, process_in_sequence (s := { overflown s arg with
          mEscapeState := .esc
          mArgIndex := 0
          mArgs := Vector.replicate maxEscapeParameters (-1) }) hd (by decide) rfl]
        rfl
      refine ⟨fun q hq => ?_, ?_⟩
      · rcases prefix_pair hq with rfl | rfl | rfl
        · exact undisturbed_machine s _ _ _ _ _ _
        · rw [hesc]
          exact undisturbed_machine s _ _ _ _ _ _
        · rw [hend]
          exact undisturbed_machine s _ _ _ _ _ _
      · show (append [27, 92] (overflown s arg)).mEscapeState = .none ∧
          (append [27, 92] (overflown s arg)).mSession = s.mSession
        rw [hend]
        exact ⟨rfl, rfl⟩

/-! ## §4  Payloads that fit -/

/-- The string is read to begin with the number of a title. -/
def ReadAsTitle (arg : List JByte) : Prop :=
  (nextOSCInt 59 arg (-1)).1 = 0 ∨ (nextOSCInt 59 arg (-1)).1 = 2

/-- The number of `front` and the payload is that of the payload, and ends with its semicolon. -/
def NumbersAgree (front : List JByte) (payload : List Char) : Prop :=
  match titleOf payload with
  | none => ¬ ReadAsTitle (front ++ payload.flatMap utf8)
  | some _ => ReadAsTitle (front ++ payload.flatMap utf8) ∧ 59 ∉ front

/-- Only ASCII, and either short enough for the buffer, whatever stands there already, with 0 or 2
read as its number when it is a title only, or one byte too long and no title. -/
structure FitsOsc (front : List JByte) (payload : List Char) : Prop where
  ascii : ∀ c ∈ payload, c.toNat < 0x80
  room : (front.length + payload.length ≤ maxOscStringLength ∧ NumbersAgree front payload) ∨
    payload ≠ [] ∧ front.length + payload.length = maxOscStringLength + 1 ∧ titleOf payload = none

omit [Platform] in
theorem flatMap_utf8_ascii {text : List Char} (h : ∀ c ∈ text, c.toNat < 0x80) :
    text.flatMap utf8 = text.map fun c => BitVec.ofNat 8 c.toNat := by
  induction text with
  | nil => rfl
  | cons c text ih =>
      obtain ⟨hc, htext⟩ := List.forall_mem_cons.mp h
      rw [List.flatMap_cons, utf8_ascii hc, ih htext]
      rfl

omit [Platform] in
theorem isText_ascii {text : List Char} (hprintable : ∀ c ∈ text, Printable c)
    (h : ∀ c ∈ text, c.toNat < 0x80) : ∀ b ∈ text.flatMap utf8, IsText b := by
  rw [flatMap_utf8_ascii h]
  intro b hb
  obtain ⟨c, hc, rfl⟩ := List.mem_map.mp hb
  obtain ⟨hlo, hhi⟩ := hprintable c hc
  have hascii := h c hc
  unfold IsText
  rw [BitVec.toNat_ofNat]
  omega

omit [Platform] in
theorem length_flatMap_ascii {text : List Char} (h : ∀ c ∈ text, c.toNat < 0x80) :
    (text.flatMap utf8).length = text.length := by
  rw [flatMap_utf8_ascii h, List.length_map]

theorem nextOSCString_ascii (hreads : ReadsUtf8) {text : List Char}
    (h : ∀ b ∈ text.flatMap utf8, b.toNat < 0x80) :
    nextOSCString (text.flatMap utf8) = text.flatMap utf16 := by
  have htake : (text.flatMap utf8).takeWhile (· ≠ 0xff) = text.flatMap utf8 := by
    refine List.takeWhile_eq_self_iff.mpr fun b hb => decide_eq_true ?_
    rintro rfl
    exact absurd (h _ hb) (by decide)
  unfold nextOSCString
  rw [htake]
  split
  · rename_i hnil
    cases text with
    | nil => rfl
    | cons c text =>
        have hpos := length_utf8_pos c
        rw [List.flatMap_cons] at hnil
        rw [(List.append_eq_nil_iff.mp hnil).1] at hpos
        exact absurd hpos (by decide)
  · exact hreads.newString text

omit [Platform] in
/-- The bytes of a title: its number, the semicolon and the text. -/
theorem titleOf_eq_some {payload text : List Char} (h : titleOf payload = some text) :
    ∃ b : JByte, b ≠ 59 ∧ payload.flatMap utf8 = b :: 59 :: text.flatMap utf8 := by
  unfold titleOf at h
  split at h
  · cases h
    exact ⟨48, by decide, rfl⟩
  · cases h
    exact ⟨50, by decide, rfl⟩
  · cases h

omit [Platform] in
theorem nextOSCInt_cons (delimiter b : JByte) (rest : List JByte) (value : Int) :
    nextOSCInt delimiter (b :: rest) value =
      if b = delimiter then (value, rest)
      else if isDigit b then
        nextOSCInt delimiter rest
          (isub (iadd (imul (if value < 0 then 0 else value) 10) b.toNat) 48)
      else nextOSCInt delimiter rest value := rfl

omit [Platform] in
/-- What is left behind the first delimiter. -/
theorem nextOSCInt_rest {delimiter : JByte} {front : List JByte} (h : delimiter ∉ front)
    (rest : List JByte) (value : Int) :
    (nextOSCInt delimiter (front ++ delimiter :: rest) value).2 = rest := by
  induction front generalizing value with
  | nil => rw [List.nil_append, nextOSCInt_cons, if_pos rfl]
  | cons b front ih =>
      rw [List.mem_cons, not_or] at h
      rw [List.cons_append, nextOSCInt_cons, if_neg (Ne.symm h.1)]
      split
      · exact ih h.2 _
      · exact ih h.2 _

theorem titled_read {arg : List JByte} (h : ReadAsTitle arg) (log : SessionLog) :
    (titled arg log).title = some (nextOSCString (nextOSCInt 59 arg (-1)).2) := by
  unfold ReadAsTitle at h
  unfold titled
  rcases hnext : nextOSCInt 59 arg (-1) with ⟨ps, rest⟩
  rw [hnext] at h
  exact congrArg SessionLog.title (if_pos h)

/-- `0;T` and `2;T` set the title to `T`. -/
theorem titled_some (hreads : ReadsUtf8) {front : List JByte} {payload text : List Char}
    (hbytes : ∀ b ∈ payload.flatMap utf8, IsText b) (h : titleOf payload = some text)
    (hfront : 59 ∉ front) (hnumber : ReadAsTitle (front ++ payload.flatMap utf8))
    (log : SessionLog) :
    (titled (front ++ payload.flatMap utf8) log).title = some (text.flatMap utf16) := by
  obtain ⟨b, hb, hpayload⟩ := titleOf_eq_some h
  have htext := nextOSCString_ascii hreads fun b' hb' => Nat.lt_succ_of_lt
    (hbytes b' (hpayload ▸ List.mem_cons_of_mem _ (List.mem_cons_of_mem _ hb'))).2
  have hrest : (nextOSCInt 59 (front ++ payload.flatMap utf8) (-1)).2 = text.flatMap utf8 := by
    have hdigits : 59 ∉ front ++ [b] := by
      rw [List.mem_append, List.mem_singleton]
      exact not_or_intro hfront (Ne.symm hb)
    rw [hpayload, ← List.singleton_append, ← List.append_assoc]
    exact nextOSCInt_rest hdigits _ _
  rw [titled_read hnumber, hrest, htext]

theorem titled_none {arg : List JByte} (h : ¬ ReadAsTitle arg) (log : SessionLog) :
    titled arg log = log := by
  unfold ReadAsTitle at h
  unfold titled
  rcases hnext : nextOSCInt 59 arg (-1) with ⟨ps, rest⟩
  rw [hnext] at h
  exact if_neg h

theorem append_front (hd : s.mUTF8Mode = true → s.mUTF8ToFollow = 0) (bytes : List JByte) :
    append ([27, 93] ++ bytes) s = append bytes (gathering (opened s) (begun (openString s))) := by
  rw [append_append, (append_osc hd).2]

/-- The prefixes of a sequence. -/
theorem undisturbed_beginnings (hd : s.mUTF8Mode = true → s.mUTF8ToFollow = 0)
    {text tail : List JByte}
    (htext : ∀ q, q <+: text → Undisturbed s (append ([27, 93] ++ q) s))
    (htail : ∀ q, q <+: tail → Undisturbed s (append q (append ([27, 93] ++ text) s))) :
    ∀ p, p <+: [27, 93] ++ (text ++ tail) → Undisturbed s (append p s) := by
  intro p hp
  rw [← List.append_assoc] at hp
  rcases List.prefix_or_prefix_of_prefix hp (List.prefix_append _ tail) with hp' | ⟨q, rfl⟩
  · rcases List.prefix_or_prefix_of_prefix hp' (List.prefix_append [27, 93] text) with
      hp'' | ⟨q, rfl⟩
    · rcases prefix_pair hp'' with rfl | rfl | rfl
      · exact undisturbed_machine s _ _ _ _ _ _
      · exact (append_osc hd).1
      · exact htext [] List.nil_prefix
    · exact htext q ((List.prefix_append_right_inj _).mp hp')
  · rw [append_append]
    exact htail q ((List.prefix_append_right_inj _).mp hp)

/-- The title behind a string that had room. -/
theorem titleSet_of_room (hreads : ReadsUtf8) {front : List JByte} {payload : List Char}
    (hbytes : ∀ b ∈ payload.flatMap utf8, IsText b) (hagree : NumbersAgree front payload)
    (ht : t.mSession = titled (front ++ payload.flatMap utf8) s.mSession) :
    TitleSet payload s t := by
  unfold NumbersAgree at hagree
  unfold TitleSet
  rw [ht]
  cases htitle : titleOf payload with
  | none =>
      rw [htitle] at hagree
      rw [titled_none hagree]
  | some text =>
      rw [htitle] at hagree
      obtain ⟨hnumber, hfront⟩ := hagree
      exact ⟨_, titled_some hreads hbytes htitle hfront hnumber _, .inl rfl⟩

theorem oscOpaque_of_fits (hreads : ReadsUtf8) (hd : s.mUTF8Mode = true → s.mUTF8ToFollow = 0)
    {payload : List Char} (hprintable : ∀ c ∈ payload, Printable c)
    (hfits : FitsOsc (begun (openString s)) payload) (terminator : StringTerminator) :
    OscOpaque payload terminator s := by
  have hbytes := isText_ascii hprintable hfits.ascii
  have hlength := length_flatMap_ascii hfits.ascii
  have hopened := undisturbed_opened s
  have hd' := opened_decoded hd
  rcases hfits.room with ⟨hroom, hagree⟩ | ⟨hnonempty, hfull, htitle⟩
  · have htext {q : List JByte} (hq : q <+: payload.flatMap utf8) :
        append ([27, 93] ++ q) s = gathering (opened s) (begun (openString s) ++ q) := by
      rw [append_front hd]
      refine append_text hd' (fun b hb => hbytes b (hq.subset hb)) ?_
      have := hlength ▸ hq.length_le
      omega
    obtain ⟨continues, hclosed⟩ := append_terminator hd'
      (begun (openString s) ++ payload.flatMap utf8) terminator
    have hend : append (oscBytes payload terminator) s =
        closed (opened s) (begun (openString s) ++ payload.flatMap utf8) continues := by
      unfold oscBytes
      rw [← List.append_assoc, append_append, htext (List.prefix_refl _), hclosed]
    refine ⟨undisturbed_beginnings hd (fun q hq => ?_) fun q hq => ?_, ?_, ?_⟩
    · rw [htext hq]
      exact hopened.trans (undisturbed_machine _ _ _ _ _ _ _)
    · rw [htext (List.prefix_refl _)]
      exact hopened.trans (undisturbed_terminator hd' hq)
    · rw [hend]
      rfl
    · rw [hend]
      exact titleSet_of_room hreads hbytes hagree (opened_session s ▸ rfl)
  · obtain hnil | ⟨text, b, heq⟩ := List.eq_nil_or_concat (payload.flatMap utf8)
    · rw [hnil, List.length_nil] at hlength
      exact absurd (List.length_eq_zero_iff.mp hlength.symm) hnonempty
    · rw [List.concat_eq_append] at heq
      rw [heq] at hbytes hlength
      have htextBytes : ∀ b' ∈ text, IsText b' :=
        fun b' hb' => hbytes b' (List.mem_append_left _ hb')
      have htextLength : (begun (openString s)).length + text.length = maxOscStringLength := by
        rw [List.length_append, List.length_singleton] at hlength
        omega
      have hover : append ([27, 93] ++ (text ++ [b])) s =
          overflown (opened s) (begun (openString s) ++ text) := by
        rw [append_front hd]
        exact append_text_full hd' htextBytes
          (hbytes b (List.mem_append_right _ List.mem_cons_self)) htextLength
      obtain ⟨hquiet, hground, hsession⟩ :=
        terminator_overflown hd' (begun (openString s) ++ text) terminator
      have hend : append (oscBytes payload terminator) s =
          append terminator.bytes (overflown (opened s) (begun (openString s) ++ text)) := by
        unfold oscBytes
        rw [← List.append_assoc, append_append, heq, hover]
      refine ⟨?_, hend ▸ hground, ?_⟩
      · unfold oscBytes
        rw [heq]
        refine undisturbed_beginnings hd (fun q hq => ?_) fun q hq => ?_
        · rcases List.prefix_concat_iff.mp hq with rfl | hq'
          · rw [hover]
            exact hopened.trans (undisturbed_machine _ _ _ _ _ _ _)
          · rw [append_front hd, append_text hd' (fun b' hb' => htextBytes b' (hq'.subset hb'))
              (htextLength ▸ Nat.add_le_add_left hq'.length_le _)]
            exact hopened.trans (undisturbed_machine _ _ _ _ _ _ _)
        · rw [hover]
          exact hopened.trans (hquiet q hq)
      · unfold TitleSet
        rw [htitle, hend, hsession, opened_session]

end Kbox.Emulatorview.TerminalEmulator
