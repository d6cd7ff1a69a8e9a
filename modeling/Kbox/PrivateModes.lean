import Kbox.Session.PrivateModes

/-!
# Private modes in both copies

Both copies of `doEscLSBQuest` act on a parameter that is still being read.
-/

namespace Kbox

open Kbox.Framework
open Emulatorview.TerminalEmulator (Digit Acts IsFinal privateBytes intOfDigits)

/-- **Private modes.**  A byte of the parameters changes nothing if and only if the parameter is
neither 3 nor 6 so far; in the newer copy it may also end a UTF-8 sequence that has been begun.  A
whole sequence leaves screen and cursor alone if and only if no beginning of its digits is read as
3 or 6. -/
theorem private_modes_inert_iff (v : Int) (digits : List Digit) {final : JByte}
    (hfinal : IsFinal final) :
    (((∀ s : Session.TerminalEmulator, s.Reachable → s.InPrivateMode → s.getArg0 0 = v →
        ∀ b, Session.TerminalEmulator.IsParameter b →
          s.Unchanged (after (Session.TerminalEmulator.process b) s)) ↔ ¬ Acts v) ∧
      ((∀ (_ : Emulatorview.Platform) (s : Emulatorview.TerminalEmulator), s.Reachable →
        s.InPrivateMode → s.getArg0 0 = v → ∀ b, Emulatorview.TerminalEmulator.IsParameter b →
          s.Unchanged (after (Emulatorview.TerminalEmulator.process b) s)) ↔ ¬ Acts v)) ∧
    (∃ (_ : Emulatorview.Platform) (s : Emulatorview.TerminalEmulator), s.Reachable ∧
      s.mEscapeState = .leftSquareBracketQuestionMark ∧ ¬ Acts (s.getArg0 0) ∧
        ∃ b, Emulatorview.TerminalEmulator.IsParameter b ∧
          ¬ s.Unchanged (after (Emulatorview.TerminalEmulator.process b) s)) ∧
    ((∀ s : Session.TerminalEmulator, s.Reachable →
      let t := Session.TerminalEmulator.append (privateBytes digits final) s
      t.mScreen = s.mScreen ∧ t.mCursorRow = s.mCursorRow ∧ t.mCursorCol = s.mCursorCol) ↔
        ∀ p, p <+: digits → ¬ Acts (intOfDigits p)) ∧
    ((∀ (_ : Emulatorview.Platform) (s : Emulatorview.TerminalEmulator), s.Reachable →
      s.TakesEscape →
      let t := Emulatorview.TerminalEmulator.append (privateBytes digits final) s
      t.mScreen = s.mScreen ∧ t.mCursorRow = s.mCursorRow ∧ t.mCursorCol = s.mCursorCol) ↔
        ∀ p, p <+: digits → ¬ Acts (intOfDigits p)) := by
  refine ⟨⟨?_, ?_⟩, Emulatorview.TerminalEmulator.pending_parameter, ?_, ?_⟩
  · exact Session.TerminalEmulator.parameter_inert_iff v
  · exact Emulatorview.TerminalEmulator.parameter_inert_iff v
  · exact Session.TerminalEmulator.sequence_inert_iff digits hfinal
  · exact Emulatorview.TerminalEmulator.sequence_inert_iff digits hfinal

/-- `ESC [ ? 4 0 h` -/
theorem private_modes_inert_iff_forty :
    (∀ s : Session.TerminalEmulator, s.Reachable →
      let t := Session.TerminalEmulator.append (privateBytes [4, 0] 104) s
      t.mScreen = s.mScreen ∧ t.mCursorRow = s.mCursorRow ∧ t.mCursorCol = s.mCursorCol) ↔
        ∀ p, p <+: [4, 0] → ¬ Acts (intOfDigits p) :=
  (private_modes_inert_iff 40 [4, 0] (.inl rfl)).2.2.1

/-- `ESC [ ? 3 0 h` behind a character takes the cursor home, in both copies. -/
theorem thirty_homes_cursor :
    (Session.TerminalEmulator.create 2 3 2).map (fun s =>
      let t := Session.TerminalEmulator.append [97] s
      (t.mCursorCol, (Session.TerminalEmulator.append (privateBytes [3, 0] 104) t).mCursorCol)) =
        .ok (1, 0) ∧
    let _ := Emulatorview.samplePlatform
    (Emulatorview.TerminalEmulator.create 2 3 2).map (fun s =>
      let t := Emulatorview.TerminalEmulator.append [97] s
      (t.mCursorCol,
        (Emulatorview.TerminalEmulator.append (privateBytes [3, 0] 104) t).mCursorCol)) =
      .ok (1, 0) := by
  constructor <;> decide +kernel

end Kbox
