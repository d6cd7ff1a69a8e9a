import Kbox.Session.ScrollRegions
import Kbox.Emulatorview.ScrollRegions

/-!
# Scroll regions in both emulators
-/

namespace Kbox

open Framework

/-- A screen of two columns and four rows full of `E`s, a region of the two rows in the middle,
and an `x` at the end of a row: `ESC # 8`, `ESC [ 2 ; 3 r`, `ESC [ row ; 2 H`, `x`. -/
def fillRow (row : JByte) : List JByte :=
  [27, 35, 56, 27, 91, 50, 59, 51, 114, 27, 91, row, 59, 50, 72, 120]

theorem exists_of_map {ε α : Type} {x : Except ε α} {p : α → Bool} (h : x.map p = .ok true) :
    ∃ s, x = .ok s ∧ p s := by
  cases x with
  | error e => cases h
  | ok s => exact ⟨s, rfl, Except.ok.inj h⟩

namespace Session.TerminalEmulator

/-- An operation that reaches over the margins. -/
def Disturbs (s : TerminalEmulator) (op : RowOp) : Prop :=
  Placed s ∧ op.Applies s ∧ ¬ s.regionView.Locks (after op.body s).regionView

instance (s : TerminalEmulator) (op : RowOp) : Decidable (s.Disturbs op) :=
  inferInstanceAs (Decidable (_ ∧ _ ∧ _))

/-- The emulator with an `x` at the end of a row. -/
def filledRow (row : JByte) : Except Exn TerminalEmulator := (create 2 6 4).map (append (fillRow row))

end Session.TerminalEmulator

namespace Emulatorview.TerminalEmulator

variable [Platform]

/-- An operation that reaches over the margins. -/
def Disturbs (s : TerminalEmulator) (op : RowOp) : Prop :=
  Placed s ∧ op.Applies s ∧ ¬ s.regionView.Locks (after op.body s).regionView

instance (s : TerminalEmulator) (op : RowOp) : Decidable (s.Disturbs op) :=
  inferInstanceAs (Decidable (_ ∧ _ ∧ _))

/-- The emulator with an `x` at the end of a row. -/
def filledRow (row : JByte) : Except Exn TerminalEmulator := (create 2 6 4).map (append (fillRow row))

end Emulatorview.TerminalEmulator

/-- A region locks the rest of the screen from the inside; from the outside it is left alone by
what moves towards it, but for the row that a character wraps into. -/
theorem regions_lock :
    (∀ (s : Session.TerminalEmulator) (op : Session.TerminalEmulator.RowOp), s.Placed →
      op.Applies s → RegionView.LocksAhead op.move s.regionView (after op.body s).regionView) ∧
    ∀ [Emulatorview.Platform] (s : Emulatorview.TerminalEmulator)
      (op : Emulatorview.TerminalEmulator.RowOp), s.Placed → op.Applies s → ¬ op.Escapes s →
        RegionView.LocksAhead op.move s.regionView (after op.body s).regionView :=
  ⟨fun _ _ hs hop => Session.TerminalEmulator.RowOp.locks hs hop,
    fun _ _ hs hop hescape => Emulatorview.TerminalEmulator.RowOp.locks hs hop hescape⟩

/-- From outside the margins are reached over: below the region everything that moves down
scrolls it, above it the reverse index does, and a character wraps into its first row.  A
combining character reaches the row above a region of one row from the inside. -/
theorem regions_do_not_lock : let _ := Emulatorview.samplePlatform
    (∃ s, Session.TerminalEmulator.filledRow 52 = .ok s ∧ s.Disturbs .lineFeed ∧
      s.Disturbs .index ∧ s.Disturbs .nextLine ∧ s.Disturbs (.print 121)) ∧
    (∃ s, Session.TerminalEmulator.filledRow 49 = .ok s ∧ s.Disturbs .reverseIndex ∧
      s.Disturbs (.print 121)) ∧
    (∃ s, Emulatorview.TerminalEmulator.filledRow 52 = .ok s ∧ s.Disturbs .lineFeed ∧
      s.Disturbs .index ∧ s.Disturbs .nextLine ∧ s.Disturbs (.print 121)) ∧
    (∃ s, Emulatorview.TerminalEmulator.filledRow 49 = .ok s ∧ s.Disturbs .reverseIndex ∧
      s.Disturbs (.print 121)) ∧
    ∃ s, Emulatorview.TerminalEmulator.filledRow 50 = .ok s ∧
      Emulatorview.TerminalEmulator.Disturbs { s with mBottomMargin := 2 } (.print 0x301) := by
  let _ := Emulatorview.samplePlatform
  refine ⟨?_, ?_, ?_, ?_, ?_⟩
  · obtain ⟨s, hs, hdisturbs⟩ := @exists_of_map _ _ (Session.TerminalEmulator.filledRow 52)
      (fun s => decide (s.Disturbs .lineFeed ∧ s.Disturbs .index ∧ s.Disturbs .nextLine ∧
        s.Disturbs (.print 121))) (by decide +kernel)
    exact ⟨s, hs, of_decide_eq_true hdisturbs⟩
  · obtain ⟨s, hs, hdisturbs⟩ := @exists_of_map _ _ (Session.TerminalEmulator.filledRow 49)
      (fun s => decide (s.Disturbs .reverseIndex ∧ s.Disturbs (.print 121))) (by decide +kernel)
    exact ⟨s, hs, of_decide_eq_true hdisturbs⟩
  · obtain ⟨s, hs, hdisturbs⟩ := @exists_of_map _ _ (Emulatorview.TerminalEmulator.filledRow 52)
      (fun s => decide (s.Disturbs .lineFeed ∧ s.Disturbs .index ∧ s.Disturbs .nextLine ∧
        s.Disturbs (.print 121))) (by decide +kernel)
    exact ⟨s, hs, of_decide_eq_true hdisturbs⟩
  · obtain ⟨s, hs, hdisturbs⟩ := @exists_of_map _ _ (Emulatorview.TerminalEmulator.filledRow 49)
      (fun s => decide (s.Disturbs .reverseIndex ∧ s.Disturbs (.print 121))) (by decide +kernel)
    exact ⟨s, hs, of_decide_eq_true hdisturbs⟩
  · obtain ⟨s, hs, hdisturbs⟩ := @exists_of_map _ _ (Emulatorview.TerminalEmulator.filledRow 50)
      (fun s => decide (Emulatorview.TerminalEmulator.Disturbs { s with mBottomMargin := 2 }
        (.print 0x301))) (by decide +kernel)
    exact ⟨s, hs, of_decide_eq_true hdisturbs⟩

/-- A character that wraps from the row above the region, and a reverse index below it. -/
theorem regions_lock_filledRow : let _ := Emulatorview.samplePlatform
    (∃ s, Session.TerminalEmulator.filledRow 49 = .ok s ∧ RegionView.LocksAhead .wrap s.regionView
      (after (Session.TerminalEmulator.emit 121) s).regionView) ∧
    ∃ s, Emulatorview.TerminalEmulator.filledRow 52 = .ok s ∧ RegionView.LocksAhead .up s.regionView
      (after (Emulatorview.TerminalEmulator.doEsc 77) s).regionView := by
  let _ := Emulatorview.samplePlatform
  constructor
  · obtain ⟨s, hs, hplaced⟩ := @exists_of_map _ _ (Session.TerminalEmulator.filledRow 49)
      (fun s => decide (s.Placed ∧ Session.TerminalEmulator.RowOp.Applies s (.print 121)))
      (by decide +kernel)
    have hplaced := of_decide_eq_true hplaced
    exact ⟨s, hs, regions_lock.1 s (.print 121) hplaced.1 hplaced.2⟩
  · obtain ⟨s, hs, hplaced⟩ := @exists_of_map _ _ (Emulatorview.TerminalEmulator.filledRow 52)
      (fun s => decide s.Placed) (by decide +kernel)
    exact ⟨s, hs, regions_lock.2 s .reverseIndex (of_decide_eq_true hplaced) trivial id⟩

end Kbox
