import Kbox.Emulatorview.TranscriptScreen

/-!
# Reading a row

A row can be read when its slot holds a line and the line is as long as it says.
-/

namespace Kbox.Emulatorview

open Kbox.Framework

/-- The text of a line, if the space it says it uses is there. -/
inductive Line.HoldsText : Line → List JChar → Prop
  | basic (text : List JChar) : HoldsText (.basic text) text
  | full {line : FullUnicodeLine} {n : Nat} : line.getSpaceUsed = .ok (n : Int) →
      n ≤ line.mText.length → HoldsText (.full line) (line.mText.take n)

namespace UnicodeTranscript

/-- The slot that a row of the screen or of the history lives in. -/
def internalRow (s : UnicodeTranscript) (extRow : Int) : Int :=
  if extRow ≥ 0 then (s.mScreenFirstRow + extRow) % s.mTotalRows
  else if -extRow > s.mScreenFirstRow then s.mTotalRows + s.mScreenFirstRow + extRow
  else s.mScreenFirstRow + extRow

/-- There is such a row. -/
def InRange (s : UnicodeTranscript) (row : Int) : Prop :=
  -(s.mActiveTranscriptRows : Int) ≤ row ∧ row < s.mScreenRows

theorem externalToInternalRow_eq (s : UnicodeTranscript) (extRow : Int) :
    externalToInternalRow extRow s =
      if extRow < -s.mActiveTranscriptRows ∨ extRow > s.mScreenRows then
        .error .illegalArgument s
      else .ok (s.internalRow extRow) s := by
  simp only [externalToInternalRow, throwIf, internalRow, bind, EStateM.bind, get_apply]
  by_cases hout : extRow < -s.mActiveTranscriptRows ∨ extRow > s.mScreenRows
  · rw [if_pos hout, if_pos hout]
    rfl
  · rw [if_neg hout, if_neg hout]
    simp only [pure, EStateM.pure]
    split_ifs <;> rfl

theorem externalToInternalRow_of_inRange {s : UnicodeTranscript} {row : Int}
    (h : s.InRange row) : externalToInternalRow row s = .ok (s.internalRow row) s := by
  unfold InRange at h
  rw [externalToInternalRow_eq, if_neg (by omega)]

/-- The text of a row, and its styles. -/
structure HasLine (s : UnicodeTranscript) (row : Int) (line : Line) : Prop where
  range : s.InRange row
  slot : arrayGet (Exn.arrayIndexOutOfBounds .mLines) s.mLines (s.internalRow row) = .ok (some line)

structure HasColor (s : UnicodeTranscript) (row : Int) (color : StyleRow) : Prop where
  range : s.InRange row
  slot : arrayGet (Exn.arrayIndexOutOfBounds .mColor) s.mColor (s.internalRow row) =
    .ok (some color)

theorem lineAt_of {s : UnicodeTranscript} {i : Int} {line : Option Line}
    (h : arrayGet (Exn.arrayIndexOutOfBounds .mLines) s.mLines i = .ok line) :
    lineAt i s = .ok line s := by
  simp only [lineAt, bind, EStateM.bind, get_apply, h]
  rfl

theorem colorAt_of {s : UnicodeTranscript} {i : Int} {color : Option StyleRow}
    (h : arrayGet (Exn.arrayIndexOutOfBounds .mColor) s.mColor i = .ok color) :
    colorAt i s = .ok color s := by
  simp only [colorAt, bind, EStateM.bind, get_apply, h]
  rfl

theorem allocTmpLine_returns (s : UnicodeTranscript) {n : Nat} :
    returns (allocTmpLine n)
      (fun tmp s' => n ≤ tmp.length ∧ ∃ t, s' = { s with tmpLine := t }) s := by
  unfold allocTmpLine
  simp only [wp_bind, wp_throwIf, wp_modify, wp_pure]
  refine ⟨fun hneg => ?_, fun _ => ⟨?_, _, rfl⟩⟩
  · omega
  · rw [Int.toNat_natCast, List.length_replicate]

theorem takeTmpLine_returns (s : UnicodeTranscript) {n : Nat} :
    returns (takeTmpLine n)
      (fun tmp s' => n ≤ tmp.length ∧ ∃ t, s' = { s with tmpLine := t }) s := by
  unfold takeTmpLine
  simp only [wp_bind, wp_get]
  cases htmp : s.tmpLine with
  | none => exact allocTmpLine_returns s
  | some tmp =>
      simp only [wp_ite, wp_pure]
      refine ⟨fun _ => allocTmpLine_returns s, fun hlong => ⟨?_, s.tmpLine, rfl⟩⟩
      omega

/-- The element behind what was spliced in at the front. -/
theorem set_splice_zero {α : Type} {xs ys : List α} (a : α) (h : ys.length < xs.length) :
    (splice xs 0 ys).set ys.length a = ys ++ a :: xs.drop (ys.length + 1) := by
  unfold splice
  rw [List.take_zero, List.nil_append, Nat.zero_add, List.set_append_right _ _ (Nat.le_refl _),
    Nat.sub_self, List.drop_eq_getElem_cons h, List.set_cons_zero]

/-- The text asked for, followed by what `tmpLine` held before. -/
theorem fillTmpLine_returns (s : UnicodeTranscript) {capacity : Nat} {text : List JChar}
    {start n : Nat} (hcap : n < capacity) (hfit : start + n ≤ text.length) :
    returns (fillTmpLine capacity text start n)
      (fun tmp s' => (∃ tail, tmp = stretch text start n ++ 0 :: tail) ∧
        ∃ t, s' = { s with tmpLine := t }) s := by
  unfold fillTmpLine
  refine returns_bind.mpr (wp_of_returns (takeTmpLine_returns s) ?_)
  rintro tmp s₁ ⟨hlen, t, rfl⟩
  have hroom : 0 + n ≤ tmp.length := by omega
  have hcopy : arraycopy (Exn.arrayIndexOutOfBounds .tmpLine) text start tmp 0 n =
      .ok (splice tmp 0 (stretch text start n)) :=
    arraycopy_of_le hfit hroom
  have hseg : (stretch text start n).length = n := length_stretch hfit
  have hlen' : (splice tmp 0 (stretch text start n)).length = tmp.length :=
    length_splice (by omega)
  have hset : arraySet (Exn.arrayIndexOutOfBounds .tmpLine)
      (splice tmp 0 (stretch text start n)) n 0 =
      .ok ((splice tmp 0 (stretch text start n)).set n 0) :=
    arraySet_of_lt 0 (by omega)
  simp only [wp_bind, hcopy, wp_checked_ok, hset, wp_modify, wp_pure]
  refine ⟨⟨tmp.drop (n + 1), ?_⟩, _, rfl⟩
  have hzero := set_splice_zero (0 : JChar) (show (stretch text start n).length < tmp.length by
    omega)
  rwa [hseg] at hzero

/-- What a row with text is read as. -/
theorem getLine_returns {s : UnicodeTranscript} {row : Int} {line : Line}
    {text : List JChar} (hrow : s.HasLine row line) (htext : line.HoldsText text) :
    returns (getLine row 0 s.mColumns)
      (fun l s' => (∃ tail, l = some (text ++ tail)) ∧ ∃ t, s' = { s with tmpLine := t }) s := by
  have hrange := hrow.range
  unfold InRange at hrange
  unfold getLine
  simp only [wp_bind, wp_get, wp_throwIf]
  refine ⟨fun hout => by omega, fun _ => ?_⟩
  rw [wp_of_ok (externalToInternalRow_of_inRange hrow.range), wp_of_ok (lineAt_of hrow.slot)]
  cases htext with
  | basic text =>
      simp only [and_self, if_true, wp_pure]
      exact ⟨⟨[], by rw [List.append_nil]⟩, s.tmpLine, rfl⟩
  | @full line n hused hfit =>
      have hstart : line.findStartOfColumn 0 = .ok 0 := rfl
      simp only [wp_bind, hstart, wp_checked_ok, Int.lt_irrefl, if_false, hused, Int.sub_zero]
      have hfill := fillTmpLine_returns s (Nat.lt_succ_self n)
        (show 0 + n ≤ line.mText.length by omega)
      refine wp_of_returns hfill ?_
      rintro tmp s₁ ⟨⟨tail, rfl⟩, hs₁⟩
      rw [wp_pure]
      exact ⟨⟨0 :: tail, rfl⟩, hs₁⟩

theorem getLineColor_of {s : UnicodeTranscript} {row : Int} {color : StyleRow}
    (hrow : s.HasColor row color) : getLineColor row 0 s.mColumns s = .ok (some color) s := by
  have hrange := hrow.range
  unfold InRange at hrange
  have hdone : returns (getLineColor row 0 s.mColumns)
      (fun c s' => c = some color ∧ s' = s) s := by
    unfold getLineColor
    simp only [wp_bind, wp_get, wp_throwIf]
    refine ⟨fun hout => by omega, fun _ => ?_⟩
    rw [wp_of_ok (externalToInternalRow_of_inRange hrow.range), wp_of_ok (colorAt_of hrow.slot)]
    simp only [and_self, if_true, wp_pure]
  obtain ⟨_, _, hok, rfl, rfl⟩ := returns_iff.mp hdone
  exact hok

end UnicodeTranscript

end Kbox.Emulatorview
