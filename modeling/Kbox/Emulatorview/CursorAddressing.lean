import Mathlib.Tactic.FinCases
import Mathlib.Data.Fintype.Basic
import Kbox.Emulatorview.SamplePlatform
import Kbox.Emulatorview.ProcessBytes

/-!
# Cursor addressing

The sequences that only move the cursor, from their bytes to the place they go
to.  A parameter is any list of digits, and the documentation of a sequence
speaks of the number they denote.  The emulator reads them into an `int`, so it
goes to another place when the number, or a sum with it, is no `int`, unless
what is left of it still reaches the margin that the cursor is clamped to.
-/

namespace Kbox.Emulatorview.TerminalEmulator

open Kbox.Framework

/-! ## §1  The sequences -/

abbrev Digit : Type := Fin 10

def digitByte (d : Digit) : JByte := BitVec.ofNat 8 (48 + d)

/-- The digits of the parameters, and semicolons between them. -/
def parameterBytes : List (List Digit) → List JByte
  | [] => []
  | [digits] => digits.map digitByte
  | digits :: rest => digits.map digitByte ++ 59 :: parameterBytes rest

inductive Addressing where
  /-- `ESC [ Pn A` -/
  | cursorUp
  /-- `ESC [ Pn B` -/
  | cursorDown
  /-- `ESC [ Pn C` -/
  | cursorRight
  /-- `ESC [ Pn D` -/
  | cursorLeft
  /-- `ESC [ Pn G` -/
  | cursorHorizontalAbsolute
  /-- `ESC [ Pn ; Pn H` -/
  | cursorPosition
  /-- `ESC [ Pn d` -/
  | vertPositionAbsolute
  /-- `ESC [ Pn ; Pn f` -/
  | horizontalAndVerticalPosition
  /-- `ESC F`, which has no parameters. -/
  | lowerLeftCorner
deriving DecidableEq

namespace Addressing

/-- What ends `ESC [`. -/
def finalByte : Addressing → JByte
  | cursorUp => 65
  | cursorDown => 66
  | cursorRight => 67
  | cursorLeft => 68
  | cursorHorizontalAbsolute => 71
  | cursorPosition => 72
  | vertPositionAbsolute => 100
  | horizontalAndVerticalPosition => 102
  | lowerLeftCorner => 70

def bytes (sequence : Addressing) (parameters : List (List Digit)) : List JByte :=
  match sequence with
  | lowerLeftCorner => [27, 70]
  | _ => 27 :: 91 :: (parameterBytes parameters ++ [sequence.finalByte])

end Addressing

/-- The number that digits denote. -/
def decimal (digits : List Digit) : Int :=
  digits.foldl (fun (n : Int) (d : Digit) => 10 * n + d.val) 0

/-- The number of a parameter, which is 1 by default. -/
def parameter (parameters : List (List Digit)) (i : Nat) : Int :=
  if decimal (parameters.getD i []) = 0 then 1 else decimal (parameters.getD i [])

/-- The rows that addresses are relative to and clamped to. -/
def addressedRows (s : TerminalEmulator) : Int × Int :=
  if s.mDecFlags &&& kOriginModeMask ≠ 0 then (s.mTopMargin, s.mBottomMargin) else (0, s.mRows)

/-- Where a sequence with the parameters `n` and `m` goes, row and column. -/
def Addressing.target (sequence : Addressing) (s : TerminalEmulator) (n m : Int) : Int × Int :=
  match sequence with
  | cursorUp => (max s.mTopMargin (s.mCursorRow - n), s.mCursorCol)
  | cursorDown => (min (s.mBottomMargin - 1) (s.mCursorRow + n), s.mCursorCol)
  | cursorRight => (s.mCursorRow, min (s.mColumns - 1) (s.mCursorCol + n))
  | cursorLeft => (s.mCursorRow, max 0 (s.mCursorCol - n))
  | cursorHorizontalAbsolute => (s.mCursorRow, min (n - 1) (s.mColumns - 1))
  | vertPositionAbsolute => (min (n - 1) (s.mRows - 1), s.mCursorCol)
  | cursorPosition | horizontalAndVerticalPosition =>
      (min (s.addressedRows.1 + n - 1) (s.addressedRows.2 - 1), min (m - 1) (s.mColumns - 1))
  | lowerLeftCorner => (s.mRows - 1, 0)

/-- The sequence does what it is documented to do, and nothing to the screen. -/
def Addressing.Meets (sequence : Addressing) (parameters : List (List Digit))
    (s : TerminalEmulator) [Platform] : Prop :=
  let t := append (sequence.bytes parameters) s
  (t.mCursorRow, t.mCursorCol) =
      sequence.target s (parameter parameters 0) (parameter parameters 1) ∧
    t.mScreen = s.mScreen

/-- A cursor on the screen, margins, and no string that the bytes could be part of. -/
structure Addressable (s : TerminalEmulator) : Prop where
  cursorRow : 0 ≤ s.mCursorRow ∧ s.mCursorRow < s.mRows
  cursorCol : 0 ≤ s.mCursorCol ∧ s.mCursorCol < s.mColumns
  margins : 0 ≤ s.mTopMargin ∧ s.mTopMargin < s.mBottomMargin ∧ s.mBottomMargin ≤ s.mRows
  sizes : s.mRows ≤ intMax ∧ s.mColumns ≤ intMax
  noString : s.mEscapeState ≠ .rightSquareBracket
  decoded : s.mUTF8Mode = true → s.mUTF8ToFollow = 0

/-! ## §2  Numbers in an `int` -/

/-- What is left of a number in an `int` that takes digit after digit, and starts over when
it is negative. -/
def intOfDigits (digits : List Digit) : Int :=
  digits.foldl (fun (n : Int) (d : Digit) => if n < 0 then d.val else wrap32 (10 * n + d.val)) (-1)

/-- The same for a parameter. -/
def intParameter (parameters : List (List Digit)) (i : Nat) : Int :=
  if intOfDigits (parameters.getD i []) ≤ 0 then 1 else intOfDigits (parameters.getD i [])

theorem decimal_append (digits : List Digit) (d : Digit) :
    decimal (digits ++ [d]) = 10 * decimal digits + d.val := by
  unfold decimal
  rw [List.foldl_append, List.foldl_cons, List.foldl_nil]

theorem intOfDigits_append (digits : List Digit) (d : Digit) :
    intOfDigits (digits ++ [d]) = if intOfDigits digits < 0 then (d.val : Int)
      else wrap32 (10 * intOfDigits digits + d.val) := by
  unfold intOfDigits
  rw [List.foldl_append, List.foldl_cons, List.foldl_nil]

theorem decimal_nonneg (digits : List Digit) : 0 ≤ decimal digits := by
  induction digits using List.reverseRecOn with
  | nil => exact Int.le_refl 0
  | append_singleton digits d ih =>
      rw [decimal_append]
      omega

/-- An `int` holds a number that is small enough. -/
theorem intOfDigits_eq {digits : List Digit} (h : decimal digits ≤ intMax) :
    intOfDigits digits = if digits = [] then -1 else decimal digits := by
  induction digits using List.reverseRecOn with
  | nil => rfl
  | append_singleton digits d ih =>
      have hnonneg := decimal_nonneg digits
      rw [decimal_append] at h
      rw [if_neg (by simp), intOfDigits_append, decimal_append, ih (by omega)]
      unfold intMax at h
      by_cases hempty : digits = []
      · rw [if_pos hempty, if_pos (by decide), hempty]
        exact (Int.zero_add _).symm
      · rw [if_neg hempty, if_neg (by omega), wrap32_of_isInt]
        unfold IsInt
        omega

theorem isInt_intOfDigits (digits : List Digit) : IsInt (intOfDigits digits) := by
  induction digits using List.reverseRecOn with
  | nil => decide
  | append_singleton digits d ih =>
      rw [intOfDigits_append]
      split_ifs
      · unfold IsInt
        omega
      · exact isInt_wrap32 _

variable {parameters : List (List Digit)}

theorem one_le_parameter (i : Nat) : 1 ≤ parameter parameters i := by
  have hnonneg := decimal_nonneg (parameters.getD i [])
  unfold parameter
  split_ifs <;> omega

theorem intParameter_range (i : Nat) :
    1 ≤ intParameter parameters i ∧ intParameter parameters i ≤ 2147483647 := by
  have hint := isInt_intOfDigits (parameters.getD i [])
  unfold IsInt at hint
  unfold intParameter
  split_ifs <;> omega

theorem intParameter_eq {i : Nat} (h : parameter parameters i ≤ intMax) :
    intParameter parameters i = parameter parameters i := by
  have hnonneg := decimal_nonneg (parameters.getD i [])
  have hsmall : decimal (parameters.getD i []) ≤ intMax := by
    unfold parameter at h
    split_ifs at h <;> omega
  unfold intParameter parameter
  rw [intOfDigits_eq hsmall]
  by_cases hempty : parameters.getD i [] = []
  · rw [hempty]
    rfl
  · rw [if_neg hempty]
    split_ifs <;> omega

/-! ## §3  Limits -/

section

variable {x n a limit : Int} (hx : 0 ≤ x ∧ x ≤ intMax) (ha : 1 ≤ a ∧ a ≤ 2147483647)
  (hn : n ≤ intMax → a = n)

include hx ha hn

theorem max_isub_iff (hlimit : 0 ≤ limit) :
    max limit (isub x a) = max limit (x - n) ↔ n ≤ intMax ∨ x - limit ≤ a := by
  unfold intMax at *
  have hsub : isub x a = x - a := isub_of_isInt (by unfold IsInt; omega)
  rw [hsub]
  by_cases hsmall : n ≤ 2147483647
  · rw [hn hsmall]
    exact ⟨fun _ => Or.inl hsmall, fun _ => rfl⟩
  · constructor
    · intro h
      omega
    · rintro (h | h)
      · exact absurd h hsmall
      · omega

theorem min_iadd_iff (hlimit : 0 ≤ limit ∧ limit ≤ intMax) :
    min limit (iadd x a) = min limit (x + n) ↔
      x + a ≤ intMax ∧ (n ≤ intMax ∨ limit - x ≤ a) := by
  by_cases hfits : x + a ≤ intMax
  · unfold intMax at *
    have hadd : iadd x a = x + a := iadd_of_isInt (by unfold IsInt; omega)
    rw [hadd]
    by_cases hsmall : n ≤ 2147483647
    · rw [hn hsmall] at hfits ⊢
      exact ⟨fun _ => ⟨hfits, Or.inl hsmall⟩, fun _ => rfl⟩
    · constructor
      · intro h
        exact ⟨hfits, Or.inr (by omega)⟩
      · rintro ⟨_, h | h⟩
        · exact absurd h hsmall
        · omega
  · have hneg : iadd x a < 0 := iadd_neg_of_overflow hx.1 (by omega)
      (by unfold IsInt; unfold intMax at hx; omega) (by unfold IsInt; omega) (by omega)
    constructor
    · intro h
      -- the number is so large that the place is the limit
      have hlarge : limit ≤ x + n := by
        unfold intMax at *
        by_cases hsmall : n ≤ 2147483647
        · have := hn hsmall
          omega
        · omega
      omega
    · rintro ⟨h, _⟩
      exact absurd h hfits

end

theorem min_pred_iff {n a size : Int} (hn : n ≤ intMax → a = n)
    (hsize : size ≤ intMax) :
    min a size - 1 = min (n - 1) (size - 1) ↔ n ≤ intMax ∨ size ≤ a := by
  by_cases hsmall : n ≤ intMax
  · rw [hn hsmall]
    exact ⟨fun _ => Or.inl hsmall, fun _ => by omega⟩
  · constructor
    · intro h
      exact Or.inr (by omega)
    · rintro (h | h)
      · exact absurd h hsmall
      · omega

/-- An address in the rows from `top` to `bottom`. -/
theorem clampedRow_iff {n a top bottom rows : Int} (ha : 1 ≤ a ∧ a ≤ 2147483647) (hone : 1 ≤ n)
    (hn : n ≤ intMax → a = n) (htop : 0 ≤ top ∧ top < bottom) (hbottom : bottom ≤ rows)
    (hrows : rows ≤ intMax) :
    min (max top (min (iadd top (a - 1)) (bottom - 1))) (rows - 1) =
        min (top + n - 1) (bottom - 1) ↔
      bottom = top + 1 ∨ top + a - 1 ≤ intMax ∧ (n ≤ intMax ∨ bottom - top ≤ a) := by
  have hinside : min (max top (min (iadd top (a - 1)) (bottom - 1))) (rows - 1) =
      max top (min (iadd top (a - 1)) (bottom - 1)) := by omega
  rw [hinside]
  by_cases hsingle : bottom = top + 1
  · subst hsingle
    exact ⟨fun _ => Or.inl rfl, fun _ => by omega⟩
  · rw [or_iff_right hsingle]
    by_cases hfits : top + a - 1 ≤ intMax
    · unfold intMax at *
      have hadd : iadd top (a - 1) = top + (a - 1) := iadd_of_isInt (by unfold IsInt; omega)
      rw [hadd]
      by_cases hsmall : n ≤ 2147483647
      · rw [hn hsmall] at hfits ⊢
        exact ⟨fun _ => ⟨hfits, Or.inl hsmall⟩, fun _ => by omega⟩
      · constructor
        · intro h
          exact ⟨hfits, Or.inr (by omega)⟩
        · rintro ⟨_, h | h⟩
          · exact absurd h hsmall
          · omega
    · have hneg : iadd top (a - 1) < 0 := iadd_neg_of_overflow htop.1 (by omega)
        (by unfold IsInt; unfold intMax at hrows; omega) (by unfold IsInt; omega) (by omega)
      constructor
      · intro h
        have hlarge : bottom ≤ top + n := by
          unfold intMax at *
          by_cases hsmall : n ≤ 2147483647
          · have := hn hsmall
            omega
          · omega
        omega
      · rintro ⟨h, _⟩
        exact absurd h hfits

/-! ## §4  Bytes of a sequence -/

variable [Platform] {s t : TerminalEmulator}

theorem process_dispatch {b : JByte} (hdecoded : s.mUTF8Mode = true → s.mUTF8ToFollow = 0)
    (hb : b.toNat < 128) : process b s = dispatch b s := by
  rw [process_undecoded fun hmode => ⟨hdecoded hmode, hb⟩]
  have hc1 : isC1 b = false := by
    unfold isC1
    exact decide_eq_false (by omega)
  unfold processUndecoded
  rw [hc1]
  rfl

/-- A byte that is no control goes to the escape state. -/
theorem dispatch_text {b : JByte} (hb : 32 ≤ b.toNat ∧ b.toNat < 128) :
    dispatch b = (do
      modify fun s => { s with mContinueSequence := false }
      processInState b
      when (¬ (← get).mContinueSequence) finishSequence : EmulatorM Unit) := by
  unfold dispatch
  split
  all_goals first | omega | rfl

/-- A byte of a sequence, from what its state does with it. -/
theorem process_in_sequence {b : JByte} (hdecoded : s.mUTF8Mode = true → s.mUTF8ToFollow = 0)
    (hb : 32 ≤ b.toNat ∧ b.toNat < 128)
    (h : processInState b { s with mContinueSequence := false } = .ok ⟨⟩ t) :
    after (process b) s = if t.mContinueSequence then t else { t with mEscapeState := .none } := by
  have hok : dispatch b s =
      .ok ⟨⟩ (if t.mContinueSequence then t else { t with mEscapeState := .none }) := by
    rw [dispatch_text hb]
    simp only [bind, EStateM.bind, modify_apply, h, get_apply]
    unfold when
    by_cases hcontinue : t.mContinueSequence = true
    · rw [if_pos hcontinue, if_neg (not_not_intro hcontinue)]
      rfl
    · rw [if_neg hcontinue, if_pos hcontinue]
      rfl
  unfold after
  rw [process_dispatch hdecoded hb.2, hok]

/-- The emulator behind some of the parameters of `ESC [`. -/
def collecting (s : TerminalEmulator) (argIndex : Nat) (args : Vector Int maxEscapeParameters) :
    TerminalEmulator :=
  { s with
    mEscapeState := .leftSquareBracket
    mArgIndex := argIndex
    mArgs := args
    mContinueSequence := true }

theorem append_escape (hstring : s.mEscapeState ≠ .rightSquareBracket)
    (hdecoded : s.mUTF8Mode = true → s.mUTF8ToFollow = 0) :
    append [27] s = { s with
      mEscapeState := .esc
      mArgIndex := 0
      mArgs := Vector.replicate maxEscapeParameters (-1) } := by
  have hprocess := process_dispatch (b := 27) hdecoded (by decide)
  have hstart : dispatch 27 s = startEscapeSequence .esc s := by
    show (get >>= fun u : TerminalEmulator =>
      if u.mEscapeState ≠ .rightSquareBracket then startEscapeSequence .esc
      else doEscRightSquareBracket 27 : EmulatorM Unit) s = _
    simp only [bind, EStateM.bind, get_apply]
    rw [if_pos hstring]
  unfold append
  rw [List.foldl_cons, List.foldl_nil, after, hprocess, hstart]
  rfl

theorem append_bracket (hstring : s.mEscapeState ≠ .rightSquareBracket)
    (hdecoded : s.mUTF8Mode = true → s.mUTF8ToFollow = 0) :
    append [27, 91] s = collecting s 0 (Vector.replicate maxEscapeParameters (-1)) := by
  have hescape := append_escape hstring hdecoded
  have happend : append [27, 91] s = after (process 91) (append [27] s) := rfl
  rw [happend, hescape, process_in_sequence (s := { s with
    mEscapeState := .esc
    mArgIndex := 0
    mArgs := Vector.replicate maxEscapeParameters (-1) }) hdecoded (by decide) rfl]
  rfl

section

variable {argIndex : Nat} {args : Vector Int maxEscapeParameters}
  (hdecoded : s.mUTF8Mode = true → s.mUTF8ToFollow = 0)

include hdecoded

theorem process_digit (d : Digit) :
    after (process (digitByte d)) (collecting s argIndex args) = collecting s argIndex
      (if h : argIndex < maxEscapeParameters then
        args.set argIndex (appendDigit args[argIndex] (digitByte d)) else args) := by
  have hbyte : 32 ≤ (digitByte d).toNat ∧ (digitByte d).toNat < 128 := by
    fin_cases d <;> decide
  have hparse : processInState (digitByte d)
      { collecting s argIndex args with mContinueSequence := false } =
        parseArg (digitByte d) { collecting s argIndex args with mContinueSequence := false } := by
    fin_cases d <;> rfl
  have hdigit : isDigit (digitByte d) = true := by
    fin_cases d <;> decide
  have hok : processInState (digitByte d)
      { collecting s argIndex args with mContinueSequence := false } = .ok ⟨⟩ (collecting s argIndex
      (if h : argIndex < maxEscapeParameters then
        args.set argIndex (appendDigit args[argIndex] (digitByte d)) else args)) := by
    rw [hparse]
    unfold parseArg
    rw [hdigit]
    rfl
  rw [process_in_sequence (s := collecting s argIndex args) hdecoded hbyte hok]
  rfl

theorem process_semicolon :
    after (process 59) (collecting s argIndex args) =
      collecting s (if argIndex < maxEscapeParameters then argIndex + 1 else argIndex) args := by
  rw [process_in_sequence (s := collecting s argIndex args) hdecoded (by decide) rfl]
  rfl

omit [Platform] hdecoded in
theorem appendDigit_digitByte (n : Int) (d : Digit) :
    appendDigit n (digitByte d) = if n < 0 then (d.val : Int) else wrap32 (10 * n + d.val) := by
  have hdigit : ((digitByte d).toNat : Int) - 48 = d.val := by
    revert d
    decide
  unfold appendDigit
  simp only [hdigit]
  by_cases hn : n < 0
  · rw [if_pos hn, if_neg (by omega)]
  · rw [if_neg hn, if_pos (by omega)]
    unfold iadd imul wrap32
    omega

/-- What the arguments are behind the bytes of some parameters. -/
structure Collected (args : Vector Int maxEscapeParameters) (argIndex : Nat)
    (parameters : List (List Digit)) (args' : Vector Int maxEscapeParameters) : Prop where
  front : ∀ (j : Nat) (hj : j < maxEscapeParameters), j < argIndex → args'[j] = args[j]
  rest : ∀ (j : Nat) (hj : j < maxEscapeParameters), argIndex ≤ j →
    args'[j] = intOfDigits (parameters.getD (j - argIndex) [])

/-- The digits of one parameter. -/
theorem append_digits (digits : List Digit)
    (hfresh : ∀ h : argIndex < maxEscapeParameters, args[argIndex] = -1) :
    append (digits.map digitByte) (collecting s argIndex args) = collecting s argIndex
      (if h : argIndex < maxEscapeParameters then
        args.set argIndex (intOfDigits digits) else args) := by
  induction digits using List.reverseRecOn with
  | nil =>
      by_cases h : argIndex < maxEscapeParameters
      · rw [dif_pos h]
        have hsame : args.set argIndex (intOfDigits []) = args := by
          have hminus : intOfDigits [] = args[argIndex] := (hfresh h).symm
          rw [hminus, Vector.set_getElem_self]
        rw [hsame]
        rfl
      · rw [dif_neg h]
        rfl
  | append_singleton digits d ih =>
      have hsplit : append ((digits ++ [d]).map digitByte) (collecting s argIndex args) =
          after (process (digitByte d))
            (append (digits.map digitByte) (collecting s argIndex args)) := by
        unfold append
        rw [List.map_append, List.foldl_append]
        rfl
      rw [hsplit, ih, process_digit hdecoded]
      by_cases h : argIndex < maxEscapeParameters
      · rw [dif_pos h, dif_pos h, dif_pos h, Vector.getElem_set_self, Vector.set_set,
          appendDigit_digitByte, intOfDigits_append]
      · rw [dif_neg h, dif_neg h, dif_neg h]

/-- The parameters from one on. -/
theorem append_parameters (parameters : List (List Digit))
    (hfresh : ∀ (j : Nat) (hj : j < maxEscapeParameters), argIndex ≤ j → args[j] = -1) :
    ∃ argIndex' args', append (parameterBytes parameters) (collecting s argIndex args) =
      collecting s argIndex' args' ∧ Collected args argIndex parameters args' := by
  induction parameters generalizing argIndex args with
  | nil =>
      refine ⟨argIndex, args, rfl, fun j hj _ => rfl, fun j hj hle => ?_⟩
      rw [hfresh j hj hle]
      rfl
  | cons digits rest ih =>
      have hdigits := append_digits hdecoded digits
        (fun h => hfresh argIndex h (Nat.le_refl _))
      generalize hargs : (if h : argIndex < maxEscapeParameters then
        args.set argIndex (intOfDigits digits) else args) = args' at hdigits
      have hone : ∀ (j : Nat) (hj : j < maxEscapeParameters),
          args'[j] = if j = argIndex then intOfDigits digits else args[j] := by
        intro j hj
        by_cases h : argIndex < maxEscapeParameters
        · rw [dif_pos h] at hargs
          subst hargs
          rw [Vector.getElem_set]
          simp only [eq_comm]
        · rw [dif_neg h] at hargs
          subst hargs
          rw [if_neg (by omega)]
      cases rest with
      | nil =>
          refine ⟨argIndex, args', hdigits, fun j hj hlt => ?_, fun j hj hle => ?_⟩
          · rw [hone, if_neg (by omega)]
          · rw [hone]
            by_cases h : j = argIndex
            · subst h
              rw [if_pos rfl, Nat.sub_self]
              rfl
            · rw [if_neg h, hfresh j hj hle, show j - argIndex = (j - argIndex - 1) + 1 by omega]
              rfl
      | cons next rest =>
          have hbytes : append (parameterBytes (digits :: next :: rest))
              (collecting s argIndex args) = append (parameterBytes (next :: rest))
                (after (process 59) (append (digits.map digitByte)
                  (collecting s argIndex args))) := by
            have hlist : parameterBytes (digits :: next :: rest) =
                digits.map digitByte ++ 59 :: parameterBytes (next :: rest) := rfl
            unfold append
            rw [hlist, List.foldl_append, List.foldl_cons]
          rw [hbytes, hdigits, process_semicolon hdecoded]
          by_cases h : argIndex < maxEscapeParameters
          · rw [if_pos h]
            obtain ⟨argIndex', args'', happend, hcollected⟩ := @ih (argIndex + 1) args' (fun j hj hle => by
                rw [hone, if_neg (by omega), hfresh j hj (by omega)])
            refine ⟨argIndex', args'', happend, fun j hj hlt => ?_, fun j hj hle => ?_⟩
            · rw [hcollected.front j hj (by omega), hone, if_neg (by omega)]
            · by_cases hj' : j = argIndex
              · subst hj'
                rw [hcollected.front j hj (by omega), hone, if_pos rfl, Nat.sub_self]
                rfl
              · rw [hcollected.rest j hj (by omega),
                  show j - argIndex = (j - (argIndex + 1)) + 1 by omega]
                rfl
          · rw [if_neg h]
            obtain ⟨argIndex', args'', happend, hcollected⟩ := @ih argIndex args' (fun j hj hle => by omega)
            refine ⟨argIndex', args'', happend, fun j hj hlt => ?_, fun j hj hle => by omega⟩
            rw [hcollected.front j hj hlt, hone, if_neg (by omega)]

end

/-! ## §5  Where the cursor goes -/

/-- Where a sequence with the arguments `n` and `m` puts the cursor. -/
def Addressing.landing (sequence : Addressing) (s : TerminalEmulator) (n m : Int) : Int × Int :=
  match sequence with
  | cursorUp => (max s.mTopMargin (isub s.mCursorRow n), s.mCursorCol)
  | cursorDown => (min (s.mBottomMargin - 1) (iadd s.mCursorRow n), s.mCursorCol)
  | cursorRight => (s.mCursorRow, min (s.mColumns - 1) (iadd s.mCursorCol n))
  | cursorLeft => (s.mCursorRow, max 0 (isub s.mCursorCol n))
  | cursorHorizontalAbsolute => (s.mCursorRow, min (max 1 n) s.mColumns - 1)
  | vertPositionAbsolute => (min (max 1 n) s.mRows - 1, s.mCursorCol)
  | cursorPosition | horizontalAndVerticalPosition =>
      (min (max s.addressedRows.1 (min (iadd s.addressedRows.1 (n - 1)) (s.addressedRows.2 - 1)))
        (s.mRows - 1), min (max 0 (min (m - 1) (s.mColumns - 1))) (s.mColumns - 1))
  | lowerLeftCorner => (min 0 (s.mRows - 1), min (s.mBottomMargin - 1) (s.mColumns - 1))

omit [Platform] in
theorem setCursorPosition_eq (x y : Int) :
    setCursorPosition x y s = .ok ⟨⟩ { s with
      mCursorRow := min (max s.addressedRows.1
        (min (iadd s.addressedRows.1 y) (s.addressedRows.2 - 1))) (s.mRows - 1)
      mCursorCol := min (max 0 (min x (s.mColumns - 1))) (s.mColumns - 1)
      mAboutToAutoWrap := false } := by
  unfold addressedRows
  by_cases horigin : s.mDecFlags &&& kOriginModeMask ≠ 0
  · rw [if_pos horigin]
    simp only [setCursorPosition, bind, EStateM.bind, get_apply, decide_eq_true horigin, if_true]
    rfl
  · rw [if_neg horigin]
    simp only [setCursorPosition, bind, EStateM.bind, get_apply, decide_eq_false horigin,
      Bool.false_eq_true, if_false]
    rfl

/-- The last byte of a sequence, from the arguments read so far. -/
theorem process_final {sequence : Addressing} (hsequence : sequence ≠ .lowerLeftCorner)
    (hdecoded : s.mUTF8Mode = true → s.mUTF8ToFollow = 0) (argIndex : Nat)
    (args : Vector Int maxEscapeParameters) :
    let t := after (process sequence.finalByte) (collecting s argIndex args)
    (t.mCursorRow, t.mCursorCol) = sequence.landing s
        (if args[0] ≤ 0 then 1 else args[0]) (if args[1] ≤ 0 then 1 else args[1]) ∧
      t.mScreen = s.mScreen := by
  intro t
  obtain ⟨u, hu, hlanding, hscreen, hcontinue⟩ : ∃ u,
      processInState sequence.finalByte
        { collecting s argIndex args with mContinueSequence := false } = .ok ⟨⟩ u ∧
      (u.mCursorRow, u.mCursorCol) = sequence.landing s
        (if args[0] ≤ 0 then 1 else args[0]) (if args[1] ≤ 0 then 1 else args[1]) ∧
      u.mScreen = s.mScreen ∧ u.mContinueSequence = false := by
    cases sequence with
    | lowerLeftCorner => exact absurd rfl hsequence
    | cursorUp => exact ⟨_, rfl, rfl, rfl, rfl⟩
    | cursorDown => exact ⟨_, rfl, rfl, rfl, rfl⟩
    | cursorRight => exact ⟨_, rfl, rfl, rfl, rfl⟩
    | cursorLeft => exact ⟨_, rfl, rfl, rfl, rfl⟩
    | cursorHorizontalAbsolute => exact ⟨_, rfl, rfl, rfl, rfl⟩
    | vertPositionAbsolute => exact ⟨_, rfl, rfl, rfl, rfl⟩
    | cursorPosition => exact ⟨_, setCursorPosition_eq _ _, rfl, rfl, rfl⟩
    | horizontalAndVerticalPosition => exact ⟨_, setCursorPosition_eq _ _, rfl, rfl, rfl⟩
  have hbyte : 32 ≤ sequence.finalByte.toNat ∧ sequence.finalByte.toNat < 128 := by
    cases sequence <;> decide
  have ht : t = _ := process_in_sequence (s := collecting s argIndex args) hdecoded hbyte hu
  rw [hcontinue] at ht
  rw [ht]
  exact ⟨hlanding, hscreen⟩

/-- A whole sequence. -/
theorem append_bytes (h : Addressable s) (sequence : Addressing)
    (parameters : List (List Digit)) :
    let t := append (sequence.bytes parameters) s
    (t.mCursorRow, t.mCursorCol) =
        sequence.landing s (intParameter parameters 0) (intParameter parameters 1) ∧
      t.mScreen = s.mScreen := by
  intro t
  by_cases hsequence : sequence = .lowerLeftCorner
  · subst hsequence
    have ht : t = after (process 70) (append [27] s) := rfl
    rw [ht, append_escape h.noString h.decoded, process_in_sequence (s := { s with
      mEscapeState := .esc
      mArgIndex := 0
      mArgs := Vector.replicate maxEscapeParameters (-1) }) h.decoded (by decide) rfl]
    exact ⟨rfl, rfl⟩
  · have hbytes : sequence.bytes parameters =
        [27, 91] ++ (parameterBytes parameters ++ [sequence.finalByte]) := by
      cases sequence <;> first | rfl | exact absurd rfl hsequence
    obtain ⟨argIndex, args, hparameters, hcollected⟩ : ∃ argIndex args,
        append (parameterBytes parameters)
          (collecting s 0 (Vector.replicate maxEscapeParameters (-1))) =
            collecting s argIndex args ∧
          Collected (Vector.replicate maxEscapeParameters (-1)) 0 parameters args :=
      append_parameters h.decoded parameters (fun j hj _ => Vector.getElem_replicate _)
    have ht : t = after (process sequence.finalByte) (collecting s argIndex args) := by
      show append (sequence.bytes parameters) s = _
      rw [← hparameters, ← append_bracket h.noString h.decoded, hbytes]
      unfold append
      rw [List.foldl_append, List.foldl_append]
      rfl
    obtain ⟨hlanding, hscreen⟩ := process_final hsequence h.decoded argIndex args
    rw [ht]
    refine ⟨?_, hscreen⟩
    rw [hlanding, hcollected.rest 0 (by decide) (Nat.zero_le _),
      hcollected.rest 1 (by decide) (Nat.zero_le _)]
    rfl

/-! ## §6  When that is the right place -/

/-- What is left of a parameter in an `int` still reaches a limit that the number goes beyond. -/
def Reaches (parameters : List (List Digit)) (i : Nat) (limit : Int) : Prop :=
  parameter parameters i ≤ intMax ∨ limit ≤ intParameter parameters i

/-- The parameters that a sequence is right for: none of them, and no sum with one, is too
large for an `int`, or the cursor stops at the same margin all the same. -/
def Addressing.IsRight (sequence : Addressing) (parameters : List (List Digit))
    (s : TerminalEmulator) : Prop :=
  match sequence with
  | cursorUp => Reaches parameters 0 (s.mCursorRow - s.mTopMargin)
  | cursorDown => s.mCursorRow + intParameter parameters 0 ≤ intMax ∧
      Reaches parameters 0 (s.mBottomMargin - 1 - s.mCursorRow)
  | cursorRight => s.mCursorCol + intParameter parameters 0 ≤ intMax ∧
      Reaches parameters 0 (s.mColumns - 1 - s.mCursorCol)
  | cursorLeft => Reaches parameters 0 s.mCursorCol
  | cursorHorizontalAbsolute => Reaches parameters 0 s.mColumns
  | vertPositionAbsolute => Reaches parameters 0 s.mRows
  | cursorPosition | horizontalAndVerticalPosition =>
      (s.addressedRows.2 = s.addressedRows.1 + 1 ∨
        s.addressedRows.1 + intParameter parameters 0 - 1 ≤ intMax ∧
          Reaches parameters 0 (s.addressedRows.2 - s.addressedRows.1)) ∧
      Reaches parameters 1 s.mColumns
  | lowerLeftCorner => s.mRows = 1

omit [Platform] in
theorem addressedRows_range (h : Addressable s) :
    (0 ≤ s.addressedRows.1 ∧ s.addressedRows.1 < s.addressedRows.2) ∧
      s.addressedRows.2 ≤ s.mRows := by
  obtain ⟨htop, hmargins, hbottom⟩ := h.margins
  unfold addressedRows
  split_ifs
  · exact ⟨⟨htop, hmargins⟩, hbottom⟩
  · exact ⟨⟨Int.le_refl 0, by have := h.cursorRow; show 0 < s.mRows; omega⟩, Int.le_refl _⟩

omit [Platform] in
theorem landing_iff (h : Addressable s) (sequence : Addressing)
    (parameters : List (List Digit)) :
    sequence.landing s (intParameter parameters 0) (intParameter parameters 1) =
        sequence.target s (parameter parameters 0) (parameter parameters 1) ↔
      sequence.IsRight parameters s := by
  obtain ⟨hrow, hrow'⟩ := h.cursorRow
  obtain ⟨hcol, hcol'⟩ := h.cursorCol
  obtain ⟨htop, hmargins, hbottom⟩ := h.margins
  obtain ⟨hrows, hcolumns⟩ := h.sizes
  have hone (i : Nat) : 1 ≤ intParameter parameters i := (intParameter_range i).1
  have hclamped : sequence.landing s (intParameter parameters 0) (intParameter parameters 1) =
      sequence.target s (parameter parameters 0) (parameter parameters 1) ↔ _ := Prod.ext_iff
  have hposition : (min (max s.addressedRows.1 (min (iadd s.addressedRows.1
        (intParameter parameters 0 - 1)) (s.addressedRows.2 - 1))) (s.mRows - 1) =
      min (s.addressedRows.1 + parameter parameters 0 - 1) (s.addressedRows.2 - 1) ∧
      min (max 0 (min (intParameter parameters 1 - 1) (s.mColumns - 1))) (s.mColumns - 1) =
        min (parameter parameters 1 - 1) (s.mColumns - 1)) ↔
      Addressing.cursorPosition.IsRight parameters s := by
    obtain ⟨haddressed, hwithin⟩ := addressedRows_range h
    have hcolumn : min (max 0 (min (intParameter parameters 1 - 1) (s.mColumns - 1)))
        (s.mColumns - 1) = min (intParameter parameters 1) s.mColumns - 1 := by
      have := hone 1
      omega
    rw [hcolumn]
    exact and_congr
      (clampedRow_iff (intParameter_range 0) (one_le_parameter 0) intParameter_eq haddressed hwithin
        hrows)
      (min_pred_iff intParameter_eq hcolumns)
  have hfirst : max 1 (intParameter parameters 0) = intParameter parameters 0 := by
    have := hone 0
    omega
  rw [hclamped]
  cases sequence with
  | cursorUp =>
      exact (and_iff_left rfl).trans (max_isub_iff ⟨hrow, by omega⟩ (intParameter_range 0)
        intParameter_eq htop)
  | cursorDown =>
      exact (and_iff_left rfl).trans (min_iadd_iff ⟨hrow, by omega⟩ (intParameter_range 0)
        intParameter_eq ⟨by omega, by omega⟩)
  | cursorRight =>
      exact (and_iff_right rfl).trans (min_iadd_iff ⟨hcol, by omega⟩ (intParameter_range 0)
        intParameter_eq ⟨by omega, by omega⟩)
  | cursorLeft =>
      refine (and_iff_right rfl).trans ((max_isub_iff ⟨hcol, by omega⟩ (intParameter_range 0)
        intParameter_eq (Int.le_refl 0)).trans ?_)
      rw [Int.sub_zero]
      rfl
  | cursorHorizontalAbsolute =>
      refine (and_iff_right rfl).trans ?_
      show min (max 1 (intParameter parameters 0)) s.mColumns - 1 = _ ↔ _
      rw [hfirst]
      exact min_pred_iff intParameter_eq hcolumns
  | vertPositionAbsolute =>
      refine (and_iff_left rfl).trans ?_
      show min (max 1 (intParameter parameters 0)) s.mRows - 1 = _ ↔ _
      rw [hfirst]
      exact min_pred_iff intParameter_eq hrows
  | cursorPosition => exact hposition
  | horizontalAndVerticalPosition => exact hposition
  | lowerLeftCorner =>
      show min 0 (s.mRows - 1) = s.mRows - 1 ∧ min (s.mBottomMargin - 1) (s.mColumns - 1) = 0 ↔
        s.mRows = 1
      constructor
      · rintro ⟨h, _⟩
        omega
      · intro h
        exact ⟨by omega, by omega⟩

/-- **Cursor addressing.**  Exactly for the parameters and the screens of `IsRight` a sequence
goes where it is documented to go. -/
theorem cursor_addressing_iff (h : Addressable s) (sequence : Addressing)
    (parameters : List (List Digit)) :
    sequence.Meets parameters s ↔ sequence.IsRight parameters s := by
  obtain ⟨hlanding, hscreen⟩ := append_bytes h sequence parameters
  unfold Addressing.Meets
  simp only [hlanding, hscreen, and_true]
  exact landing_iff h sequence parameters

instance (s : TerminalEmulator) : Decidable (Addressable s) :=
  decidable_of_iff
    ((0 ≤ s.mCursorRow ∧ s.mCursorRow < s.mRows) ∧ (0 ≤ s.mCursorCol ∧ s.mCursorCol < s.mColumns) ∧
      (0 ≤ s.mTopMargin ∧ s.mTopMargin < s.mBottomMargin ∧ s.mBottomMargin ≤ s.mRows) ∧
      (s.mRows ≤ intMax ∧ s.mColumns ≤ intMax) ∧ s.mEscapeState ≠ .rightSquareBracket ∧
      (s.mUTF8Mode = true → s.mUTF8ToFollow = 0))
    ⟨fun ⟨h1, h2, h3, h4, h5, h6⟩ => ⟨h1, h2, h3, h4, h5, h6⟩,
      fun ⟨h1, h2, h3, h4, h5, h6⟩ => ⟨h1, h2, h3, h4, h5, h6⟩⟩

omit [Platform] in
/-- `ESC [ 7 B` and `ESC F` in a new emulator. -/
theorem cursor_addressing_iff_create : let _ := samplePlatform
    ∃ s, create 2 4 2 = .ok s ∧
      (Addressing.cursorDown.Meets [[7]] s ↔ Addressing.cursorDown.IsRight [[7]] s) := by
  let _ := samplePlatform
  have hcreated : (create 2 4 2).map (fun s => decide (Addressable s)) = .ok true := by
    decide +kernel
  cases hcreate : create 2 4 2 with
  | error e =>
      rw [hcreate] at hcreated
      cases hcreated
  | ok s =>
      rw [hcreate] at hcreated
      exact ⟨s, hcreate, cursor_addressing_iff (of_decide_eq_true (Except.ok.inj hcreated)) _ _⟩

omit [Platform] in
theorem lower_left_corner_missed : let _ := samplePlatform
    ∃ s, create 2 4 2 = .ok s ∧ Addressable s ∧ ¬ Addressing.lowerLeftCorner.Meets [] s := by
  let _ := samplePlatform
  have hcreated : (create 2 4 2).map (fun s => (decide (Addressable s),
      (append (Addressing.lowerLeftCorner.bytes []) s).mCursorRow, s.mRows)) =
        .ok (true, 0, 2) := by
    decide +kernel
  cases hcreate : create 2 4 2 with
  | error e =>
      rw [hcreate] at hcreated
      cases hcreated
  | ok s =>
      rw [hcreate] at hcreated
      obtain ⟨haddressable, hcursor, hrows⟩ : _ ∧ _ ∧ _ := by
        simpa only [Except.map, Except.ok.injEq, Prod.mk.injEq] using hcreated
      refine ⟨s, hcreate, of_decide_eq_true haddressable, fun hmeets => ?_⟩
      have hrow : (append (Addressing.lowerLeftCorner.bytes []) s).mCursorRow = s.mRows - 1 :=
        (Prod.ext_iff.mp hmeets.1).1
      omega

end Kbox.Emulatorview.TerminalEmulator
