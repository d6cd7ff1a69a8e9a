import Mathlib.Tactic.IntervalCases
import Kbox.Emulatorview.TextStyle
import Kbox.Framework.Keeps

/-!
# Styles and style rows, read back

`encode` packs its three fields side by side, so each is read back as it was
given, and the 24 bits of a style survive the three bytes of a `StyleRow`.
`StyleRow.Holds P` is what a row of styles satisfying `P` keeps through every
method.
-/

namespace Kbox.Emulatorview

open Kbox.Framework

/-! ## §1  The fields of a style -/

namespace TextStyle

/-- What is left of a style in the three bytes of a `StyleRow`. -/
def narrow (style : Style) : Style := style &&& 0xffffff

theorem toInt_index {x : Int} (h0 : 0 ≤ x) (h512 : x < 512) :
    (BitVec.ofInt 32 x &&& 0x1ff).toInt = x := by
  have hx : (BitVec.ofInt 32 x &&& 0x1ff).toNat = x.toNat := by
    rw [BitVec.toNat_and, BitVec.toNat_ofInt, show (0x1ff : BitVec 32).toNat = 2 ^ 9 - 1 from rfl,
      Nat.and_two_pow_sub_one_eq_mod]
    omega
  rw [BitVec.toInt_eq_toNat_of_lt (by omega), hx]
  omega

theorem decodeEffect_encode (foreColor backColor : Int) (effect : BitVec 32) :
    decodeEffect (encode foreColor backColor effect) = effect &&& 0x3f := by
  unfold decodeEffect encode
  ext i hi
  interval_cases i <;> simp [BitVec.getElem_sshiftRight]

theorem decodeForeColor_encode {foreColor : Int} (backColor : Int) (effect : BitVec 32)
    (h0 : 0 ≤ foreColor) (h512 : foreColor < 512) :
    decodeForeColor (encode foreColor backColor effect) = foreColor := by
  have hbits : (encode foreColor backColor effect).sshiftRight 9 &&& 0x1ff =
      BitVec.ofInt 32 foreColor &&& 0x1ff := by
    unfold encode
    ext i hi
    interval_cases i <;> simp [BitVec.getElem_sshiftRight]
  unfold decodeForeColor
  rw [hbits, toInt_index h0 h512]

theorem decodeBackColor_encode (foreColor : Int) {backColor : Int} (effect : BitVec 32)
    (h0 : 0 ≤ backColor) (h512 : backColor < 512) :
    decodeBackColor (encode foreColor backColor effect) = backColor := by
  have hbits : encode foreColor backColor effect &&& 0x1ff =
      BitVec.ofInt 32 backColor &&& 0x1ff := by
    unfold encode
    ext i hi
    interval_cases i <;> simp
  unfold decodeBackColor
  rw [hbits, toInt_index h0 h512]

theorem narrow_encode (foreColor backColor : Int) (effect : BitVec 32) :
    narrow (encode foreColor backColor effect) = encode foreColor backColor effect := by
  unfold narrow encode
  ext i hi
  interval_cases i <;> simp

end TextStyle

namespace StyleRow

/-! ## §2  Three bytes to a column -/

def unpack (b₀ b₁ b₂ : JByte) : Style :=
  b₀.setWidth 32 ||| (b₁.setWidth 32 <<< 8) ||| (b₂.setWidth 32 <<< 16)

theorem unpack_styleBytes (style : Style) :
    unpack (style.setWidth 8) ((style.sshiftRight 8).setWidth 8)
      ((style.sshiftRight 16).setWidth 8) = TextStyle.narrow style := by
  unfold unpack TextStyle.narrow
  ext i hi
  interval_cases i <;> simp [BitVec.getElem_sshiftRight]

theorem getStyle_ok_iff {data : List JByte} {column : Int} {style : Style} :
    getStyle data column = .ok style ↔ 0 ≤ column ∧ ∃ b₀ b₁ b₂,
      data[3 * column.toNat]? = some b₀ ∧ data[3 * column.toNat + 1]? = some b₁ ∧
        data[3 * column.toNat + 2]? = some b₂ ∧ style = unpack b₀ b₁ b₂ := by
  have h0 : 0 ≤ column → (3 * column).toNat = 3 * column.toNat ∧
      (3 * column + 1).toNat = 3 * column.toNat + 1 ∧
      (3 * column + 2).toNat = 3 * column.toNat + 2 := by omega
  unfold getStyle
  constructor
  · intro h
    cases h₀ : arrayGet (Exn.arrayIndexOutOfBounds .mColor) data (3 * column) with
    | error e =>
        rw [h₀] at h
        cases h
    | ok b₀ =>
        cases h₁ : arrayGet (Exn.arrayIndexOutOfBounds .mColor) data (3 * column + 1) with
        | error e =>
            rw [h₀, h₁] at h
            cases h
        | ok b₁ =>
            cases h₂ : arrayGet (Exn.arrayIndexOutOfBounds .mColor) data (3 * column + 2) with
            | error e =>
                rw [h₀, h₁, h₂] at h
                cases h
            | ok b₂ =>
                rw [h₀, h₁, h₂] at h
                cases h
                obtain ⟨hpos, h₀⟩ := arrayGet_ok_iff.mp h₀
                obtain ⟨_, h₁⟩ := arrayGet_ok_iff.mp h₁
                obtain ⟨_, h₂⟩ := arrayGet_ok_iff.mp h₂
                have hcol : 0 ≤ column := by omega
                obtain ⟨e₀, e₁, e₂⟩ := h0 hcol
                rw [e₀] at h₀
                rw [e₁] at h₁
                rw [e₂] at h₂
                exact ⟨hcol, b₀, b₁, b₂, h₀, h₁, h₂, rfl⟩
  · rintro ⟨hcol, b₀, b₁, b₂, h₀, h₁, h₂, rfl⟩
    obtain ⟨e₀, e₁, e₂⟩ := h0 hcol
    rw [arrayGet_ok_iff.mpr ⟨by omega, e₀ ▸ h₀⟩, arrayGet_ok_iff.mpr ⟨by omega, e₁ ▸ h₁⟩,
      arrayGet_ok_iff.mpr ⟨by omega, e₂ ▸ h₂⟩]
    rfl

/-- A column is read from its own three bytes. -/
theorem getStyle_congr {data data' : List JByte} {x x' : Nat}
    (h : ∀ i < 3, data'[3 * x' + i]? = data[3 * x + i]?) (style : Style) :
    getStyle data' x' = .ok style ↔ getStyle data x = .ok style := by
  have h0 := h 0 (by decide)
  have h1 := h 1 (by decide)
  have h2 := h 2 (by decide)
  rw [Nat.add_zero, Nat.add_zero] at h0
  rw [getStyle_ok_iff, getStyle_ok_iff]
  simp only [Int.toNat_natCast, Int.natCast_nonneg, true_and, h0, h1, h2]

theorem length_styleBytes (style : Style) : (styleBytes style).length = 3 := rfl

/-- Writing a column of allocated data. -/
theorem getStyle_splice {data : List JByte} {column : Nat} (value : Style)
    (h : 3 * column + 3 ≤ data.length) (x : Nat) (style : Style) :
    getStyle (splice data (3 * column) (styleBytes value)) x = .ok style ↔
      if x = column then style = TextStyle.narrow value else getStyle data x = .ok style := by
  have hread (i : Nat) : (splice data (3 * column) (styleBytes value))[i]? =
      if 3 * column ≤ i ∧ i < 3 * column + 3 then (styleBytes value)[i - 3 * column]?
      else data[i]? := getElem?_splice h i
  by_cases hx : x = column
  · subst hx
    rw [if_pos rfl, getStyle_ok_iff]
    simp only [Int.toNat_natCast, hread]
    rw [if_pos (by omega), if_pos (by omega), if_pos (by omega), Nat.sub_self,
      Nat.add_sub_cancel_left, Nat.add_sub_cancel_left]
    constructor
    · rintro ⟨_, b₀, b₁, b₂, h₀, h₁, h₂, rfl⟩
      cases h₀
      cases h₁
      cases h₂
      exact unpack_styleBytes value
    · rintro rfl
      exact ⟨Int.natCast_nonneg _, _, _, _, rfl, rfl, rfl, (unpack_styleBytes value).symm⟩
  · rw [if_neg hx]
    apply getStyle_congr
    intro i hi
    rw [hread, if_neg (by omega)]

/-- A freshly allocated row repeats one style. -/
theorem getElem?_flatten_replicate (style : Style) (columns i : Nat) :
    (List.replicate columns (styleBytes style)).flatten[i]? =
      if i < 3 * columns then (styleBytes style)[i % 3]? else none := by
  induction columns generalizing i with
  | zero => rfl
  | succ n ih =>
      rw [List.replicate_succ, List.flatten_cons, List.getElem?_append, length_styleBytes]
      by_cases hi : i < 3
      · rw [if_pos hi, if_pos (by omega), Nat.mod_eq_of_lt hi]
      · rw [if_neg hi, ih, ← Nat.mod_eq_sub_mod (by omega)]
        by_cases hlt : i < 3 * (n + 1)
        · rw [if_pos hlt, if_pos (by omega)]
        · rw [if_neg hlt, if_neg (by omega)]

theorem length_flatten_replicate (style : Style) (columns : Nat) :
    (List.replicate columns (styleBytes style)).flatten.length = 3 * columns := by
  induction columns with
  | zero => rfl
  | succ n ih =>
      rw [List.replicate_succ, List.flatten_cons, List.length_append, ih, length_styleBytes]
      omega

theorem getStyle_flatten_replicate {style : Style} {columns x : Nat} (h : x < columns) :
    getStyle (List.replicate columns (styleBytes style)).flatten x =
      .ok (TextStyle.narrow style) := by
  rw [getStyle_ok_iff]
  simp only [Int.toNat_natCast, getElem?_flatten_replicate]
  rw [if_pos (by omega), if_pos (by omega), if_pos (by omega), Nat.mul_mod_right,
    Nat.mul_add_mod, Nat.mul_add_mod]
  exact ⟨Int.natCast_nonneg _, _, _, _, rfl, rfl, rfl, (unpack_styleBytes style).symm⟩

/-! ## §3  Rows of styles in `P` -/

/-- Allocated data for `columns` styles, all of them in `P`. -/
def Cells (P : Style → Prop) (columns : Nat) (data : List JByte) : Prop :=
  data.length = 3 * columns ∧ ∀ x < columns, ∃ style, getStyle data x = .ok style ∧ P style

/-- A row of `columns` styles, all of them in `P`. -/
structure Holds (P : Style → Prop) (columns : Nat) (r : StyleRow) : Prop where
  width : r.mColumns = columns
  base : P r.mStyle
  cells : ∀ data, r.mData = some data → Cells P columns data

variable {P : Style → Prop} {columns : Nat} {r dst : StyleRow}

theorem holds_create {style : Style} (h : P style) : (create style columns).Holds P columns where
  width := rfl
  base := h
  cells := by
    intro data hdata
    cases hdata

theorem Holds.with_data (h : r.Holds P columns) {data : List JByte}
    (hdata : Cells P columns data) : StyleRow.Holds P columns { r with mData := some data } where
  width := h.width
  base := h.base
  cells := by
    rintro _ ⟨⟩
    exact hdata

/-- The data that `ensureData` leaves. -/
theorem Holds.cells_data (h : r.Holds P columns)
    (hP : ∀ style, P style → P (TextStyle.narrow style)) : Cells P columns r.data := by
  unfold StyleRow.data
  cases hdata : r.mData with
  | some data => exact h.cells data hdata
  | none =>
      rw [Option.getD_none, h.width]
      refine ⟨length_flatten_replicate _ _, fun x hx => ?_⟩
      exact ⟨_, getStyle_flatten_replicate hx, hP _ h.base⟩

theorem Cells.write {data : List JByte} (h : Cells P columns data) {column : Nat}
    {value : Style} (hcol : column < columns) (hvalue : P (TextStyle.narrow value)) :
    Cells P columns (splice data (3 * column) (styleBytes value)) := by
  have hlen := h.1
  have hfit : 3 * column + 3 ≤ data.length := by omega
  refine ⟨(length_splice hfit).trans hlen, fun x hx => ?_⟩
  obtain ⟨style, hstyle, hPstyle⟩ := h.2 x hx
  by_cases hxc : x = column
  · exact ⟨_, (getStyle_splice value hfit x _).mpr (by rw [if_pos hxc]), hvalue⟩
  · exact ⟨style, (getStyle_splice value hfit x _).mpr (by rw [if_neg hxc]; exact hstyle), hPstyle⟩

/-- A stretch of columns copied between rows. -/
theorem Cells.copy {src data : List JByte} (hsrc : Cells P columns src)
    (hdata : Cells P columns data) {start offset len : Nat} (hs : start + len ≤ columns)
    (ho : offset + len ≤ columns) :
    Cells P columns (splice data (3 * offset) (stretch src (3 * start) (3 * len))) := by
  have hl := hsrc.1
  have hl' := hdata.1
  have hp : 3 * offset + 3 * len ≤ data.length := by omega
  have hq : 3 * start + 3 * len ≤ src.length := by omega
  refine ⟨(length_splice_stretch hp hq).trans hl', fun x hx => ?_⟩
  have hread := getElem?_splice_stretch hp hq
  by_cases hin : offset ≤ x ∧ x < offset + len
  · obtain ⟨style, hstyle, hPstyle⟩ := hsrc.2 (start + (x - offset)) (by omega)
    refine ⟨style, (getStyle_congr (fun i hi => ?_) style).mpr hstyle, hPstyle⟩
    rw [hread, if_pos (by omega)]
    congr 1
    omega
  · obtain ⟨style, hstyle, hPstyle⟩ := hdata.2 x hx
    refine ⟨style, (getStyle_congr (fun i hi => ?_) style).mpr hstyle, hPstyle⟩
    rw [hread, if_neg (by omega)]

/-- What `setStyle` does to allocated data, or to the data it allocates. -/
theorem wp_setStyle {column : Int} {value : Style} (h : Cells P columns r.data)
    {Q : Unit → StyleRow → Prop} {E : Exn → StyleRow → Prop} :
    wp (setStyle column value) Q E r ↔
      (0 ≤ column ∧ column < columns →
        Q () { r with mData := some (splice r.data (3 * column.toNat) (styleBytes value)) }) ∧
      (¬ (0 ≤ column ∧ column < columns) → E (.arrayIndexOutOfBounds .mColor) r) := by
  have hlen := h.1
  unfold setStyle
  simp only [wp_bind, wp_get]
  by_cases hin : 0 ≤ column ∧ column < columns
  · have hcopy : arraycopy (Exn.arrayIndexOutOfBounds .mColor) (styleBytes value) 0 r.data
        (3 * column) 3 = .ok (splice r.data (3 * column.toNat) (styleBytes value)) := by
      unfold arraycopy
      rw [if_neg (by rw [length_styleBytes]; omega),
        show (3 * column).toNat = 3 * column.toNat by omega]
      rfl
    simp only [hcopy, wp_checked_ok, wp_set, hin, and_self, true_implies, not_true_eq_false,
      false_implies, and_true]
  · have hcopy : arraycopy (Exn.arrayIndexOutOfBounds .mColor) (styleBytes value) 0 r.data
        (3 * column) 3 = .error (.arrayIndexOutOfBounds .mColor) := by
      unfold arraycopy
      rw [if_pos (by rw [length_styleBytes]; omega)]
    simp only [hcopy, wp_checked_error, hin, false_implies, true_and, not_false_eq_true,
      true_implies]

/-- Reading a column of a row. -/
theorem Holds.get (h : r.Holds P columns) {x : Nat} (hx : x < columns) :
    ∃ style, r.get x = .ok style ∧ P style := by
  unfold StyleRow.get
  cases hdata : r.mData with
  | none => exact ⟨_, rfl, h.base⟩
  | some data => exact (h.cells data hdata).2 x hx

theorem Holds.of_get (h : r.Holds P columns) {column : Int} {style : Style}
    (hget : r.get column = .ok style) : P style := by
  unfold StyleRow.get at hget
  cases hdata : r.mData with
  | none =>
      rw [hdata] at hget
      cases hget
      exact h.base
  | some data =>
      rw [hdata] at hget
      obtain ⟨hlen, hcells⟩ := h.cells data hdata
      obtain ⟨hpos, _, _, b₂, _, _, h₂, _⟩ := getStyle_ok_iff.mp hget
      have hlt := (List.getElem?_eq_some_iff.mp h₂).1
      obtain ⟨style', hstyle', hP⟩ := hcells column.toNat (by omega)
      rw [Int.toNat_of_nonneg hpos] at hstyle'
      have hsame : Except.ok style' = (Except.ok style : Except Exn Style) :=
        hstyle'.symm.trans hget
      cases hsame
      exact hP

/-- `set` writes the column and no other. -/
theorem wp_set_style {column : Int} {value : Style} (h : r.Holds P columns)
    (hP : ∀ style, P style → P (TextStyle.narrow style)) (hvalue : P value) :
    wp (StyleRow.set column value)
      (fun _ r' => r'.Holds P columns ∧
        (TextStyle.narrow value = value → r'.get column = .ok value) ∧
        ∀ x : Nat, x < columns → (x : Int) ≠ column → ∀ style, TextStyle.narrow style = style →
          r.get x = .ok style → r'.get x = .ok style)
      (fun _ r' => r'.Holds P columns) r := by
  have hcells := h.cells_data hP
  unfold StyleRow.set
  simp only [wp_bind, wp_get, wp_ite, wp_pure]
  refine ⟨fun hsame => ⟨h, fun _ => ?_, fun _ _ _ _ _ hx => hx⟩, fun hdiff => ?_⟩
  · unfold StyleRow.get
    rw [hsame.2, hsame.1]
  · have hdata : StyleRow.data { r with mData := some r.data } = r.data := rfl
    unfold ensureData
    rw [wp_modify, wp_setStyle (by rw [hdata]; exact hcells), hdata]
    refine ⟨fun hin => ⟨?_, fun hnarrow => ?_, fun x hx hne style hnarrow hget => ?_⟩, fun _ => ?_⟩
    · exact h.with_data (hcells.write (by omega) (hP _ hvalue))
    · obtain ⟨c, rfl⟩ := Int.eq_ofNat_of_zero_le hin.1
      have hfit : 3 * c + 3 ≤ r.data.length := by
        have := hcells.1
        omega
      exact (getStyle_splice value hfit c value).mpr (by rw [if_pos rfl, hnarrow])
    · obtain ⟨c, rfl⟩ := Int.eq_ofNat_of_zero_le hin.1
      have hfit : 3 * c + 3 ≤ r.data.length := by
        have := hcells.1
        omega
      refine (getStyle_splice value hfit x style).mpr ?_
      rw [if_neg (by omega)]
      unfold StyleRow.get at hget
      unfold StyleRow.data
      cases hm : r.mData with
      | some data =>
          rw [hm] at hget
          exact hget
      | none =>
          rw [hm] at hget
          cases hget
          rw [Option.getD_none, h.width, getStyle_flatten_replicate hx, hnarrow]
    · exact h.with_data hcells

theorem keeps_set {column : Int} {value : Style}
    (hP : ∀ style, P style → P (TextStyle.narrow style)) (hvalue : P value) :
    Keeps (StyleRow.Holds P columns) (StyleRow.set column value) := by
  intro r h
  exact wp_mono (wp_set_style h hP hvalue) (fun _ _ hr => hr.1) (fun _ _ hr => hr)

theorem Holds.copyTo {r' dst' : StyleRow} {start offset len : Int} (h : r.Holds P columns)
    (hdst : dst.Holds P columns) (hP : ∀ style, P style → P (TextStyle.narrow style))
    (hcopy : r.copyTo dst start offset len = .ok (r', dst')) :
    r'.Holds P columns ∧ dst'.Holds P columns := by
  unfold StyleRow.copyTo at hcopy
  by_cases hlazy : r.mData = none ∧ dst.mData = none ∧ start = 0 ∧ offset = 0 ∧ len = r.mColumns
  · rw [if_pos hlazy] at hcopy
    cases hcopy
    refine ⟨h, hdst.width, h.base, fun data hdata => ?_⟩
    rw [hlazy.2.1] at hdata
    cases hdata
  · rw [if_neg hlazy] at hcopy
    have hcells := h.cells_data hP
    have hcells' := hdst.cells_data hP
    have hlen := hcells.1
    have hlen' := hcells'.1
    unfold arraycopy at hcopy
    by_cases hout : 3 * start < 0 ∨ 3 * offset < 0 ∨ 3 * len < 0 ∨
        r.data.length < 3 * start + 3 * len ∨ dst.data.length < 3 * offset + 3 * len
    · rw [if_pos hout] at hcopy
      cases hcopy
    · rw [if_neg hout] at hcopy
      cases hcopy
      refine ⟨h.with_data hcells, hdst.with_data ?_⟩
      obtain ⟨a, rfl⟩ := Int.eq_ofNat_of_zero_le (show 0 ≤ start by omega)
      obtain ⟨b, rfl⟩ := Int.eq_ofNat_of_zero_le (show 0 ≤ offset by omega)
      obtain ⟨n, rfl⟩ := Int.eq_ofNat_of_zero_le (show 0 ≤ len by omega)
      have hwhole := hcells.copy hcells' (show a + n ≤ columns by omega)
        (show b + n ≤ columns by omega)
      rw [show (3 * (a : Int)).toNat = 3 * a by omega, show (3 * (b : Int)).toNat = 3 * b by omega,
        show (3 * (n : Int)).toNat = 3 * n by omega]
      exact hwhole

end StyleRow

end Kbox.Emulatorview
