import Kbox.Emulatorview.DrawnRows
import Kbox.Emulatorview.Extraction

/-!
# Extracting text from the screen

`internalGetTranscriptText` goes over the rows of a selection and appends what
each of them gives.  A row gives everything that its selected columns hold up
to the last printing unit, in whole code points and one style for each, exactly
when its loops reach that unit.
-/

namespace Kbox.Emulatorview

open Kbox.Framework

/-! ## §1  What columns hold -/

namespace FullUnicodeLine

/-- Where the text of the columns in front of `x` ends. -/
def endOfColumns (line : FullUnicodeLine) (x : Int) : Except Exn Int :=
  if x < line.mColumns then line.findStartOfColumn x else line.getSpaceUsed

/-- Both columns of a wide character start at the same index, so `x` is the second one. -/
def cutsWide (line : FullUnicodeLine) (x : Int) : Bool :=
  x < line.mColumns ∧ line.findStartOfColumn x = line.findStartOfColumn (x - 1)

end FullUnicodeLine

/-- The text that is stored in the columns `[x1, x2)` of a slot.  The second part is that of
a wide character in the last of them, whose text the offsets have in column `x2`. -/
inductive Stores : Option Line → Int → Int → List JChar → List JChar → Prop
  | blank {x1 x2 : Int} : Stores none x1 x2 [] []
  | basic {text : List JChar} {start n : Nat} : start + n ≤ text.length →
      Stores (some (.basic text)) start (start + n : Nat) (stretch text start n) []
  | full {line : FullUnicodeLine} {x1 x2 : Int} {start n m : Nat} :
      line.findStartOfColumn x1 = .ok (start : Int) →
      line.endOfColumns x2 = .ok ((start + n : Nat) : Int) →
      line.endOfColumns (if line.cutsWide x2 then x2 + 1 else x2) =
        .ok ((start + n + m : Nat) : Int) →
      start + n + m ≤ line.mText.length →
      Stores (some (.full line)) x1 x2 (stretch line.mText start n)
        (stretch line.mText (start + n) m)

namespace UnicodeTranscript

/-- What the three arrays hold for a row. -/
structure HasRow (s : UnicodeTranscript) (row : Int) (slot : Option Line)
    (color : Option StyleRow) (wrapped : Bool) : Prop where
  range : s.InRange row
  line : arrayGet (Exn.arrayIndexOutOfBounds .mLines) s.mLines (s.internalRow row) = .ok slot
  color : arrayGet (Exn.arrayIndexOutOfBounds .mColor) s.mColor (s.internalRow row) = .ok color
  wrapped : arrayGet (Exn.arrayIndexOutOfBounds .mLineWrap) s.mLineWrap (s.internalRow row) =
    .ok wrapped

variable {s : UnicodeTranscript} {row x1 x2 : Int} {slot : Option Line}
  {color : Option StyleRow} {wrapped : Bool}

theorem HasRow.unique {slot' : Option Line} {color' : Option StyleRow} {wrapped' : Bool}
    (h : s.HasRow row slot color wrapped) (h' : s.HasRow row slot' color' wrapped') :
    slot = slot' ∧ color = color' ∧ wrapped = wrapped' := by
  have hline := h.line.symm.trans h'.line
  have hcolor := h.color.symm.trans h'.color
  have hwrapped := h.wrapped.symm.trans h'.wrapped
  exact ⟨Except.ok.inj hline, Except.ok.inj hcolor, Except.ok.inj hwrapped⟩

theorem getLineWrap_of (h : s.HasRow row slot color wrapped) :
    getLineWrap row s = .ok wrapped s := by
  unfold getLineWrap lineWrapAt
  simp only [bind, EStateM.bind, externalToInternalRow_of_inRange h.range, get_apply, h.wrapped]
  rfl

theorem getLineColor_of_hasRow (h : s.HasRow row slot color wrapped) :
    getLineColor row 0 s.mColumns s = .ok color s := by
  cases color with
  | some color => exact getLineColor_of ⟨h.range, h.color⟩
  | none =>
      have hrange := h.range
      unfold InRange at hrange
      have hdone : returns (getLineColor row 0 s.mColumns) (fun c s' => c = none ∧ s' = s) s := by
        unfold getLineColor
        simp only [wp_bind, wp_get, wp_throwIf]
        refine ⟨fun hout => by omega, fun _ => ?_⟩
        rw [wp_of_ok (externalToInternalRow_of_inRange h.range), wp_of_ok (colorAt_of h.color)]
        simp only [wp_pure, and_self]
      obtain ⟨_, _, hok, rfl, rfl⟩ := returns_iff.mp hdone
      exact hok

variable {P : Style → Prop} {columns totalRows screenRows : Nat} {kept cut : List JChar}

theorem getLine_blank (h : s.HasRow row none color wrapped) (x1 x2 : Int) :
    getLine row x1 x2 s = .ok none s := by
  have hrange := h.range
  unfold InRange at hrange
  have hdone : returns (getLine row x1 x2) (fun l s' => l = none ∧ s' = s) s := by
    unfold getLine
    simp only [wp_bind, wp_get, wp_throwIf]
    refine ⟨fun hout => by omega, fun _ => ?_⟩
    rw [wp_of_ok (externalToInternalRow_of_inRange h.range), wp_of_ok (lineAt_of h.line)]
    simp only [wp_pure, and_self]
  obtain ⟨_, _, hok, rfl, rfl⟩ := returns_iff.mp hdone
  exact hok

/-- The text of the columns, as far as the offsets have it in front of the edge. -/
theorem getLine_stored (hshape : s.Holds P columns totalRows screenRows)
    {line : Line} (h : s.HasRow row (some line) color wrapped)
    (hstores : Stores (some line) x1 x2 kept cut) :
    returns (getLine row x1 x2)
      (fun l s' => (∃ tail, l = some (kept ++ tail) ∧ (tail = [] ∨ ∃ rest, tail = 0 :: rest)) ∧
        ∃ t, s' = { s with tmpLine := t }) s := by
  have hrange := h.range
  unfold InRange at hrange
  have hsized := hshape.text line (mem_of_arrayGet h.line)
  unfold getLine
  simp only [wp_bind, wp_get, wp_throwIf]
  refine ⟨fun hout => by omega, fun _ => ?_⟩
  rw [wp_of_ok (externalToInternalRow_of_inRange h.range), wp_of_ok (lineAt_of h.line)]
  cases hstores with
  | @basic text start n hfit =>
      have hlength : text.length = columns := hsized
      by_cases hall : (start : Int) = 0 ∧ ((start + n : Nat) : Int) = s.mColumns
      · simp only [if_pos hall, wp_pure]
        have hn : stretch text start n = text := by
          obtain rfl : start = 0 := by omega
          rw [hshape.width] at hall
          unfold stretch
          rw [List.drop_zero, List.take_of_length_le (by omega)]
        exact ⟨⟨[], by rw [hn, List.append_nil], .inl rfl⟩, s.tmpLine, rfl⟩
      · simp only [if_neg hall, wp_bind]
        have hroom : n < s.mColumns + 1 := by
          rw [hshape.width]
          omega
        have hcount : ((start + n : Nat) : Int) - start = n := by omega
        have hcapacity : (s.mColumns : Int) + 1 = (s.mColumns + 1 : Nat) := rfl
        rw [hcount, hcapacity]
        refine wp_of_returns (fillTmpLine_returns s hroom hfit) ?_
        rintro tmp s₁ ⟨⟨tail, rfl⟩, hs₁⟩
        rw [wp_pure]
        exact ⟨⟨0 :: tail, rfl, .inr ⟨tail, rfl⟩⟩, hs₁⟩
  | @full line x1 x2 start n m hstart hstop _ hfit =>
      have hwidth : line.mColumns = s.mColumns := hsized.width.trans hshape.width.symm
      unfold FullUnicodeLine.endOfColumns at hstop
      rw [hwidth] at hstop
      simp only [wp_bind, hstart, wp_checked_ok, hstop]
      have hcount : ((start + n : Nat) : Int) - start = n := by omega
      rw [hcount]
      refine wp_of_returns (fillTmpLine_returns s (Nat.lt_succ_self n)
        (show start + n ≤ line.mText.length by omega)) ?_
      rintro tmp s₁ ⟨⟨tail, rfl⟩, hs₁⟩
      rw [wp_pure]
      exact ⟨⟨0 :: tail, rfl, .inr ⟨tail, rfl⟩⟩, hs₁⟩

end UnicodeTranscript

namespace TranscriptScreen

variable [Platform]

/-! ## §2  Rows of a selection -/

/-- Where the selected columns of a row begin. -/
def firstColumn (selX1 selY1 row : Int) : Int := if row = selY1 then selX1 else 0

/-- The column behind the selected columns of a row. -/
def columnBehindRow (s : TranscriptScreen) (selX2 selY2 row : Int) : Int :=
  if row = selY2 then min (selX2 + 1) s.mColumns else s.mColumns

/-- The newline behind a row, with a style. -/
def rowEnd (s : TranscriptScreen) (wrapped : Bool) (selY2 row : Int) : RowText :=
  if ¬ wrapped ∧ row < selY2 ∧ row < (s.mScreenRows : Int) - 1 then ⟨[10], [0]⟩ else ⟨[], []⟩

/-- The styles that a row is read with. -/
def seenStyles (withColors : Bool) (color : Option StyleRow) : Option StyleRow :=
  if withColors then color else none

/-- What the row gives is what its selected columns hold, up to some unit behind the last
printing one, and the end of the row. -/
def GivesAll (s : TranscriptScreen) (withColors : Bool) (selX1 selY1 selX2 selY2 row : Int)
    (piece : RowText) : Prop :=
  ∃ slot color wrapped kept cut body n, s.mData.HasRow row slot color wrapped ∧
    Stores slot (firstColumn selX1 selY1 row) (s.columnBehindRow selX2 selY2 row) kept cut ∧
    Taken (seenStyles withColors color) s.mData.mDefaultStyle (kept ++ cut) body n ∧
    piece = ⟨body.text ++ (s.rowEnd wrapped selY2 row).text,
      body.colors ++ (s.rowEnd wrapped selY2 row).colors⟩

/-- The row can be read, and the loops reach everything in its selected columns that prints. -/
def RowReached (s : TranscriptScreen) (withColors : Bool) (selX1 selY1 selX2 selY2 row : Int) :
    Prop :=
  ∃ slot color wrapped kept cut, s.mData.HasRow row slot color wrapped ∧
    Stores slot (firstColumn selX1 selY1 row) (s.columnBehindRow selX2 selY2 row) kept cut ∧
    Reached (seenStyles withColors color) s.mData.mDefaultStyle
      (s.columnBehindRow selX2 selY2 row - firstColumn selX1 selY1 row) (kept ++ cut) kept.length

/-- Nothing but `tmpLine` is different. -/
def SameRows (s t : TranscriptScreen) : Prop :=
  ∃ tmp, t = { s with mData := { s.mData with tmpLine := tmp } }

omit [Platform] in
theorem SameRows.hasRow {s t : TranscriptScreen} (h : SameRows s t) {row : Int}
    {slot : Option Line} {color : Option StyleRow} {wrapped : Bool} :
    t.mData.HasRow row slot color wrapped ↔ s.mData.HasRow row slot color wrapped := by
  obtain ⟨tmp, rfl⟩ := h
  exact ⟨fun h => ⟨h.range, h.line, h.color, h.wrapped⟩,
    fun h => ⟨h.range, h.line, h.color, h.wrapped⟩⟩

variable {P : Style → Prop} {columns totalRows screenRows : Nat} {s t : TranscriptScreen}
  {withColors : Bool} {selX1 selY1 selX2 selY2 row : Int}

omit [Platform] in
theorem SameRows.holds (h : SameRows s t) (hs : s.Holds P columns totalRows screenRows) :
    t.Holds P columns totalRows screenRows := by
  obtain ⟨tmp, rfl⟩ := h
  exact { hs with data := { hs.data with } }

/-- With colours, whole rows are read. -/
def WholeRows (s : TranscriptScreen) (withColors : Bool) (selX1 selX2 : Int) : Prop :=
  withColors = true → selX1 = 0 ∧ (s.mColumns : Int) ≤ selX2 + 1

omit [Platform] in
theorem WholeRows.whole (h : s.WholeRows withColors selX1 selX2) (hcolors : withColors = true)
    (selY1 selY2 row : Int) :
    firstColumn selX1 selY1 row = 0 ∧ s.columnBehindRow selX2 selY2 row = s.mColumns := by
  obtain ⟨hx1, hx2⟩ := h hcolors
  unfold firstColumn columnBehindRow
  constructor
  · split_ifs
    · exact hx1
    · rfl
  · split_ifs
    · omega
    · rfl

omit [Platform] in
theorem stylesTo_seen (hs : s.Holds P columns totalRows screenRows)
    (hwhole : s.WholeRows withColors selX1 selX2) {slot : Option Line} {color : Option StyleRow}
    {wrapped : Bool} (hrow : s.mData.HasRow row slot color wrapped) :
    StylesTo (seenStyles withColors color) s.mData.mDefaultStyle
      (s.columnBehindRow selX2 selY2 row - firstColumn selX1 selY1 row) := by
  intro column hpos hlt
  cases hcolors : withColors with
  | false => exact ⟨_, rfl⟩
  | true =>
      obtain ⟨hx1, hx2⟩ := hwhole.whole hcolors selY1 selY2 row
      rw [hx1, hx2, hs.width] at hlt
      rcases color with _ | color
      · exact ⟨_, rfl⟩
      · have hstyles := hs.data.styles color (mem_of_arrayGet hrow.color)
        obtain ⟨style, hget, _⟩ := hstyles.get (show column.toNat < columns by omega)
        rw [Int.toNat_of_nonneg hpos] at hget
        exact ⟨style, hget⟩

/-- A row without text gives its end. -/
theorem lineText_nil (width : Int) (color : Option StyleRow) (defaultColor : Style)
    (wrapped : Bool) : lineText width color defaultColor wrapped [] = .ok ⟨[], []⟩ := by
  cases wrapped <;> rfl

omit [Platform] in
theorem seen_append {kept cut tail : List JChar} (htail : tail = [] ∨ ∃ rest, tail = 0 :: rest) :
    Seen (kept ++ cut) (kept ++ tail) kept.length where
  same j hj := by rw [List.getElem?_append_left hj, List.getElem?_append_left hj]
  inText := by
    rw [List.length_append]
    omega
  inLine := by
    rw [List.length_append]
    omega
  ends := by
    rcases htail with rfl | ⟨rest, rfl⟩
    · exact .inl (by rw [List.append_nil])
    · refine .inr ?_
      rw [List.getElem?_append_right (Nat.le_refl _), Nat.sub_self]
      rfl

omit [Platform] in
theorem SameRows.trans_onData {α : Type} {x : TranscriptM α} (h : SameRows s t) {a : α}
    {data : UnicodeTranscript} (hx : x t.mData = .ok a data)
    (hdata : ∃ tmp, data = { t.mData with tmpLine := tmp }) :
    ∃ u, onData x t = .ok a u ∧ SameRows s u ∧ u.mData = data := by
  obtain ⟨tmp, rfl⟩ := h
  obtain ⟨tmp', rfl⟩ := hdata
  exact ⟨_, onData_of hx, ⟨tmp', rfl⟩, rfl⟩

/-- The part of the loop behind the reads. -/
theorem rowText_reads {x1 x2 : Int} {l : Option (List JChar)} {color : Option StyleRow}
    {wrapped : Bool} {u : TranscriptScreen} (hx1 : x1 = firstColumn selX1 selY1 row)
    (hx2 : x2 = t.columnBehindRow selX2 selY2 row)
    (hl : onData (UnicodeTranscript.getLine row x1 x2) t = .ok l u)
    (hcolor : (if withColors then onData (UnicodeTranscript.getLineColor row x1 x2)
      else pure none) u = .ok color u)
    (hwrap : onData (UnicodeTranscript.getLineWrap row) u = .ok wrapped u) :
    rowText withColors selX1 selY1 selX2 selY2 row t =
      (match l with
        | none => pure (t.rowEnd wrapped selY2 row)
        | some line => do
            let r ← checked (lineText (x2 - x1) color t.mData.mDefaultStyle
              (wrapped ∧ x2 = t.mColumns) line)
            return ⟨r.text ++ (t.rowEnd wrapped selY2 row).text,
              r.colors ++ (t.rowEnd wrapped selY2 row).colors⟩ : ScreenM RowText) u := by
  subst hx1 hx2
  unfold firstColumn columnBehindRow at *
  unfold rowText
  simp only [bind, EStateM.bind, get_apply, hl, hcolor, hwrap]
  cases l with
  | none => rfl
  | some line => rfl

omit [Platform] in
/-- Reading the text of a row. -/
theorem getLine_of (hs : s.Holds P columns totalRows screenRows) (hsame : SameRows s t)
    {slot : Option Line} {color : Option StyleRow} {wrapped : Bool}
    (hrow : s.mData.HasRow row slot color wrapped) {x1 x2 : Int} {kept cut : List JChar}
    (hstores : Stores slot x1 x2 kept cut) :
    ∃ l u, onData (UnicodeTranscript.getLine row x1 x2) t = .ok l u ∧ SameRows s u ∧
      ((l = none ∧ kept = [] ∧ cut = []) ∨ ∃ tail, l = some (kept ++ tail) ∧
        (tail = [] ∨ ∃ rest, tail = 0 :: rest)) := by
  have hrow' := hsame.hasRow.mpr hrow
  rcases slot with _ | line
  · have hread := UnicodeTranscript.getLine_blank hrow' x1 x2
    obtain ⟨u, hu, hsame', _⟩ := hsame.trans_onData hread ⟨t.mData.tmpLine, rfl⟩
    cases hstores
    exact ⟨none, u, hu, hsame', .inl ⟨rfl, rfl, rfl⟩⟩
  · have hread := UnicodeTranscript.getLine_stored (hsame.holds hs).data hrow' hstores
    obtain ⟨l, data, hl, ⟨tail, rfl, htail⟩, hdata⟩ := returns_iff.mp hread
    obtain ⟨u, hu, hsame', _⟩ := hsame.trans_onData hl hdata
    exact ⟨_, u, hu, hsame', .inr ⟨tail, rfl, htail⟩⟩

/-- A row's part of the loop of `internalGetTranscriptText`, where the row can be read. -/
theorem rowText_of (hs : s.Holds P columns totalRows screenRows)
    (hwhole : s.WholeRows withColors selX1 selX2) (hsame : SameRows s t) {slot : Option Line}
    {color : Option StyleRow} {wrapped : Bool} (hrow : s.mData.HasRow row slot color wrapped)
    {kept cut : List JChar} (hstores : Stores slot (firstColumn selX1 selY1 row)
      (s.columnBehindRow selX2 selY2 row) kept cut) :
    ∃ line u, Seen (kept ++ cut) line kept.length ∧ SameRows s u ∧
      rowText withColors selX1 selY1 selX2 selY2 row t =
        match lineText (s.columnBehindRow selX2 selY2 row - firstColumn selX1 selY1 row)
          (seenStyles withColors color) s.mData.mDefaultStyle
          (wrapped ∧ s.columnBehindRow selX2 selY2 row = s.mColumns) line with
        | .ok r => .ok ⟨r.text ++ (s.rowEnd wrapped selY2 row).text,
            r.colors ++ (s.rowEnd wrapped selY2 row).colors⟩ u
        | .error e => .error e u := by
  obtain ⟨l, u, hl, hsame', hcases⟩ := getLine_of hs hsame hrow hstores
  have hcolor : (if withColors then onData (UnicodeTranscript.getLineColor row
      (firstColumn selX1 selY1 row) (s.columnBehindRow selX2 selY2 row)) else pure none) u =
      .ok (seenStyles withColors color) u := by
    cases hcolors : withColors with
    | false => rfl
    | true =>
        obtain ⟨hx1, hx2⟩ := hwhole.whole hcolors selY1 selY2 row
        have hread := UnicodeTranscript.getLineColor_of_hasRow (hsame'.hasRow.mpr hrow)
        have hwidth : (u.mData.mColumns : Int) = s.mColumns := by
          rw [(hsame'.holds hs).data.width, hs.width]
        rw [hx1, hx2, ← hwidth]
        exact onData_of hread
  have hwrap : onData (UnicodeTranscript.getLineWrap row) u = .ok wrapped u :=
    onData_of (UnicodeTranscript.getLineWrap_of (hsame'.hasRow.mpr hrow))
  have hcolumns : t.columnBehindRow selX2 selY2 row = s.columnBehindRow selX2 selY2 row := by
    obtain ⟨_, rfl⟩ := hsame
    rfl
  rw [rowText_reads rfl hcolumns.symm hl hcolor hwrap]
  obtain ⟨_, rfl⟩ := hsame
  rcases hcases with ⟨rfl, rfl, rfl⟩ | ⟨tail, rfl, htail⟩
  · exact ⟨[], u, seen_append (.inl rfl), hsame', by rw [lineText_nil]; rfl⟩
  · refine ⟨kept ++ tail, u, seen_append htail, hsame', ?_⟩
    simp only [bind, EStateM.bind]
    cases lineText (s.columnBehindRow selX2 selY2 row - firstColumn selX1 selY1 row)
      (seenStyles withColors color) s.mData.mDefaultStyle
      (wrapped ∧ s.columnBehindRow selX2 selY2 row = s.mColumns) (kept ++ tail) with
    | ok r => rfl
    | error e => rfl

/-! ## §3  The rows one after the other -/

/-- What the loop appends, row by row. -/
def rowPieces (withColors : Bool) (selX1 selY1 selX2 selY2 : Int) :
    Nat → Int → ScreenM (List RowText)
  | 0, _ => pure []
  | n + 1, row => do
      let r ← rowText withColors selX1 selY1 selX2 selY2 row
      let rest ← rowPieces withColors selX1 selY1 selX2 selY2 n (row + 1)
      return r :: rest

/-- The pieces appended to each other. -/
def joinPieces (pieces : List RowText) : RowText :=
  ⟨(pieces.map RowText.text).flatten, (pieces.map RowText.colors).flatten⟩

theorem rowTexts_eq (n : Nat) (row : Int) (t : TranscriptScreen) :
    rowTexts withColors selX1 selY1 selX2 selY2 n row t =
      match rowPieces withColors selX1 selY1 selX2 selY2 n row t with
      | .ok pieces u => .ok (joinPieces pieces) u
      | .error e u => .error e u := by
  induction n generalizing row t with
  | zero => rfl
  | succ n ih =>
      simp only [rowTexts, rowPieces, bind, EStateM.bind]
      cases rowText withColors selX1 selY1 selX2 selY2 row t with
      | error e u => rfl
      | ok r u =>
          simp only [ih]
          cases rowPieces withColors selX1 selY1 selX2 selY2 n (row + 1) u with
          | error e v => rfl
          | ok rest v => rfl

omit [Platform] in
theorem RowText.ext {r r' : RowText} (htext : r.text = r'.text) (hcolors : r.colors = r'.colors) :
    r = r' := by
  cases r
  cases r'
  obtain rfl := htext
  obtain rfl := hcolors
  rfl

/-- A row gives all it should if and only if the loops reach all that prints. -/
theorem rowText_iff (hs : s.Holds P columns totalRows screenRows)
    (hwhole : s.WholeRows withColors selX1 selX2) (hsame : SameRows s t) :
    (∃ piece u, rowText withColors selX1 selY1 selX2 selY2 row t = .ok piece u ∧
      s.GivesAll withColors selX1 selY1 selX2 selY2 row piece) ↔
    s.RowReached withColors selX1 selY1 selX2 selY2 row := by
  constructor
  · rintro ⟨piece, u, hok, slot, color, wrapped, kept, cut, body, n, hrow, hstores, htaken, rfl⟩
    refine ⟨slot, color, wrapped, kept, cut, hrow, hstores, ?_⟩
    obtain ⟨line, v, hseen, _, heq⟩ := rowText_of hs hwhole hsame hrow hstores
    refine (taken_iff (stylesTo_seen hs hwhole hrow) hseen
      (wrapped ∧ s.columnBehindRow selX2 selY2 row = s.mColumns)).mp ?_
    rw [hok] at heq
    split at heq
    · next r hr =>
        injection heq with hpiece _
        obtain ⟨htext, hcolors⟩ := RowText.mk.inj hpiece
        have hbody : body = r := RowText.ext (List.append_cancel_right htext)
          (List.append_cancel_right hcolors)
        exact ⟨r, n, hr, hbody ▸ htaken⟩
    · cases heq
  · rintro ⟨slot, color, wrapped, kept, cut, hrow, hstores, hreached⟩
    obtain ⟨line, u, hseen, _, heq⟩ := rowText_of hs hwhole hsame hrow hstores
    obtain ⟨r, n, hr, htaken⟩ := (taken_iff (stylesTo_seen hs hwhole hrow) hseen
      (wrapped ∧ s.columnBehindRow selX2 selY2 row = s.mColumns)).mpr hreached
    rw [hr] at heq
    exact ⟨_, u, heq, slot, color, wrapped, kept, cut, r, n, hrow, hstores, htaken, rfl⟩

/-- A row that gives all leaves the rows as they are. -/
theorem sameRows_of_rowText (hs : s.Holds P columns totalRows screenRows)
    (hwhole : s.WholeRows withColors selX1 selX2) (hsame : SameRows s t) {piece : RowText}
    {u : TranscriptScreen}
    (hok : rowText withColors selX1 selY1 selX2 selY2 row t = .ok piece u)
    (hgives : s.GivesAll withColors selX1 selY1 selX2 selY2 row piece) : SameRows s u := by
  obtain ⟨slot, color, wrapped, kept, cut, body, n, hrow, hstores, _, _⟩ := hgives
  obtain ⟨line, v, _, hv, heq⟩ := rowText_of hs hwhole hsame hrow hstores
  rw [hok] at heq
  split at heq
  · injection heq with _ huv
    rw [huv]
    exact hv
  · cases heq

theorem rowPieces_iff (hs : s.Holds P columns totalRows screenRows)
    (hwhole : s.WholeRows withColors selX1 selX2) (hsame : SameRows s t) {n : Nat} :
    (∃ pieces u, rowPieces withColors selX1 selY1 selX2 selY2 n row t = .ok pieces u ∧
      ∀ (k : Nat) piece, pieces[k]? = some piece →
        s.GivesAll withColors selX1 selY1 selX2 selY2 (row + k) piece) ↔
    ∀ k : Nat, k < n → s.RowReached withColors selX1 selY1 selX2 selY2 (row + k) := by
  induction n generalizing row t with
  | zero =>
      constructor
      · intro _ k hk
        exact absurd hk (Nat.not_lt_zero k)
      · intro _
        refine ⟨[], t, rfl, ?_⟩
        rintro k piece ⟨⟩
  | succ n ih =>
      constructor
      · rintro ⟨pieces, u, hok, hgives⟩
        unfold rowPieces at hok
        simp only [bind, EStateM.bind] at hok
        split at hok
        · next r v hr =>
            split at hok
            · next rest w hrest =>
                injection hok with hpieces _
                subst hpieces
                have hfirst : s.GivesAll withColors selX1 selY1 selX2 selY2 row r := by
                  have h := hgives 0 r rfl
                  rwa [Int.natCast_zero, Int.add_zero] at h
                have hsame' := sameRows_of_rowText hs hwhole hsame hr hfirst
                have hothers := (ih hsame').mp ⟨rest, w, hrest, fun k piece hk => by
                  have h := hgives (k + 1) piece hk
                  rwa [show row + ((k + 1 : Nat) : Int) = row + 1 + k by omega] at h⟩
                intro k hk
                rcases k with _ | k
                · rw [Int.natCast_zero, Int.add_zero]
                  exact (rowText_iff hs hwhole hsame).mp ⟨r, v, hr, hfirst⟩
                · rw [show row + ((k + 1 : Nat) : Int) = row + 1 + k by omega]
                  exact hothers k (Nat.lt_of_succ_lt_succ hk)
            · cases hok
        · cases hok
      · intro hreached
        have hzero := hreached 0 (Nat.succ_pos n)
        rw [Int.natCast_zero, Int.add_zero] at hzero
        obtain ⟨r, v, hr, hfirst⟩ := (rowText_iff hs hwhole hsame).mpr hzero
        have hsame' := sameRows_of_rowText hs hwhole hsame hr hfirst
        have hnext : ∀ k : Nat, k < n →
            s.RowReached withColors selX1 selY1 selX2 selY2 (row + 1 + k) := by
          intro k hk
          have h := hreached (k + 1) (Nat.succ_lt_succ hk)
          rwa [show row + ((k + 1 : Nat) : Int) = row + 1 + k by omega] at h
        obtain ⟨rest, w, hrest, hothers⟩ := (ih hsame').mpr hnext
        refine ⟨r :: rest, w, ?_, fun k piece hk => ?_⟩
        · unfold rowPieces
          simp only [bind, EStateM.bind, hr, hrest]
          rfl
        · rcases k with _ | k
          · cases hk
            rw [Int.natCast_zero, Int.add_zero]
            exact hfirst
          · rw [show row + ((k + 1 : Nat) : Int) = row + 1 + k by omega]
            exact hothers k piece hk

/-! ## §4  The text of a selection -/

/-- A call returns well-formed text that is made up of what the rows give, and each row
gives all it should. -/
def ExtractsAll (s : TranscriptScreen) (call : ScreenM RowText) (withColors : Bool)
    (selX1 selY1 selX2 selY2 : Int) : Prop :=
  ∃ pieces u, rowPieces withColors selX1 selY1 selX2 selY2 (selY2 + 1 - selY1).toNat selY1 s =
      .ok pieces u ∧
    call s = .ok (joinPieces pieces) u ∧ WellFormed (joinPieces pieces).text ∧
    ∀ (k : Nat) piece, pieces[k]? = some piece →
      s.GivesAll withColors selX1 selY1 selX2 selY2 (selY1 + k) piece

/-- The loops reach all that prints in every row. -/
def AllReached (s : TranscriptScreen) (withColors : Bool) (selX1 selY1 selX2 selY2 : Int) :
    Prop :=
  ∀ row, selY1 ≤ row → row ≤ selY2 → s.RowReached withColors selX1 selY1 selX2 selY2 row

/-- A selection inside of the transcript. -/
structure Inside (s : TranscriptScreen) (selX1 selY1 selX2 selY2 : Int) : Prop where
  top : -(s.getActiveTranscriptRows : Int) ≤ selY1
  bottom : selY2 < s.mScreenRows
  left : 0 ≤ selX1 ∧ selX1 < s.mColumns
  right : 0 ≤ selX2 ∧ selX2 < s.mColumns

theorem GivesAll.wellFormed {piece : RowText}
    (h : s.GivesAll withColors selX1 selY1 selX2 selY2 row piece) : WellFormed piece.text := by
  obtain ⟨slot, color, wrapped, kept, cut, body, n, _, _, htaken, rfl⟩ := h
  have hbody : WellFormed body.text := by
    rw [htaken.body]
    exact htaken.wellFormed
  refine hbody.append ?_
  unfold rowEnd
  split_ifs
  · exact .single (by decide) (by decide) .nil
  · exact .nil

omit [Platform] in
theorem wellFormed_join {pieces : List RowText} (h : ∀ piece ∈ pieces, WellFormed piece.text) :
    WellFormed (joinPieces pieces).text := by
  induction pieces with
  | nil => exact .nil
  | cons piece pieces ih =>
      have hrest := ih fun p hp => h p (List.mem_cons_of_mem _ hp)
      exact (h piece List.mem_cons_self).append hrest

/-- A call that goes over the rows of a selection. -/
theorem extractsAll_iff (hs : s.Holds P columns totalRows screenRows)
    (hwhole : s.WholeRows withColors selX1 selX2) {call : ScreenM RowText}
    (hcall : call s = rowTexts withColors selX1 selY1 selX2 selY2 (selY2 + 1 - selY1).toNat
      selY1 s) :
    s.ExtractsAll call withColors selX1 selY1 selX2 selY2 ↔
      s.AllReached withColors selX1 selY1 selX2 selY2 := by
  have hsame : SameRows s s := ⟨s.mData.tmpLine, rfl⟩
  have hiff : (∃ pieces u, rowPieces withColors selX1 selY1 selX2 selY2
      (selY2 + 1 - selY1).toNat selY1 s = .ok pieces u ∧ ∀ (k : Nat) piece,
        pieces[k]? = some piece → s.GivesAll withColors selX1 selY1 selX2 selY2 (selY1 + k) piece) ↔
      ∀ k : Nat, k < (selY2 + 1 - selY1).toNat →
        s.RowReached withColors selX1 selY1 selX2 selY2 (selY1 + k) :=
    rowPieces_iff hs hwhole hsame
  constructor
  · rintro ⟨pieces, u, hpieces, _, _, hgives⟩ row hlo hhi
    have hrow := hiff.mp ⟨pieces, u, hpieces, hgives⟩ (row - selY1).toNat (by omega)
    rwa [Int.toNat_of_nonneg (by omega), show selY1 + (row - selY1) = row by omega] at hrow
  · intro hall
    obtain ⟨pieces, u, hpieces, hgives⟩ := hiff.mpr fun k hk => hall _ (by omega) (by omega)
    refine ⟨pieces, u, hpieces, ?_, wellFormed_join fun piece hp => ?_, hgives⟩
    · rw [hcall, rowTexts_eq, hpieces]
    · obtain ⟨k, hk⟩ := List.mem_iff_getElem?.mp hp
      exact (hgives k piece hk).wellFormed

theorem getTranscriptText_eq (withColors : Bool) :
    getTranscriptText withColors s = rowTexts withColors 0 (-(s.getActiveTranscriptRows : Int))
      s.mColumns (s.mScreenRows - 1) ((s.mScreenRows : Int) - 1 + 1 -
        -(s.getActiveTranscriptRows : Int)).toNat (-(s.getActiveTranscriptRows : Int)) s := by
  unfold getTranscriptText internalGetTranscriptText
  simp only [bind, EStateM.bind, get_apply, max_self,
    ge_iff_le, le_refl, if_true]

theorem getSelectedText_eq (h : s.Inside selX1 selY1 selX2 selY2) :
    getSelectedText withColors selX1 selY1 selX2 selY2 s =
      rowTexts withColors selX1 selY1 selX2 selY2 (selY2 + 1 - selY1).toNat selY1 s := by
  have htop := h.top
  have hbottom := h.bottom
  unfold getSelectedText internalGetTranscriptText
  simp only [bind, EStateM.bind, get_apply, max_eq_left htop,
    if_neg (show ¬ selY2 ≥ s.mScreenRows by omega)]

end TranscriptScreen

namespace TerminalEmulator

variable [Platform]

/-- The screen of a run has the shape of a screen. -/
theorem screen_shape {columns totalRows rows : Nat} {s : TerminalEmulator}
    (hcolumns : 0 < columns) (hcreate : create columns totalRows rows = .ok s)
    (calls : List Call) : ∃ columns' rows', 0 < columns' ∧
      (run calls s).mScreen.Holds Palette.any.Style columns' totalRows rows' := by
  have hmeets : RunMeets (Call.StaysIn Palette.any) calls s := by
    clear hcreate
    induction calls generalizing s with
    | nil => trivial
    | cons call calls ih => exact ⟨staysIn_any call s, ih⟩
  exact (painted_run (painted_create hcolumns hcreate) hmeets).screen

/-- **Text extraction is complete**, for a selection or the whole transcript of a reachable
screen, exactly when the loops reach all that prints in each of the rows. -/
theorem extraction_complete_iff {columns totalRows rows : Nat} {s : TerminalEmulator}
    (hcolumns : 0 < columns) (hcreate : create columns totalRows rows = .ok s)
    (calls : List Call) :
    (∀ selX1 selY1 selX2 selY2, (run calls s).mScreen.Inside selX1 selY1 selX2 selY2 →
      ((run calls s).mScreen.ExtractsAll
          (TranscriptScreen.getSelectedText false selX1 selY1 selX2 selY2) false
          selX1 selY1 selX2 selY2 ↔
        (run calls s).mScreen.AllReached false selX1 selY1 selX2 selY2)) ∧
    ∀ withColors,
      ((run calls s).mScreen.ExtractsAll (TranscriptScreen.getTranscriptText withColors) withColors
          0 (-((run calls s).mScreen.getActiveTranscriptRows : Int)) (run calls s).mScreen.mColumns
          ((run calls s).mScreen.mScreenRows - 1) ↔
        (run calls s).mScreen.AllReached withColors 0
          (-((run calls s).mScreen.getActiveTranscriptRows : Int)) (run calls s).mScreen.mColumns
          ((run calls s).mScreen.mScreenRows - 1)) := by
  obtain ⟨columns', rows', _, hscreen⟩ := screen_shape hcolumns hcreate calls
  constructor
  · intro selX1 selY1 selX2 selY2 hinside
    refine TranscriptScreen.extractsAll_iff hscreen ?_
      (TranscriptScreen.getSelectedText_eq hinside)
    rintro ⟨⟩
  · intro withColors
    refine TranscriptScreen.extractsAll_iff hscreen ?_
      (TranscriptScreen.getTranscriptText_eq withColors)
    exact fun _ => ⟨rfl, by omega⟩

omit [Platform] in
theorem extraction_complete_iff_two_columns : let _ := samplePlatform
    ∃ s, create 2 4 2 = .ok s ∧ ∀ withColors,
      ((run [.byte 0x41] s).mScreen.ExtractsAll (TranscriptScreen.getTranscriptText withColors)
          withColors 0 (-((run [.byte 0x41] s).mScreen.getActiveTranscriptRows : Int))
          (run [.byte 0x41] s).mScreen.mColumns ((run [.byte 0x41] s).mScreen.mScreenRows - 1) ↔
        (run [.byte 0x41] s).mScreen.AllReached withColors 0
          (-((run [.byte 0x41] s).mScreen.getActiveTranscriptRows : Int))
          (run [.byte 0x41] s).mScreen.mColumns
          ((run [.byte 0x41] s).mScreen.mScreenRows - 1)) := by
  let _ := samplePlatform
  have hok : (create 2 4 2).toBool = true := by decide +kernel
  cases hcreate : create 2 4 2 with
  | error e =>
      rw [hcreate] at hok
      cases hok
  | ok s => exact ⟨s, hcreate, (extraction_complete_iff (by decide) hcreate [.byte 0x41]).2⟩

/-- `A B`, and an acute accent on the `B`. -/
def markedLast : List Call :=
  .setDefaultUTF8Mode true :: [0x41, 0x42, 0xcc, 0x81].map .byte

omit [Platform] in
theorem mark_not_extracted : let _ := samplePlatform
    ∃ s, create 2 4 2 = .ok s ∧
      ¬ (run markedLast s).mScreen.ExtractsAll (TranscriptScreen.getTranscriptText false) false 0
        (-((run markedLast s).mScreen.getActiveTranscriptRows : Int))
        (run markedLast s).mScreen.mColumns ((run markedLast s).mScreen.mScreenRows - 1) := by
  let _ := samplePlatform
  have hcell : (create 2 4 2).map (fun s =>
      let data := (run markedLast s).mScreen.mData
      ((run markedLast s).mScreen.mColumns, (run markedLast s).mScreen.mScreenRows,
        arrayGet (Exn.arrayIndexOutOfBounds .mLines) data.mLines (data.internalRow 0))) =
      .ok (2, 2, .ok (some (.full ⟨[0x41, 0x42, 0x301], [3, 0], 2⟩))) := by decide +kernel
  cases hcreate : create 2 4 2 with
  | error e =>
      rw [hcreate] at hcell
      cases hcell
  | ok s =>
      rw [hcreate] at hcell
      obtain ⟨hcolumns, hrows, htext⟩ : _ ∧ _ ∧ _ := by
        simpa only [Except.map, Except.ok.injEq, Prod.mk.injEq] using hcell
      obtain ⟨_, _, _, hscreen⟩ := screen_shape (by decide) hcreate markedLast
      refine ⟨s, hcreate, fun hextracts => ?_⟩
      have hreached := (TranscriptScreen.extractsAll_iff hscreen (by rintro ⟨⟩)
        (TranscriptScreen.getTranscriptText_eq false)).mp hextracts 0 (by omega) (by omega)
      obtain ⟨slot, color, wrapped, kept, cut, hrow, hstores, hreached⟩ := hreached
      have hx1 : TranscriptScreen.firstColumn 0
          (-((run markedLast s).mScreen.getActiveTranscriptRows : Int)) 0 = 0 := by
        unfold TranscriptScreen.firstColumn
        split_ifs <;> rfl
      have hx2 : (run markedLast s).mScreen.columnBehindRow (run markedLast s).mScreen.mColumns
          ((run markedLast s).mScreen.mScreenRows - 1) 0 = 2 := by
        unfold TranscriptScreen.columnBehindRow
        split_ifs <;> omega
      rw [hx1, hx2] at hstores hreached
      have hslot := Except.ok.inj (hrow.line.symm.trans htext)
      subst hslot
      cases hstores with
      | @full _ _ _ start n m hstart hstop _ hfit =>
          have hstart' : (0 : Int) = start := Except.ok.inj hstart
          have hstop' : (3 : Int) = (start + n : Nat) := Except.ok.inj hstop
          have hfit' : start + n + m ≤ 3 := hfit
          obtain rfl : start = 0 := by omega
          obtain rfl : n = 3 := by omega
          obtain rfl : m = 0 := by omega
          have hprints : TranscriptScreen.Prints (TranscriptScreen.seenStyles false color)
              (run markedLast s).mScreen.mData.mDefaultStyle [0x41, 0x42, 0x301] 2 :=
            TranscriptScreen.prints_of_not_blank rfl (by unfold IsBlank; decide)
          obtain ⟨_, _, hcolumn⟩ := hreached.reached 2 hprints
          exact absurd hcolumn (by decide +kernel)

end TerminalEmulator

end Kbox.Emulatorview
