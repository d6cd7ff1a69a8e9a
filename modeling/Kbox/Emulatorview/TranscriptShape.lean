import Kbox.Emulatorview.TranscriptScreen
import Kbox.Emulatorview.StyleRows

/-!
# The shape of a transcript

The three arrays have `mTotalRows` slots, and what a slot holds is as wide as the
screen, in styles that satisfy `P`.  Every method keeps this, also when it
throws.
-/

namespace Kbox.Emulatorview

open Kbox.Framework

/-! ## §1  Lines -/

/-- The tables of a line that do not depend on its text. -/
structure FullUnicodeLine.Sized (columns : Nat) (line : FullUnicodeLine) : Prop where
  width : line.mColumns = columns
  offsets : line.mOffset.length = columns

/-- A line is as wide as the screen. -/
def Line.Sized (columns : Nat) : Line → Prop
  | .basic text => text.length = columns
  | .full line => line.Sized columns

namespace FullUnicodeLine

variable {columns : Nat}

theorem sized_ofBasic {text : List JChar} (h : text.length = columns) :
    (ofBasic text).Sized columns where
  width := h
  offsets := by
    simp only [ofBasic, List.length_set, List.length_replicate, h]

/-- A write to `mText` alone. -/
theorem keeps_text {r : FullUnicodeLine → Except Exn (List JChar)} :
    Keeps (Sized columns) (do
      let line ← get
      let text ← checked (r line)
      MonadStateOf.set { line with mText := text } : LineM Unit) := by
  apply keeps_read
  intro line h
  simp only [wp_bind, wp_checked, wp_set]
  exact ⟨fun _ _ => ⟨h.width, h.offsets⟩, fun _ _ => h⟩

theorem keeps_setText (i : Int) (c : JChar) : Keeps (Sized columns) (setText i c) := keeps_text

theorem keeps_moveText (src dst len : Int) : Keeps (Sized columns) (moveText src dst len) :=
  keeps_text

theorem keeps_putChars [Platform] (codePoint pos : Int) :
    Keeps (Sized columns) (putChars codePoint pos) :=
  keeps_throwIf.bind fun _ => keeps_text

theorem keeps_setOffset (i value : Int) : Keeps (Sized columns) (setOffset i value) := by
  apply keeps_read
  intro line h
  simp only [wp_bind, wp_checked, wp_set]
  exact ⟨fun _ hset => ⟨h.width, (length_of_arraySet hset).trans h.offsets⟩, fun _ _ => h⟩

theorem keeps_shiftOffsets (column shift : Int) :
    Keeps (Sized columns) (shiftOffsets column shift) := by
  apply keeps_modify
  intro line h
  exact ⟨h.width, by rw [List.length_mapIdx]; exact h.offsets⟩

theorem keeps_makeRoom (keep src dst spaceUsed : Int) :
    Keeps (Sized columns) (makeRoom keep src dst spaceUsed) := by
  apply keeps_read
  intro line h
  rw [wp_ite]
  refine ⟨fun _ => ?_, fun _ => keeps_moveText _ _ _ line h⟩
  simp only [wp_bind, wp_checked, wp_set]
  exact ⟨fun _ _ => ⟨fun _ _ => ⟨h.width, h.offsets⟩, fun _ _ => h⟩, fun _ _ => h⟩

theorem keeps_correctOffset (column value : Int) :
    Keeps (Sized columns) (correctOffset column value) := by
  refine keeps_ite (fun _ => keeps_setOffset _ _) fun _ => ?_
  exact keeps_get_bind fun line => (keeps_checked _).bind fun offset => keeps_setOffset _ _

theorem keeps_padNarrow (column pos newLen shift spaceUsed : Int) :
    Keeps (Sized columns) (padNarrow column pos newLen shift spaceUsed) := by
  refine keeps_get_bind fun line => ?_
  refine (keeps_makeRoom _ _ _ _).then ((keeps_setText _ _).then ?_)
  refine keeps_get_bind fun line₁ => (keeps_checked _).bind fun used => ?_
  refine (keeps_setOffset _ _).then ?_
  exact (keeps_when fun _ => keeps_correctOffset _ _).then (keeps_shiftOffsets _ _)

variable [Platform]

theorem keeps_overwriteNext (column pos newLen shift spaceUsed : Int) :
    Keeps (Sized columns) (overwriteNext column pos newLen shift spaceUsed) := by
  refine keeps_get_bind fun line => (keeps_checked _).bind fun width => ?_
  refine (keeps_checked _).bind fun stop => keeps_ite (fun _ => ?_) fun _ => ?_
  · refine (keeps_setText _ _).then (keeps_ite (fun _ => ?_) fun _ => keeps_pure _)
    refine (keeps_moveText _ _ _).then (keeps_get_bind fun _ => (keeps_checked _).bind fun _ => ?_)
    exact (keeps_setOffset _ _).then (keeps_pure _)
  · refine (keeps_moveText _ _ _).then (keeps_get_bind fun _ => (keeps_checked _).bind fun _ => ?_)
    exact (keeps_setOffset _ _).then (keeps_pure _)

theorem keeps_clobberNext (column pos newLen shift spaceUsed : Int) :
    Keeps (Sized columns) (clobberNext column pos newLen shift spaceUsed) := by
  refine keeps_get_bind fun line => keeps_ite (fun _ => ?_) fun _ => keeps_ite (fun _ => ?_) fun _ => ?_
  · exact (keeps_setText _ _).then (keeps_setOffset _ _)
  · refine keeps_get_bind fun _ => (keeps_checked _).bind fun _ => ?_
    exact (keeps_setOffset _ _).then (keeps_setOffset _ _)
  · refine (keeps_overwriteNext _ _ _ _ _).bind fun shift => ?_
    exact (keeps_correctOffset _ _).then (keeps_shiftOffsets _ _)

theorem keeps_setChar (column codePoint : Int) :
    Keeps (Sized columns) (FullUnicodeLine.setChar column codePoint) := by
  refine keeps_get_bind fun line => keeps_throwIf.then ?_
  refine (keeps_checked _).bind fun spaceUsed => (keeps_checked _).bind fun pos => ?_
  refine (keeps_checked _).bind fun oldWidth => (keeps_checked _).bind fun oldLen => ?_
  refine (keeps_when fun _ => keeps_makeRoom _ _ _ _).then ((keeps_putChars _ _).then ?_)
  refine (keeps_when fun _ => keeps_moveText _ _ _).then ?_
  refine (keeps_when fun _ => keeps_setOffset _ _).then ?_
  refine keeps_ite (fun _ => keeps_padNarrow _ _ _ _ _) fun _ => ?_
  exact keeps_ite (fun _ => keeps_clobberNext _ _ _ _ _) fun _ => keeps_shiftOffsets _ _

end FullUnicodeLine

/-! ## §2  Slots -/

namespace UnicodeTranscript

variable {P : Style → Prop} {columns totalRows screenRows : Nat}

/-- The shape of a transcript whose styles satisfy `P`. -/
structure Holds (P : Style → Prop) (columns totalRows screenRows : Nat)
    (s : UnicodeTranscript) : Prop where
  width : s.mColumns = columns
  height : s.mTotalRows = totalRows
  screen : s.mScreenRows = screenRows
  lines : s.mLines.length = totalRows
  colors : s.mColor.length = totalRows
  flags : s.mLineWrap.length = totalRows
  text : ∀ line, some line ∈ s.mLines → line.Sized columns
  styles : ∀ color, some color ∈ s.mColor → color.Holds P columns
  base : P s.mDefaultStyle
  tmp : s.tmpColor.Holds P columns

theorem keeps_externalToInternalRow (extRow : Int) :
    Keeps (Holds P columns totalRows screenRows) (externalToInternalRow extRow) :=
  keeps_get_bind fun _ => keeps_throwIf.then (keeps_ite (fun _ => keeps_pure _) fun _ =>
    keeps_ite (fun _ => keeps_pure _) fun _ => keeps_pure _)

theorem keeps_setLine (i : Int) {line : Option Line} (hline : ∀ l, line = some l → l.Sized columns) :
    Keeps (Holds P columns totalRows screenRows) (setLine i line) := by
  apply keeps_read
  intro s h
  simp only [wp_bind, wp_checked, wp_set]
  refine ⟨fun lines hset => ?_, fun _ _ => h⟩
  refine { h with
    lines := (length_of_arraySet hset).trans h.lines
    text := fun l hl => ?_ }
  rcases mem_of_arraySet hset hl with heq | hmem
  · exact hline l heq.symm
  · exact h.text l hmem

theorem keeps_setColor (i : Int) {color : Option StyleRow}
    (hcolor : ∀ c, color = some c → c.Holds P columns) :
    Keeps (Holds P columns totalRows screenRows) (setColor i color) := by
  apply keeps_read
  intro s h
  simp only [wp_bind, wp_checked, wp_set]
  refine ⟨fun colors hset => ?_, fun _ _ => h⟩
  refine { h with
    colors := (length_of_arraySet hset).trans h.colors
    styles := fun c hc => ?_ }
  rcases mem_of_arraySet hset hc with heq | hmem
  · exact hcolor c heq.symm
  · exact h.styles c hmem

theorem keeps_storeLineWrap (i : Int) (wrap : Bool) :
    Keeps (Holds P columns totalRows screenRows) (storeLineWrap i wrap) := by
  apply keeps_read
  intro s h
  simp only [wp_bind, wp_checked, wp_set]
  refine ⟨fun flags hset => ?_, fun _ _ => h⟩
  exact { h with flags := (length_of_arraySet hset).trans h.flags }

/-- What is read from a slot has the shape of its array. -/
theorem wp_lineAt {s : UnicodeTranscript} (h : s.Holds P columns totalRows screenRows) (i : Int)
    {Q : Option Line → UnicodeTranscript → Prop} {E : Exn → UnicodeTranscript → Prop}
    (hQ : ∀ line, (∀ l, line = some l → l.Sized columns) → Q line s) (hE : ∀ e, E e s) :
    wp (lineAt i) Q E s := by
  unfold lineAt
  simp only [wp_bind, wp_get, wp_checked]
  refine ⟨fun line hget => hQ line ?_, fun e _ => hE e⟩
  rintro l rfl
  exact h.text l (mem_of_arrayGet hget)

theorem wp_colorAt {s : UnicodeTranscript} (h : s.Holds P columns totalRows screenRows) (i : Int)
    {Q : Option StyleRow → UnicodeTranscript → Prop} {E : Exn → UnicodeTranscript → Prop}
    (hQ : ∀ color, (∀ c, color = some c → c.Holds P columns) → Q color s) (hE : ∀ e, E e s) :
    wp (colorAt i) Q E s := by
  unfold colorAt
  simp only [wp_bind, wp_get, wp_checked]
  refine ⟨fun color hget => hQ color ?_, fun e _ => hE e⟩
  rintro c rfl
  exact h.styles c (mem_of_arrayGet hget)

theorem keeps_lineWrapAt (i : Int) :
    Keeps (Holds P columns totalRows screenRows) (lineWrapAt i) :=
  keeps_get_bind fun _ => keeps_checked _

theorem keeps_setLineWrap (row : Int) :
    Keeps (Holds P columns totalRows screenRows) (setLineWrap row) :=
  (keeps_externalToInternalRow row).bind fun r => keeps_storeLineWrap r true

theorem keeps_getLineWrap (row : Int) :
    Keeps (Holds P columns totalRows screenRows) (getLineWrap row) :=
  (keeps_externalToInternalRow row).bind fun r => keeps_lineWrapAt r

/-! ## §3  Scrolling and reading -/

theorem copyRowsInOrder_spec {α : Type} {oob : Exn} {n src dst : Int} {order : List Nat}
    {rows rows' : List α} (h : copyRowsInOrder oob n src dst order rows = .ok rows') :
    rows'.length = rows.length ∧ ∀ a ∈ rows', a ∈ rows := by
  induction order generalizing rows with
  | nil =>
      cases h
      exact ⟨rfl, fun _ ha => ha⟩
  | cons i order ih =>
      rw [copyRowsInOrder] at h
      cases hget : arrayGet oob rows ((src + i) % n) with
      | error e =>
          rw [hget] at h
          cases h
      | ok a =>
          cases hset : arraySet oob rows ((dst + i) % n) a with
          | error e =>
              simp only [hget, hset, bind, Except.bind] at h
              cases h
          | ok rows₁ =>
              simp only [hget, hset, bind, Except.bind] at h
              obtain ⟨hlen, hmem⟩ := ih h
              refine ⟨hlen.trans (length_of_arraySet hset), fun b hb => ?_⟩
              rcases mem_of_arraySet hset (hmem b hb) with rfl | hb
              · exact mem_of_arrayGet hget
              · exact hb

theorem copyRows_spec {α : Type} {oob : Exn} {n src len shift : Int} {rows rows' : List α}
    (h : copyRows oob n rows src len shift = .ok rows') :
    rows'.length = rows.length ∧ ∀ a ∈ rows', a ∈ rows := by
  unfold copyRows at h
  simp only [] at h
  generalize (if src + shift ≥ 0 then (src + shift) % n else n + src + shift) = dst at h
  by_cases hfast : src + len ≤ n ∧ dst + len ≤ n
  · rw [if_pos hfast] at h
    obtain ⟨hlen, hmem⟩ := arraycopy_spec h
    exact ⟨hlen, fun a ha => (hmem a ha).elim id id⟩
  · rw [if_neg hfast] at h
    by_cases hup : shift < 0
    · rw [if_pos hup] at h
      exact copyRowsInOrder_spec h
    · rw [if_neg hup] at h
      exact copyRowsInOrder_spec h

theorem keeps_blockCopyLines (src len shift : Int) :
    Keeps (Holds P columns totalRows screenRows) (blockCopyLines src len shift) := by
  apply keeps_read
  intro s h
  simp only [wp_bind, wp_checked, wp_set]
  refine ⟨fun lines hlines => ⟨fun color hcolor => ⟨fun flags hflags => ?_, fun _ _ => h⟩,
    fun _ _ => h⟩, fun _ _ => h⟩
  obtain ⟨llen, lmem⟩ := copyRows_spec hlines
  obtain ⟨clen, cmem⟩ := copyRows_spec hcolor
  obtain ⟨flen, _⟩ := copyRows_spec hflags
  exact { h with
    lines := llen.trans h.lines
    colors := clen.trans h.colors
    flags := flen.trans h.flags
    text := fun l hl => h.text l (lmem _ hl)
    styles := fun c hc => h.styles c (cmem _ hc) }

theorem keeps_advanceScreen (bottomMargin : Int) {style : Style} (hstyle : P style) :
    Keeps (Holds P columns totalRows screenRows) (advanceScreen bottomMargin style) := by
  refine Keeps.then (keeps_modify fun s h => ?_) ?_
  · exact { h with }
  · refine (keeps_externalToInternalRow _).bind fun r => ?_
    refine (keeps_setLine r (by rintro l ⟨⟩)).then (keeps_read fun s h => ?_)
    refine Keeps.then (keeps_setColor r ?_) (keeps_storeLineWrap r false) s h
    rintro c ⟨⟩
    rw [h.width]
    exact StyleRow.holds_create hstyle

theorem keeps_scroll (topMargin bottomMargin : Int) {style : Style} (hstyle : P style) :
    Keeps (Holds P columns totalRows screenRows) (scroll topMargin bottomMargin style) := by
  refine keeps_get_bind fun s => keeps_throwIf.then (keeps_throwIf.then (keeps_throwIf.then ?_))
  refine keeps_ite (fun _ => keeps_advanceScreen _ hstyle) fun _ => ?_
  refine (keeps_externalToInternalRow _).bind fun top => ?_
  refine (keeps_externalToInternalRow _).bind fun bottom => ?_
  intro t ht
  rw [wp_bind]
  refine wp_lineAt ht top (fun line hline => ?_) fun _ => ht
  rw [wp_bind]
  refine wp_colorAt ht top (fun color hcolor => ?_) fun _ => ht
  refine Keeps.bind (keeps_lineWrapAt top) (fun wrap => ?_) t ht
  refine (keeps_blockCopyLines _ _ _).then ((keeps_blockCopyLines _ _ _).then ?_)
  refine (keeps_setLine _ hline).then ((keeps_setColor _ hcolor).then ?_)
  exact (keeps_storeLineWrap _ _).then (keeps_advanceScreen _ hstyle)

/-- Nothing depends on `tmpLine`. -/
theorem keeps_tmpLine (tmp : Option (List JChar)) :
    Keeps (Holds P columns totalRows screenRows)
      (modify fun s => { s with tmpLine := tmp } : TranscriptM Unit) := by
  apply keeps_modify
  intro s h
  exact { h with }

theorem keeps_allocTmpLine (length : Int) :
    Keeps (Holds P columns totalRows screenRows) (allocTmpLine length) :=
  keeps_throwIf.then ((keeps_tmpLine _).then (keeps_pure _))

theorem keeps_takeTmpLine (length : Int) :
    Keeps (Holds P columns totalRows screenRows) (takeTmpLine length) := by
  refine keeps_get_bind fun s => ?_
  cases s.tmpLine with
  | none => exact keeps_allocTmpLine length
  | some tmp => exact keeps_ite (fun _ => keeps_allocTmpLine length) fun _ => keeps_pure _

theorem keeps_fillTmpLine (capacity : Int) (text : List JChar) (start length : Int) :
    Keeps (Holds P columns totalRows screenRows) (fillTmpLine capacity text start length) := by
  refine (keeps_takeTmpLine _).bind fun _ => (keeps_checked _).bind fun _ => ?_
  exact (keeps_checked _).bind fun _ => (keeps_tmpLine _).then (keeps_pure _)

theorem keeps_getLine (row x1 x2 : Int) :
    Keeps (Holds P columns totalRows screenRows) (getLine row x1 x2) := by
  refine keeps_get_bind fun s => keeps_throwIf.then ?_
  refine (keeps_externalToInternalRow _).bind fun r => ?_
  refine Keeps.bind (keeps_get_bind fun _ => keeps_checked _) fun line => ?_
  rcases line with _ | text | line
  · exact keeps_pure _
  · refine keeps_ite (fun _ => keeps_pure _) fun _ => ?_
    exact (keeps_fillTmpLine _ _ _ _).bind fun _ => keeps_pure _
  · refine (keeps_checked _).bind fun _ => (keeps_checked _).bind fun _ => ?_
    exact (keeps_fillTmpLine _ _ _ _).bind fun _ => keeps_pure _

theorem wp_getLineColor (row x1 x2 : Int)
    (hP : ∀ style, P style → P (TextStyle.narrow style)) {s : UnicodeTranscript}
    (h : s.Holds P columns totalRows screenRows) :
    wp (getLineColor row x1 x2)
      (fun color t => t.Holds P columns totalRows screenRows ∧
        ∀ c, color = some c → c.Holds P columns)
      (fun _ t => t.Holds P columns totalRows screenRows) s := by
  unfold getLineColor
  simp only [wp_bind, wp_get, wp_throwIf]
  refine ⟨fun _ => h, fun _ => ?_⟩
  refine wp_mono (keeps_externalToInternalRow row s h) (fun r t ht => ?_) fun _ _ ht => ht
  refine wp_colorAt ht r (fun color hcolor => ?_) fun _ => ht
  rcases color with _ | color
  · exact (wp_pure _ _ _ _).mpr ⟨ht, fun c hc => by cases hc⟩
  · simp only [wp_bind, wp_ite, wp_pure, wp_checked, wp_modify]
    refine ⟨fun _ => ⟨ht, hcolor⟩, fun _ => ⟨fun copied hcopy => ?_, fun _ _ => ht⟩⟩
    obtain ⟨hsrc, hdst⟩ := (hcolor _ rfl).copyTo h.tmp hP hcopy
    refine wp_mono (keeps_setColor r ?_ t ht) (fun _ v hv => ?_) fun _ _ hv => hv
    · rintro c ⟨⟩
      exact hsrc
    · refine ⟨{ hv with tmp := hdst }, ?_⟩
      rintro c ⟨⟩
      exact hdst

/-! ## §4  Writing -/

section Writing

variable [Platform] (hP0 : P 0) (hP : ∀ style, P style → P (TextStyle.narrow style))

omit [Platform] in
include hP0 in
theorem keeps_allocateLine (row : Int) {line : Line} (hline : line.Sized columns) :
    Keeps (Holds P columns totalRows screenRows) (allocateLine row line) := by
  refine Keeps.then (keeps_setLine row ?_) ?_
  · rintro l ⟨⟩
    exact hline
  · refine (keeps_get_bind fun _ => keeps_checked _).bind fun color => keeps_read fun s h => ?_
    refine keeps_when (fun _ => keeps_setColor row ?_) s h
    rintro c ⟨⟩
    rw [h.width]
    exact StyleRow.holds_create hP0

theorem keeps_setFull (column codePoint r : Int) {line : FullUnicodeLine}
    (hline : line.Sized columns) :
    Keeps (Holds P columns totalRows screenRows) (setChar.setFull column codePoint r line) := by
  intro s h
  have hput (line' : FullUnicodeLine) (hline' : line'.Sized columns) :
      Holds P columns totalRows screenRows
        { s with mLines := s.mLines.set r.toNat (some (.full line')) } := by
    refine { h with
      lines := (List.length_set).trans h.lines
      text := fun l hl => ?_ }
    rcases List.mem_or_eq_of_mem_set hl with hmem | heq
    · exact h.text l hmem
    · cases heq
      exact hline'
  unfold setChar.setFull
  rw [wp_runOn]
  exact wp_mono (FullUnicodeLine.keeps_setChar column codePoint line hline)
    (fun _ line' hline' => hput line' hline') fun _ line' hline' => hput line' hline'

include hP0 in
theorem keeps_setChar (column row codePoint : Int) :
    Keeps (Holds P columns totalRows screenRows) (setChar column row codePoint) := by
  apply keeps_read
  intro s h
  refine keeps_throwIf.then ((keeps_externalToInternalRow _).bind fun r => ?_) s h
  refine Keeps.bind (keeps_get_bind fun _ => keeps_checked _) fun line => ?_
  refine Keeps.then (keeps_when fun _ => keeps_allocateLine hP0 r ?_) ?_
  · rw [h.width]
    by_cases hbasic : isBasicChar codePoint = true
    · rw [if_pos hbasic]
      exact List.length_replicate
    · rw [if_neg hbasic]
      exact FullUnicodeLine.sized_ofBasic List.length_replicate
  · intro t ht
    rw [wp_bind]
    refine wp_lineAt ht r (fun line hline => ?_) fun _ => ht
    rcases line with _ | text | line
    · exact keeps_throw _ t ht
    · have htext : text.length = columns := hline _ rfl
      refine keeps_ite (fun _ => ?_) (fun _ => ?_) t ht
      · intro u hu
        simp only [wp_bind, wp_checked]
        refine ⟨fun text' hset => keeps_setLine r ?_ u hu, fun _ _ => hu⟩
        rintro l ⟨⟩
        exact (length_of_arraySet hset).trans htext
      · refine Keeps.then (keeps_setLine r ?_)
          (keeps_setFull _ _ _ (FullUnicodeLine.sized_ofBasic htext))
        rintro l ⟨⟩
        exact FullUnicodeLine.sized_ofBasic htext
    · exact keeps_setFull _ _ _ (hline _ rfl) t ht

include hP0 hP in
theorem keeps_setCharStyle (column row codePoint : Int) {style : Style} (hstyle : P style) :
    Keeps (Holds P columns totalRows screenRows) (setCharStyle column row codePoint style) := by
  refine Keeps.then (keeps_setChar hP0 column row codePoint) ?_
  refine (keeps_externalToInternalRow _).bind fun r => ?_
  intro t ht
  rw [wp_bind]
  refine wp_colorAt ht r (fun color hcolor => ?_) fun _ => ht
  rcases color with _ | color
  · rw [wp_bind]
    exact (wp_throw _ _ _ _).mpr ht
  · have hput (color' : StyleRow) (hcolor' : color'.Holds P columns) :
        Holds P columns totalRows screenRows
          { t with mColor := t.mColor.set r.toNat (some color') } := by
      refine { ht with
        colors := (List.length_set).trans ht.colors
        styles := fun c hc => ?_ }
      rcases List.mem_or_eq_of_mem_set hc with hmem | heq
      · exact ht.styles c hmem
      · cases heq
        exact hcolor'
    rw [wp_bind]
    refine (wp_pure _ _ _ _).mpr ?_
    rw [wp_runOn]
    exact wp_mono (StyleRow.keeps_set hP hstyle color (hcolor _ rfl))
      (fun _ color' hcolor' => hput color' hcolor') fun _ color' hcolor' => hput color' hcolor'

include hP0 hP in
theorem keeps_blockSet (sx sy w h val : Int) {style : Style} (hstyle : P style) :
    Keeps (Holds P columns totalRows screenRows) (blockSet sx sy w h val style) :=
  keeps_get_bind fun _ => keeps_throwIf.then (keeps_repeatFor fun _ => keeps_repeatFor fun _ =>
    keeps_setCharStyle hP0 hP _ _ _ hstyle)

include hP0 in
theorem keeps_copyChars (dx extDstRow : Int) (chars : List JChar) (cHigh : JChar) (x : Int) :
    Keeps (Holds P columns totalRows screenRows) (copyChars dx extDstRow chars cHigh x) := by
  induction chars generalizing cHigh x with
  | nil => exact keeps_pure _
  | cons c rest ih =>
      refine keeps_get_bind fun s => keeps_ite (fun _ => keeps_pure _) fun _ => ?_
      refine keeps_ite (fun _ => ih _ _) fun _ => ?_
      exact (keeps_setChar hP0 _ _ _).then (ih _ _)

omit [Platform] in
include hP in
theorem keeps_copyColor (srcRow sx dstRow dx w : Int) :
    Keeps (Holds P columns totalRows screenRows) (copyColor srcRow sx dstRow dx w) := by
  intro s h
  unfold copyColor
  rw [wp_bind]
  refine wp_colorAt h srcRow (fun src hsrc => ?_) fun _ => h
  rcases src with _ | src
  · rw [wp_bind]
    exact (wp_throw _ _ _ _).mpr h
  rw [wp_bind]
  refine (wp_pure _ _ _ _).mpr ?_
  rw [wp_bind]
  refine wp_colorAt h dstRow (fun dst hdst => ?_) fun _ => h
  rcases dst with _ | dst
  · rw [wp_bind]
    exact (wp_throw _ _ _ _).mpr h
  rw [wp_bind]
  refine (wp_pure _ _ _ _).mpr ?_
  rw [wp_bind, wp_checked]
  refine ⟨fun copied hcopy => ?_, fun _ _ => h⟩
  obtain ⟨hsrc', hdst'⟩ := (hsrc _ rfl).copyTo (hdst _ rfl) hP hcopy
  refine Keeps.then (keeps_setColor srcRow ?_) (keeps_setColor dstRow ?_) s h
  · rintro c ⟨⟩
    exact hsrc'
  · rintro c ⟨⟩
    exact hdst'

include hP0 hP in
theorem keeps_copyRow (sx sy w dx dy y : Int) :
    Keeps (Holds P columns totalRows screenRows) (copyRow sx sy w dx dy y) := by
  refine (keeps_externalToInternalRow _).bind fun srcRow => ?_
  refine (keeps_externalToInternalRow _).bind fun dstRow => ?_
  intro s h
  rw [wp_bind]
  refine wp_lineAt h srcRow (fun src hsrc => ?_) fun _ => h
  rw [wp_bind]
  refine wp_lineAt h dstRow (fun dst hdst => ?_) fun _ => h
  have hslow {f : Option (List JChar) → TranscriptM Unit}
      (hnone : f none = (get >>= fun t => blockSet dx (dy + y) w 1 32 t.mDefaultStyle))
      (hsome : ∀ tmp, f (some tmp) = (do
        copyChars dx (dy + y) tmp 0 0
        copyColor srcRow sx dstRow dx w : TranscriptM Unit)) :
      Keeps (Holds P columns totalRows screenRows) (getLine (sy + y) sx (sx + w) >>= f) := by
    refine (keeps_getLine _ _ _).bind fun tmp => ?_
    rcases tmp with _ | tmp
    · rw [hnone]
      exact keeps_read fun t ht => keeps_blockSet hP0 hP _ _ _ _ _ ht.base t ht
    · rw [hsome]
      exact (keeps_copyChars hP0 _ _ _ _ _).then (keeps_copyColor hP _ _ _ _ _)
  rcases src with _ | text | line
  · exact hslow rfl (fun _ => rfl) s h
  · rcases dst with _ | text' | line'
    · exact hslow rfl (fun _ => rfl) s h
    · -- both rows are basic
      have htext : text'.length = columns := hdst _ rfl
      rw [wp_bind, wp_checked]
      refine ⟨fun copied hcopy => ?_, fun _ _ => h⟩
      refine Keeps.then (keeps_setLine dstRow ?_) (keeps_copyColor hP _ _ _ _ _) s h
      rintro l ⟨⟩
      exact (arraycopy_spec hcopy).1.trans htext
    · exact hslow rfl (fun _ => rfl) s h
  · exact hslow rfl (fun _ => rfl) s h

include hP0 hP in
theorem keeps_blockCopy (sx sy w h dx dy : Int) :
    Keeps (Holds P columns totalRows screenRows) (blockCopy sx sy w h dx dy) := by
  refine keeps_get_bind fun s => keeps_throwIf.then (keeps_ite (fun _ => ?_) fun _ => ?_)
  · exact keeps_repeatFor fun _ => keeps_copyRow hP0 hP _ _ _ _ _ _
  · exact keeps_repeatFor fun _ => keeps_copyRow hP0 hP _ _ _ _ _ _

end Writing

/-! ## §5  Resizing -/

theorem holds_create {style : Style} (h : P style) :
    Holds P columns totalRows screenRows (create columns totalRows screenRows style) where
  width := rfl
  height := rfl
  screen := rfl
  lines := List.length_replicate
  colors := List.length_replicate
  flags := List.length_replicate
  text := by
    intro line hline
    cases (List.mem_replicate.mp hline).2
  styles := by
    intro color hcolor
    cases (List.mem_replicate.mp hcolor).2
  base := h
  tmp := StyleRow.holds_create h

theorem keeps_clearSlots (n : Int) :
    Keeps (Holds P columns totalRows screenRows) (clearSlots n) := by
  refine keeps_get_bind fun s => keeps_repeatFor fun i => ?_
  refine (keeps_setLine _ (by rintro l ⟨⟩)).then ?_
  exact (keeps_setColor _ (by rintro c ⟨⟩)).then (keeps_storeLineWrap _ _)

theorem keeps_hideBlankRows (n : Nat) (i shift : Int) :
    Keeps (Holds P columns totalRows screenRows) (hideBlankRows n i shift) := by
  induction n generalizing i shift with
  | zero => exact keeps_pure _
  | succ n ih =>
      refine (keeps_externalToInternalRow _).bind fun r => ?_
      refine (keeps_get_bind fun _ => keeps_checked _).bind fun line => ?_
      refine keeps_ite (fun _ => ?_) fun _ => keeps_pure _
      exact keeps_ite (fun _ => keeps_pure _) fun _ => ih _ _

theorem keeps_resizeShift (newRows cursorRow : Int) :
    Keeps (Holds P columns totalRows screenRows) (resizeShift newRows cursorRow) := by
  refine keeps_get_bind fun s => keeps_ite (fun _ => ?_) fun _ => ?_
  · exact (keeps_clearSlots _).then (keeps_pure _)
  · exact keeps_ite (fun _ => keeps_hideBlankRows _ _ _) fun _ => keeps_pure _

/-- A resize in place changes the height of the screen alone. -/
theorem wp_resize {s : UnicodeTranscript} (h : s.Holds P columns totalRows screenRows)
    (newColumns newRows cursorRow : Int) :
    wp (resize newColumns newRows cursorRow)
      (fun r t => if r.1 then newColumns = columns ∧ t.Holds P columns totalRows newRows.toNat
        else t.Holds P columns totalRows screenRows)
      (fun _ t => t.Holds P columns totalRows screenRows) s := by
  unfold resize
  simp only [wp_bind, wp_get, wp_ite, wp_pure, wp_modify, h.width, h.height]
  refine ⟨fun _ => ?_, fun hsame => ?_⟩
  · rw [if_neg Bool.false_ne_true]
    exact h
  · refine wp_mono (keeps_resizeShift newRows cursorRow s h) (fun shift t ht => ?_) fun _ _ ht => ht
    rw [if_pos trivial]
    exact ⟨by omega, { ht with screen := rfl }⟩

end UnicodeTranscript

/-! ## §6  The screen -/

namespace TranscriptScreen

variable {P : Style → Prop} {columns totalRows screenRows : Nat}

/-- The shape of a screen whose styles satisfy `P`. -/
structure Holds (P : Style → Prop) (columns totalRows screenRows : Nat)
    (s : TranscriptScreen) : Prop where
  width : s.mColumns = columns
  height : s.mTotalRows = totalRows
  screen : s.mScreenRows = screenRows
  data : s.mData.Holds P columns totalRows screenRows

theorem keeps_onData {α : Type} {x : TranscriptM α}
    (hx : Keeps (UnicodeTranscript.Holds P columns totalRows screenRows) x) :
    Keeps (Holds P columns totalRows screenRows) (onData x) :=
  keeps_onField hx (fun _ h => h.data) fun _ _ h ht => { h with data := ht }

theorem wp_fastResize {s : TranscriptScreen} (h : s.Holds P columns totalRows screenRows)
    (newColumns newRows cursorRow : Int) :
    wp (fastResize newColumns newRows cursorRow)
      (fun r t => if r.1 then newColumns = columns ∧ t.Holds P columns totalRows newRows.toNat
        else t.Holds P columns totalRows screenRows)
      (fun _ t => t.Holds P columns totalRows screenRows) s := by
  unfold fastResize onData
  rw [wp_bind, wp_onField]
  refine wp_mono (UnicodeTranscript.wp_resize h.data newColumns newRows cursorRow)
    (fun r t ht => ?_) fun _ _ ht => { h with data := ht }
  obtain ⟨done, row⟩ := r
  cases done with
  | false =>
      simp only [wp_bind, wp_when, Bool.false_eq_true, false_implies, not_false_eq_true,
        true_implies, true_and, wp_pure, if_false]
      exact { h with data := ht }
  | true =>
      obtain ⟨hcols, hdata⟩ := ht
      simp only [wp_bind, wp_when, wp_modify, true_implies, not_true_eq_false, false_implies,
        and_true, wp_pure, if_true]
      exact ⟨hcols, ⟨by show newColumns.toNat = columns; omega, h.height, rfl, hdata⟩⟩

variable [Platform] (hP0 : P 0) (hP : ∀ style, P style → P (TextStyle.narrow style))

include hP0 hP in
theorem keeps_set (x y codePoint : Int) {style : Style} (hstyle : P style) :
    Keeps (Holds P columns totalRows screenRows) (TranscriptScreen.set x y codePoint style) :=
  keeps_onData (UnicodeTranscript.keeps_setCharStyle hP0 hP _ _ _ hstyle)

include hP0 hP in
theorem keeps_blockCopy (sx sy w h dx dy : Int) :
    Keeps (Holds P columns totalRows screenRows) (blockCopy sx sy w h dx dy) :=
  keeps_onData (UnicodeTranscript.keeps_blockCopy hP0 hP _ _ _ _ _ _)

include hP0 hP in
theorem keeps_blockSet (sx sy w h val : Int) {style : Style} (hstyle : P style) :
    Keeps (Holds P columns totalRows screenRows) (blockSet sx sy w h val style) :=
  keeps_onData (UnicodeTranscript.keeps_blockSet hP0 hP _ _ _ _ _ hstyle)

include hP0 hP in
/-- Whatever the screen was, it has the new shape. -/
theorem wp_init (s : TranscriptScreen) {style : Style} (hstyle : P style) :
    wp (init columns totalRows screenRows style) (fun _ => Holds P columns totalRows screenRows)
      (fun _ => Holds P columns totalRows screenRows) s := by
  unfold init
  rw [wp_bind, wp_set]
  exact keeps_onData (UnicodeTranscript.keeps_blockSet hP0 hP _ _ _ _ _ hstyle) _
    ⟨rfl, rfl, rfl, UnicodeTranscript.holds_create hstyle⟩

/-! ## §7  Extracted text -/

omit [Platform] in
theorem keeps_getLineWrap (row : Int) : Keeps (Holds P columns totalRows screenRows)
    (onData (UnicodeTranscript.getLineWrap row)) :=
  keeps_onData (UnicodeTranscript.keeps_getLineWrap row)

omit [Platform] in
theorem columnStyle_of {color : Option StyleRow} (hcolor : ∀ c, color = some c → c.Holds P columns)
    {defaultColor style : Style} (hdefault : P defaultColor) {column : Int}
    (h : columnStyle color defaultColor column = .ok style) : P style := by
  cases color with
  | none =>
      cases h
      exact hdefault
  | some color => exact (hcolor _ rfl).of_get h

theorem scanColors_of {color : Option StyleRow} {defaultColor : Style}
    (hcolor : ∀ column style, columnStyle color defaultColor column = .ok style → P style)
    {line : List JChar} {last : Int} {n : Nat} {j column : Int} {styles : List Style}
    (h : scanColors color defaultColor line last n j column = .ok styles) :
    ∀ style ∈ styles, P style := by
  induction n generalizing j column styles with
  | zero =>
      cases h
      intro style hstyle
      cases hstyle
  | succ n ih =>
      rw [scanColors] at h
      by_cases hj : j ≤ last
      · rw [if_pos hj] at h
        obtain ⟨style, hstyle, h⟩ := bind_ok_iff.mp h
        obtain ⟨column', _, h⟩ := bind_ok_iff.mp h
        obtain ⟨c, _, h⟩ := bind_ok_iff.mp h
        obtain ⟨rest, hrest, h⟩ := bind_ok_iff.mp h
        cases h
        intro style' hmem
        rcases List.mem_cons.mp hmem with rfl | hmem
        · exact hcolor _ _ hstyle
        · exact ih hrest style' hmem
      · rw [if_neg hj] at h
        cases h
        intro style hstyle
        cases hstyle

theorem lineText_of {color : Option StyleRow} (hcolor : ∀ c, color = some c → c.Holds P columns)
    {defaultColor : Style} (hdefault : P defaultColor) {width : Int} {wrapped : Bool}
    {line : List JChar} {r : RowText} (h : lineText width color defaultColor wrapped line = .ok r) :
    ∀ style ∈ r.colors, P style := by
  unfold lineText at h
  obtain ⟨⟨i, last⟩, _, h⟩ := bind_ok_iff.mp h
  obtain ⟨colors, hcolors, h⟩ := bind_ok_iff.mp h
  cases h
  exact scanColors_of (fun _ _ hstyle => columnStyle_of hcolor hdefault hstyle) hcolors

include hP0 hP in
/-- The styles of extracted text are in `P` as well. -/
theorem wp_rowText {s : TranscriptScreen} (h : s.Holds P columns totalRows screenRows)
    (withColors : Bool) (selX1 selY1 selX2 selY2 row : Int) :
    wp (rowText withColors selX1 selY1 selX2 selY2 row)
      (fun r t => t.Holds P columns totalRows screenRows ∧ ∀ style ∈ r.colors, P style)
      (fun _ t => t.Holds P columns totalRows screenRows) s := by
  unfold rowText
  rw [wp_bind, wp_get, wp_bind]
  refine wp_mono (keeps_onData (UnicodeTranscript.keeps_getLine _ _ _) s h)
    (fun line t ht => ?_) fun _ _ ht => ht
  rw [wp_bind]
  have hcolors : wp (if withColors = true then
        onData (UnicodeTranscript.getLineColor row (if row = selY1 then selX1 else 0)
          (if row = selY2 then min (selX2 + 1) s.mColumns else s.mColumns)) else pure none)
      (fun color u => u.Holds P columns totalRows screenRows ∧
        ∀ c, color = some c → c.Holds P columns)
      (fun _ u => u.Holds P columns totalRows screenRows) t := by
    rw [wp_ite]
    refine ⟨fun _ => ?_, fun _ => ?_⟩
    · unfold onData
      rw [wp_onField]
      exact wp_mono (UnicodeTranscript.wp_getLineColor _ _ _ hP ht.data)
        (fun _ _ hu => ⟨{ ht with data := hu.1 }, hu.2⟩) fun _ _ hu => { ht with data := hu }
    · rw [wp_pure]
      exact ⟨ht, fun c hc => by cases hc⟩
  refine wp_mono hcolors (fun color u hu => ?_) fun _ _ hu => hu
  obtain ⟨hu, hcolor⟩ := hu
  rw [wp_bind]
  refine wp_mono (keeps_getLineWrap row u hu) (fun wrapped v hv => ?_) fun _ _ hv => hv
  have hnewline (c : Prop) [Decidable c] :
      ∀ style ∈ (if c then (⟨[10], [0]⟩ : RowText) else ⟨[], []⟩).colors, P style := by
    intro style hstyle
    split at hstyle
    · rw [List.mem_singleton.mp hstyle]
      exact hP0
    · cases hstyle
  rcases line with _ | line
  · exact (wp_pure _ _ _ _).mpr ⟨hv, hnewline _⟩
  · simp only [wp_bind, wp_checked, wp_pure]
    refine ⟨fun r hr => ⟨hv, fun style hstyle => ?_⟩, fun _ _ => hv⟩
    rcases List.mem_append.mp hstyle with hmem | hmem
    · exact lineText_of hcolor h.data.base hr style hmem
    · exact hnewline _ style hmem

include hP0 hP in
theorem wp_rowTexts {s : TranscriptScreen} (h : s.Holds P columns totalRows screenRows)
    (withColors : Bool) (selX1 selY1 selX2 selY2 : Int) (n : Nat) (row : Int) :
    wp (rowTexts withColors selX1 selY1 selX2 selY2 n row)
      (fun r t => t.Holds P columns totalRows screenRows ∧ ∀ style ∈ r.colors, P style)
      (fun _ t => t.Holds P columns totalRows screenRows) s := by
  induction n generalizing s row with
  | zero => exact (wp_pure _ _ _ _).mpr ⟨h, fun style hstyle => by cases hstyle⟩
  | succ n ih =>
      rw [rowTexts, wp_bind]
      refine wp_mono (wp_rowText hP0 hP h _ _ _ _ _ _) (fun r t ht => ?_) fun _ _ ht => ht
      rw [wp_bind]
      refine wp_mono (ih ht.1 (row + 1)) (fun rest u hu => ?_) fun _ _ hu => hu
      rw [wp_pure]
      refine ⟨hu.1, fun style hstyle => ?_⟩
      rcases List.mem_append.mp hstyle with hmem | hmem
      · exact ht.2 style hmem
      · exact hu.2 style hmem

include hP0 hP in
theorem wp_getSelectedText {s : TranscriptScreen} (h : s.Holds P columns totalRows screenRows)
    (withColors : Bool) (selX1 selY1 selX2 selY2 : Int) :
    wp (getSelectedText withColors selX1 selY1 selX2 selY2)
      (fun r t => t.Holds P columns totalRows screenRows ∧ ∀ style ∈ r.colors, P style)
      (fun _ t => t.Holds P columns totalRows screenRows) s := by
  unfold getSelectedText internalGetTranscriptText
  rw [wp_bind, wp_get]
  exact wp_rowTexts hP0 hP h _ _ _ _ _ _ _

include hP0 hP in
theorem wp_getTranscriptText {s : TranscriptScreen} (h : s.Holds P columns totalRows screenRows)
    (withColors : Bool) :
    wp (getTranscriptText withColors)
      (fun r t => t.Holds P columns totalRows screenRows ∧ ∀ style ∈ r.colors, P style)
      (fun _ t => t.Holds P columns totalRows screenRows) s := by
  unfold getTranscriptText
  rw [wp_bind, wp_get]
  exact wp_getSelectedText hP0 hP h _ _ _ _ _

end TranscriptScreen

end Kbox.Emulatorview
