import Kbox.Emulatorview.ResizedRows
import Kbox.Framework.Keeps

/-!
# Which rows a method touches

Every method that writes to a row, or copies rows, leaves the other rows of the
screen in their slots as they are.  Scrolling a region moves the rows outside
it from slot to slot, and leaves them where they are on the screen.
-/

namespace Kbox.Emulatorview.UnicodeTranscript

open Kbox.Framework

/-! ## §1  Rows of the screen -/

/-- The slot of a row of the screen; the rows of the transcript follow, from the oldest on. -/
def screenSlot (s : UnicodeTranscript) (y : Nat) : Nat := (s.mScreenFirstRow + y) % s.mTotalRows

/-- A row of the screen. -/
def screenRow (s : UnicodeTranscript) (y : Nat) : StoredRow := s.slot (s.screenSlot y)

/-- `t` is `s`, but for the rows outside `Q`. -/
structure Fixes (Q : Nat → Prop) (s t : UnicodeTranscript) : Prop where
  first : t.mScreenFirstRow = s.mScreenFirstRow
  total : t.mTotalRows = s.mTotalRows
  screenRows : t.mScreenRows = s.mScreenRows
  active : t.mActiveTranscriptRows = s.mActiveTranscriptRows
  columns : t.mColumns = s.mColumns
  lines : t.mLines.length = s.mLines.length
  colors : t.mColor.length = s.mColor.length
  flags : t.mLineWrap.length = s.mLineWrap.length
  kept : ∀ y < s.mTotalRows, Q y → t.slot (s.screenSlot y) = s.slot (s.screenSlot y)

/-- `row` is no row of `Q`. -/
def Avoids (Q : Nat → Prop) (s : UnicodeTranscript) (row : Int) : Prop :=
  ∀ y < s.mTotalRows, Q y → row ≠ y ∧ row + s.mTotalRows ≠ y

/-- A slot that holds no row of `Q`. -/
def Free (Q : Nat → Prop) (s : UnicodeTranscript) (r : Int) : Prop :=
  0 ≤ r ∧ ∀ y < s.mTotalRows, Q y → r ≠ s.screenSlot y

variable {Q : Nat → Prop} {s t : UnicodeTranscript}

theorem Fixes.refl (s : UnicodeTranscript) : Fixes Q s s :=
  ⟨rfl, rfl, rfl, rfl, rfl, rfl, rfl, rfl, fun _ _ _ => rfl⟩

theorem Fixes.screenRow (h : Fixes Q s t) {y : Nat} (hy : y < s.mTotalRows) (hQ : Q y) :
    t.screenRow y = s.screenRow y := by
  have hslot : t.screenSlot y = s.screenSlot y := by
    unfold screenSlot
    rw [h.first, h.total]
  unfold UnicodeTranscript.screenRow
  rw [hslot]
  exact h.kept y hy hQ

theorem Fixes.ring (h : Fixes Q s t) (hs : Ring s) : Ring t where
  lines := by rw [h.lines, h.total, hs.lines]
  colors := by rw [h.colors, h.total, hs.colors]
  flags := by rw [h.flags, h.total, hs.flags]
  first_lt := by
    rw [h.first, h.total]
    exact hs.first_lt
  rows_le := by
    unfold getActiveRows
    rw [h.active, h.screenRows, h.total]
    exact hs.rows_le

/-- Rows of `Q` lie in different slots than all other rows. -/
theorem free_internalRow (hs : Ring s) {row : Int} (hrow : s.InRange row)
    (hQ : s.Avoids Q row) : Free Q s (s.internalRow row) := by
  have hrange := hrow
  unfold InRange at hrange
  have hfirst := hs.first_lt
  have hle := hs.rows_le
  unfold getActiveRows at hle
  rw [internalRow_eq hs hrow]
  refine ⟨Int.natCast_nonneg _, fun y hy hQy heq => ?_⟩
  obtain ⟨hne, hne'⟩ := hQ y hy hQy
  rcases Int.lt_or_le row 0 with hneg | hpos
  · have hslot : s.slotOfRow (row + s.mActiveTranscriptRows).toNat =
        s.screenSlot (row + s.mTotalRows).toNat := by
      unfold screenSlot slotOfRow
      rw [show s.mScreenFirstRow + s.mTotalRows - s.mActiveTranscriptRows +
        (row + s.mActiveTranscriptRows).toNat =
          s.mScreenFirstRow + (row + s.mTotalRows).toNat by omega]
    rw [hslot] at heq
    have hinj := ring_index_inj (by omega) hy (Int.ofNat_inj.mp heq)
    omega
  · have hslot : s.slotOfRow (row + s.mActiveTranscriptRows).toNat = s.screenSlot row.toNat := by
      unfold screenSlot slotOfRow
      rw [show s.mScreenFirstRow + s.mTotalRows - s.mActiveTranscriptRows +
        (row + s.mActiveTranscriptRows).toNat = s.mScreenFirstRow + row.toNat + s.mTotalRows by
          omega, Nat.add_mod_right]
    rw [hslot] at heq
    have hinj := ring_index_inj (by omega) hy (Int.ofNat_inj.mp heq)
    omega

/-! ## §2  Writing to a row -/

theorem fixes_setLine {r : Int} (hr : Free Q s r) (line : Option Line) :
    Keeps (Fixes Q s) (setLine r line) := by
  apply keeps_read
  intro t ht
  rw [wp_bind, wp_checked]
  refine ⟨fun lines hset => ?_, fun _ _ => ht⟩
  rw [wp_set]
  refine { ht with lines := (length_of_arraySet hset).trans ht.lines, kept := fun y hy hQ => ?_ }
  rw [← ht.kept y hy hQ]
  have hne := hr.2 y hy hQ
  unfold arraySet at hset
  split_ifs at hset
  cases hset
  unfold slot
  rw [List.getElem?_set_ne (by have := hr.1; omega)]

theorem fixes_setColor {r : Int} (hr : Free Q s r) (color : Option StyleRow) :
    Keeps (Fixes Q s) (setColor r color) := by
  apply keeps_read
  intro t ht
  rw [wp_bind, wp_checked]
  refine ⟨fun colors hset => ?_, fun _ _ => ht⟩
  rw [wp_set]
  refine { ht with colors := (length_of_arraySet hset).trans ht.colors, kept := fun y hy hQ => ?_ }
  rw [← ht.kept y hy hQ]
  have hne := hr.2 y hy hQ
  unfold arraySet at hset
  split_ifs at hset
  cases hset
  unfold slot
  rw [List.getElem?_set_ne (by have := hr.1; omega)]

theorem fixes_storeLineWrap {r : Int} (hr : Free Q s r) (wrap : Bool) :
    Keeps (Fixes Q s) (storeLineWrap r wrap) := by
  apply keeps_read
  intro t ht
  rw [wp_bind, wp_checked]
  refine ⟨fun flags hset => ?_, fun _ _ => ht⟩
  rw [wp_set]
  refine { ht with flags := (length_of_arraySet hset).trans ht.flags, kept := fun y hy hQ => ?_ }
  rw [← ht.kept y hy hQ]
  have hne := hr.2 y hy hQ
  unfold arraySet at hset
  split_ifs at hset
  cases hset
  unfold slot
  rw [List.getElem?_set_ne (by have := hr.1; omega)]

section Reading

variable {I : UnicodeTranscript → Prop}

theorem keeps_rowNumber (extRow : Int) : Keeps I (externalToInternalRow extRow) :=
  keeps_get_bind fun _ => keeps_throwIf.then (keeps_ite (fun _ => keeps_pure _) fun _ =>
    keeps_ite (fun _ => keeps_pure _) fun _ => keeps_pure _)

theorem keeps_lineAt (i : Int) : Keeps I (lineAt i) := keeps_get_bind fun _ => keeps_checked _

theorem keeps_colorAt (i : Int) : Keeps I (colorAt i) := keeps_get_bind fun _ => keeps_checked _

theorem keeps_nonNull {α : Type} (a : Option α) : Keeps I (nonNull a) := by
  cases a with
  | none => exact keeps_throw _
  | some a => exact keeps_pure a

end Reading

/-- The slot of a row outside `Q`. -/
theorem wp_rowNumber (hs : Ring s) (ht : Fixes Q s t) {row : Int} (hlt : row < s.mScreenRows)
    (hQ : s.Avoids Q row) :
    wp (externalToInternalRow row) (fun r u => u = t ∧ Free Q s r) (fun _ u => u = t) t := by
  by_cases hrow : s.InRange row
  · have hrow' : t.InRange row := by
      unfold InRange at hrow ⊢
      rw [ht.active, ht.screenRows]
      exact hrow
    have hsame : t.internalRow row = s.internalRow row := by
      unfold internalRow
      rw [ht.first, ht.total]
    rw [wp_of_ok (externalToInternalRow_of_inRange hrow'), hsame]
    exact ⟨rfl, free_internalRow hs hrow hQ⟩
  · have hout : row < -t.mActiveTranscriptRows ∨ row > t.mScreenRows := by
      unfold InRange at hrow
      rw [ht.active, ht.screenRows]
      omega
    have herror : externalToInternalRow row t = .error .illegalArgument t := by
      rw [externalToInternalRow_eq, if_pos hout]
    rw [wp_of_error herror]

/-- What a method does with the slot of its row. -/
theorem keeps_row_bind {β : Type} (hs : Ring s) {row : Int} (hlt : row < s.mScreenRows)
    (hQ : s.Avoids Q row) {f : Int → TranscriptM β}
    (hf : ∀ r, Free Q s r → Keeps (Fixes Q s) (f r)) :
    Keeps (Fixes Q s) (externalToInternalRow row >>= f) := by
  intro t ht
  rw [wp_bind]
  refine wp_mono (wp_rowNumber hs ht hlt hQ) ?_ fun _ _ hu => hu ▸ ht
  rintro r _ ⟨rfl, hr⟩
  exact hf r hr _ ht

theorem fixes_setLineWrap (hs : Ring s) {row : Int} (hlt : row < s.mScreenRows)
    (hQ : s.Avoids Q row) : Keeps (Fixes Q s) (setLineWrap row) :=
  keeps_row_bind hs hlt hQ fun _ hr => fixes_storeLineWrap hr true

section Writing

variable [Platform]

omit [Platform] in
theorem fixes_allocateLine {r : Int} (hr : Free Q s r) (line : Line) :
    Keeps (Fixes Q s) (allocateLine r line) := by
  refine (fixes_setLine hr _).then ((keeps_colorAt r).bind fun color => ?_)
  exact keeps_get_bind fun _ => keeps_when fun _ => fixes_setColor hr _

/-- A line or a style row that is put back into its slot. -/
theorem fixes_setFull (column codePoint : Int) {r : Int} (hr : Free Q s r)
    (line : FullUnicodeLine) : Keeps (Fixes Q s) (setChar.setFull column codePoint r line) := by
  intro t ht
  have hput (line' : FullUnicodeLine) :
      Fixes Q s { t with mLines := t.mLines.set r.toNat (some (.full line')) } := by
    refine { ht with lines := List.length_set.trans ht.lines, kept := fun y hy hQ => ?_ }
    have hne := hr.2 y hy hQ
    rw [← ht.kept y hy hQ]
    unfold slot
    rw [List.getElem?_set_ne (by have := hr.1; omega)]
  unfold setChar.setFull
  rw [wp_runOn]
  exact wp_mono (wp_true _ _) (fun _ line' _ => hput line') fun _ line' _ => hput line'

theorem fixes_setChar (hs : Ring s) (column : Int) {row : Int} (codePoint : Int)
    (hQ : s.Avoids Q row) : Keeps (Fixes Q s) (setChar column row codePoint) := by
  apply keeps_read
  intro t ht
  rw [wp_bind, wp_throwIf]
  refine ⟨fun _ => ht, fun hin => ?_⟩
  have hlt : row < s.mScreenRows := by
    rw [← ht.screenRows]
    omega
  refine keeps_row_bind hs hlt hQ (fun r hr => ?_) t ht
  refine (keeps_lineAt r).bind fun line => ?_
  refine (keeps_when fun _ => fixes_allocateLine hr _).then ((keeps_lineAt r).bind fun line => ?_)
  rcases line with _ | text | line
  · exact keeps_throw _
  · refine keeps_ite (fun _ => (keeps_checked _).bind fun _ => fixes_setLine hr _) fun _ => ?_
    exact (fixes_setLine hr _).then (fixes_setFull _ _ hr _)
  · exact fixes_setFull _ _ hr _

/-- There is no row behind the screen to write to. -/
theorem fixes_setCharStyle (hs : Ring s) (column : Int) {row : Int} (codePoint : Int)
    (style : Style) (hQ : s.Avoids Q row) :
    Keeps (Fixes Q s) (setCharStyle column row codePoint style) := by
  by_cases hlt : row < s.mScreenRows
  · refine (fixes_setChar hs column codePoint hQ).then (keeps_row_bind hs hlt hQ fun r hr => ?_)
    refine (keeps_colorAt r).bind fun color => (keeps_nonNull color).bind fun color => ?_
    intro t ht
    have hput (color' : StyleRow) :
        Fixes Q s { t with mColor := t.mColor.set r.toNat (some color') } := by
      refine { ht with colors := List.length_set.trans ht.colors, kept := fun y hy hQ => ?_ }
      have hne := hr.2 y hy hQ
      rw [← ht.kept y hy hQ]
      unfold slot
      rw [List.getElem?_set_ne (by have := hr.1; omega)]
    rw [wp_runOn]
    exact wp_mono (wp_true _ _) (fun _ color' _ => hput color') fun _ color' _ => hput color'
  · intro t ht
    unfold setCharStyle setChar
    rw [wp_bind, wp_bind, wp_get, wp_bind, wp_throwIf]
    refine ⟨fun _ => ht, fun hin => absurd (Or.inl ?_) hin⟩
    rw [ht.screenRows]
    omega

theorem fixes_blockSet (hs : Ring s) (sx : Int) {sy : Int} (w h val : Int) (style : Style)
    (hQ : ∀ row, sy ≤ row → row < sy + h → s.Avoids Q row) :
    Keeps (Fixes Q s) (blockSet sx sy w h val style) := by
  refine keeps_get_bind fun _ => keeps_throwIf.then ?_
  intro t ht
  refine wp_repeatFor (fun _ => Fixes Q s) ht fun i u hi hu => ?_
  have hrow := hQ (sy + i) (by omega) (by omega)
  exact keeps_repeatFor (fun x => fixes_setCharStyle hs _ val style hrow) u hu

theorem fixes_copyChars (hs : Ring s) (dx : Int) {row : Int} (hQ : s.Avoids Q row)
    (chars : List JChar) (cHigh : JChar) (x : Int) :
    Keeps (Fixes Q s) (copyChars dx row chars cHigh x) := by
  induction chars generalizing cHigh x with
  | nil => exact keeps_pure _
  | cons c rest ih =>
      refine keeps_get_bind fun s => keeps_ite (fun _ => keeps_pure _) fun _ => ?_
      refine keeps_ite (fun _ => ih _ _) fun _ => ?_
      exact (fixes_setChar hs _ _ hQ).then (ih _ _)

omit [Platform] in
theorem fixes_copyColor {srcRow dstRow : Int} (hsrc : Free Q s srcRow) (hdst : Free Q s dstRow)
    (sx dx w : Int) : Keeps (Fixes Q s) (copyColor srcRow sx dstRow dx w) := by
  refine (keeps_colorAt _).bind fun src => (keeps_nonNull src).bind fun src => ?_
  refine (keeps_colorAt _).bind fun dst => (keeps_nonNull dst).bind fun dst => ?_
  refine (keeps_checked _).bind fun copied => ?_
  exact (fixes_setColor hsrc _).then (fixes_setColor hdst _)

omit [Platform] in
/-- The temporary line is no row. -/
theorem fixes_getLine (row x1 x2 : Int) : Keeps (Fixes Q s) (getLine row x1 x2) := by
  have htmp (tmp : Option (List JChar)) : Keeps (Fixes Q s)
      (modify fun s => { s with tmpLine := tmp } : TranscriptM Unit) :=
    keeps_modify fun _ h => { h with }
  have halloc (length : Int) : Keeps (Fixes Q s) (allocTmpLine length) :=
    keeps_throwIf.then ((htmp _).then (keeps_pure _))
  have htake (length : Int) : Keeps (Fixes Q s) (takeTmpLine length) := by
    refine keeps_get_bind fun t => ?_
    cases t.tmpLine with
    | none => exact halloc length
    | some tmp => exact keeps_ite (fun _ => halloc length) fun _ => keeps_pure _
  have hfill (capacity : Int) (text : List JChar) (start length : Int) :
      Keeps (Fixes Q s) (fillTmpLine capacity text start length) := by
    refine (htake _).bind fun _ => (keeps_checked _).bind fun _ => ?_
    exact (keeps_checked _).bind fun _ => (htmp _).then (keeps_pure _)
  refine keeps_get_bind fun t => keeps_throwIf.then ((keeps_rowNumber _).bind fun r => ?_)
  refine (keeps_lineAt r).bind fun line => ?_
  rcases line with _ | text | line
  · exact keeps_pure _
  · refine keeps_ite (fun _ => keeps_pure _) fun _ => ?_
    exact (hfill _ _ _ _).bind fun _ => keeps_pure _
  · refine (keeps_checked _).bind fun start => (keeps_checked _).bind fun stop => ?_
    exact (hfill _ _ _ _).bind fun _ => keeps_pure _

theorem fixes_copyRow (hs : Ring s) {sy dy : Int} (sx w dx : Int) {y : Int}
    (hsy : sy + y < s.mScreenRows) (hdy : dy + y < s.mScreenRows)
    (hsrc : s.Avoids Q (sy + y)) (hdst : s.Avoids Q (dy + y)) :
    Keeps (Fixes Q s) (copyRow sx sy w dx dy y) := by
  refine keeps_row_bind hs hsy hsrc fun srcRow hsrcRow => ?_
  refine keeps_row_bind hs hdy hdst fun dstRow hdstRow => ?_
  refine (keeps_lineAt _).bind fun src => (keeps_lineAt _).bind fun dst => ?_
  have hslow {f : Option (List JChar) → TranscriptM Unit}
      (hnone : f none = (get >>= fun t => blockSet dx (dy + y) w 1 32 t.mDefaultStyle))
      (hsome : ∀ tmp, f (some tmp) = (do
        copyChars dx (dy + y) tmp 0 0
        copyColor srcRow sx dstRow dx w : TranscriptM Unit)) :
      Keeps (Fixes Q s) (getLine (sy + y) sx (sx + w) >>= f) := by
    refine (fixes_getLine _ _ _).bind fun tmp => ?_
    rcases tmp with _ | tmp
    · rw [hnone]
      refine keeps_get_bind fun _ => fixes_blockSet hs _ _ _ _ _ fun row hlo hhi => ?_
      obtain rfl : row = dy + y := by omega
      exact hdst
    · rw [hsome]
      exact (fixes_copyChars hs _ hdst _ _ _).then (fixes_copyColor hsrcRow hdstRow _ _ _)
  rcases src with _ | text | line
  · exact hslow rfl fun _ => rfl
  · rcases dst with _ | text' | line'
    · exact hslow rfl fun _ => rfl
    · refine (keeps_checked _).bind fun copied => ?_
      exact (fixes_setLine hdstRow _).then (fixes_copyColor hsrcRow hdstRow _ _ _)
    · exact hslow rfl fun _ => rfl
  · exact hslow rfl fun _ => rfl

theorem fixes_blockCopy (hs : Ring s) {sy dy h : Int} (sx w dx : Int)
    (hsy : sy + h ≤ s.mScreenRows) (hdy : dy + h ≤ s.mScreenRows)
    (hsrc : ∀ row, sy ≤ row → row < sy + h → s.Avoids Q row)
    (hdst : ∀ row, dy ≤ row → row < dy + h → s.Avoids Q row) :
    Keeps (Fixes Q s) (blockCopy sx sy w h dx dy) := by
  have hrow (i : Int) (hlo : 0 ≤ i) (hi : i < h) :
      Keeps (Fixes Q s) (copyRow sx sy w dx dy i) :=
    fixes_copyRow hs sx w dx (by omega) (by omega) (hsrc _ (by omega) (by omega))
      (hdst _ (by omega) (by omega))
  refine keeps_get_bind fun t => keeps_throwIf.then (keeps_ite (fun _ => ?_) fun _ => ?_)
  · intro u hu
    exact wp_repeatFor (fun _ => Fixes Q s) hu fun i v hi hv => hrow i (by omega) (by omega) v hv
  · intro u hu
    exact wp_repeatFor (fun _ => Fixes Q s) hu
      fun i v hi hv => hrow (h - (i + 1)) (by omega) (by omega) v hv

end Writing

/-! ## §3  Scrolling a region -/

theorem Ring.screen_le (hs : Ring s) {y : Nat} (hy : y < s.mScreenRows) : y < s.mTotalRows := by
  have hle := hs.rows_le
  unfold getActiveRows at hle
  omega

/-- The rows of `Q` are where they were, on a screen of the same size. -/
structure Stays (Q : Nat → Prop) (s t : UnicodeTranscript) : Prop where
  ring : Ring t
  screenRows : t.mScreenRows = s.mScreenRows
  totalRows : t.mTotalRows = s.mTotalRows
  kept : ∀ y < s.mScreenRows, Q y → t.screenRow y = s.screenRow y

theorem Fixes.stays (h : Fixes Q s t) (hs : Ring s) : Stays Q s t :=
  ⟨h.ring hs, h.screenRows, h.total, fun _ hy hQ => h.screenRow (hs.screen_le hy) hQ⟩

theorem Stays.trans {u : UnicodeTranscript} (h : Stays Q s t) (h' : Stays Q t u) :
    Stays Q s u where
  ring := h'.ring
  screenRows := h'.screenRows.trans h.screenRows
  totalRows := h'.totalRows.trans h.totalRows
  kept y hy hQ := (h'.kept y (by rw [h.screenRows]; exact hy) hQ).trans (h.kept y hy hQ)

/-- The elements of a ring of size `n` behind a copy of `len` of them, one place on: those from
`src + 1` on come from the place in front. -/
def ShiftedRing {α : Type} (n src len : Nat) (xs ys : List α) : Prop :=
  ys.length = xs.length ∧
    (∀ i < len, ys[(src + 1 + i) % n]? = xs[(src + i) % n]?) ∧
    ∀ j : Nat, (∀ i < len, j ≠ (src + 1 + i) % n) → ys[j]? = xs[j]?

theorem arrayGet_mod {α : Type} {oob : Exn} {xs : List α} {n a : Nat} (hn : xs.length = n)
    (hpos : 0 < n) {i : Int} (hi : i = a) :
    ∃ x, xs[a % n]? = some x ∧ arrayGet oob xs (i % n) = .ok x := by
  have hlt : a % n < xs.length := by
    rw [hn]
    exact Nat.mod_lt _ hpos
  have hcast : i % (n : Int) = ((a % n : Nat) : Int) := by
    rw [hi]
    exact (Int.natCast_emod a n).symm
  refine ⟨xs[a % n], List.getElem?_eq_getElem hlt, ?_⟩
  rw [hcast]
  exact arrayGet_of_lt hlt

/-- From the last element down to the first, the elements behind the current one are done. -/
theorem copyRowsInOrder_down {α : Type} {oob : Exn} {n src len k : Nat} {rows xs : List α}
    (hlen : len < n) (hk : k ≤ len) (hrows : rows.length = n) (hxs : xs.length = n)
    (hdone : ∀ i, k ≤ i → i < len → xs[(src + 1 + i) % n]? = rows[(src + i) % n]?)
    (hrest : ∀ j : Nat, (∀ i, k ≤ i → i < len → j ≠ (src + 1 + i) % n) → xs[j]? = rows[j]?) :
    ∃ ys, copyRowsInOrder oob n src ((src + 1) % n : Nat) (List.range k).reverse xs = .ok ys ∧
      ShiftedRing n src len rows ys := by
  induction k generalizing xs with
  | zero =>
      refine ⟨xs, rfl, by rw [hxs, hrows], fun i hi => hdone i (Nat.zero_le _) hi, fun j hj => ?_⟩
      exact hrest j fun i _ hi => hj i hi
  | succ k ih =>
      have hpos : 0 < n := by omega
      obtain ⟨x, hx, hget⟩ := @arrayGet_mod α oob xs n (src + k) hxs hpos
        ((src : Int) + (k : Nat)) (by push_cast; rfl)
      have hread : rows[(src + k) % n]? = some x := by
        rw [← hx]
        refine (hrest _ fun i hki hi heq => ?_).symm
        rw [Nat.add_assoc] at heq
        have hinj := ring_index_inj (show k < n by omega) (show 1 + i < n by omega) heq
        omega
      have hindex : (((src + 1) % n : Nat) + (k : Int)) % (n : Int) =
          (((src + 1 + k) % n : Nat) : Int) := by
        push_cast
        rw [Int.emod_add_emod]
      have hlt : (src + 1 + k) % n < xs.length := by
        rw [hxs]
        exact Nat.mod_lt _ hpos
      rw [List.range_succ, List.reverse_append, List.reverse_singleton, List.singleton_append]
      simp only [copyRowsInOrder, hget, hindex, arraySet_of_lt x hlt, bind, Except.bind]
      refine ih (by omega) (by rw [List.length_set]; exact hxs) (fun i hki hi => ?_) fun j hj => ?_
      · rw [List.getElem?_set]
        by_cases hik : i = k
        · subst hik
          rw [if_pos rfl, if_pos hlt, hread]
        · rw [if_neg fun heq => hik ?_]
          · exact hdone i (by omega) hi
          · rw [Nat.add_assoc, Nat.add_assoc] at heq
            have hinj := ring_index_inj (show 1 + k < n by omega) (show 1 + i < n by omega) heq
            omega
      · rw [List.getElem?_set, if_neg fun heq => hj k (Nat.le_refl k) (by omega) heq.symm]
        exact hrest j fun i hki hi => hj i (by omega) hi

/-- `blockCopyLines` on one of the arrays, for a shift by one. -/
theorem copyRows_shift {α : Type} {oob : Exn} {n src len : Nat} {rows : List α}
    (hrows : rows.length = n) (hlen : len < n) :
    ∃ ys, copyRows oob n rows src len 1 = .ok ys ∧ ShiftedRing n src len rows ys := by
  have hdst : (if (src : Int) + 1 ≥ 0 then ((src : Int) + 1) % n else n + src + 1) =
      (((src + 1) % n : Nat) : Int) := by
    rw [if_pos (by omega)]
    push_cast
    rfl
  unfold copyRows
  simp only [hdst, Int.toNat_natCast]
  by_cases hfast : (src : Int) + len ≤ n ∧ (((src + 1) % n : Nat) : Int) + len ≤ n
  · rw [if_pos hfast]
    obtain ⟨hfast₁, hfast₂⟩ := hfast
    have hs : src + len ≤ rows.length := by omega
    have hd : (src + 1) % n + len ≤ rows.length := by omega
    refine ⟨_, arraycopy_of_le hs hd, length_splice_stretch hd hs, fun i hi => ?_, fun j hj => ?_⟩
    · have hto : (src + 1 + i) % n = (src + 1) % n + i := by
        rw [← Nat.mod_add_mod]
        exact Nat.mod_eq_of_lt (by omega)
      rw [hto, Nat.mod_eq_of_lt (show src + i < n by omega), getElem?_splice_stretch hd hs,
        if_pos (by omega), Nat.add_sub_cancel_left]
    · rw [getElem?_splice_stretch hd hs, if_neg]
      rintro ⟨hlo, hhi⟩
      refine hj (j - (src + 1) % n) (by omega) ?_
      rw [← Nat.mod_add_mod, show (src + 1) % n + (j - (src + 1) % n) = j by omega]
      exact (Nat.mod_eq_of_lt (by omega)).symm
  · rw [if_neg hfast, if_neg (by omega)]
    exact copyRowsInOrder_down hlen (Nat.le_refl _) hrows hrows
      (fun i hki hi => by omega) fun j _ => rfl

theorem screenSlot_add (s : UnicodeTranscript) (a i : Nat) :
    (s.screenSlot a + i) % s.mTotalRows = s.screenSlot (a + i) := by
  unfold screenSlot
  rw [Nat.mod_add_mod, Nat.add_assoc]

/-- Different rows lie in different slots. -/
theorem screenSlot_ne {a b : Nat} (hab : a ≠ b) (ha : a < s.mTotalRows) (hb : b < s.mTotalRows) :
    s.screenSlot a ≠ s.screenSlot b :=
  fun h => hab (ring_index_inj ha hb h)

theorem screenSlot_lt (hs : Ring s) (a : Nat) : s.screenSlot a < s.mTotalRows :=
  Nat.mod_lt _ (Nat.lt_of_le_of_lt (Nat.zero_le _) hs.first_lt)

theorem screenSlot_total (s : UnicodeTranscript) :
    s.screenSlot s.mTotalRows = s.screenSlot 0 :=
  Nat.add_mod_right _ _

section Arrays

variable {α : Type} {oob : Exn} {xs ys : List α} {top bottom : Nat}

/-- What `scroll` does to one of the arrays: the rows around the region go one slot further, the
row that scrolls out goes to the first slot of the screen, and `fresh` to that of the row that
scrolls in. -/
def scrollArray (oob : Exn) (s : UnicodeTranscript) (top bottom : Nat) (fresh : α)
    (xs : List α) : Except Exn (List α) :=
  if top = 0 ∧ bottom = s.mScreenRows then arraySet oob xs (s.screenSlot bottom) fresh
  else do
    let saved ← arrayGet oob xs (s.screenSlot top)
    let xs ← copyRows oob s.mTotalRows xs (s.screenSlot 0) top 1
    let xs ← copyRows oob s.mTotalRows xs (s.screenSlot bottom) (s.mScreenRows - bottom : Nat) 1
    let xs ← arraySet oob xs (s.screenSlot 0) saved
    arraySet oob xs (s.screenSlot bottom) fresh

/-- The row that goes to row `k` of the screen scrolled; behind the screen are the rows of the
transcript, from the oldest on. -/
def scrollSource (s : UnicodeTranscript) (top bottom k : Nat) : Option Nat :=
  if k < top then some k
  else if k + 1 < bottom then some (k + 1)
  else if k + 1 = bottom then none
  else if k < s.mScreenRows then some k
  else if k + 1 < s.mTotalRows then some (k + 1)
  else some top

/-- No row goes to two rows. -/
theorem scrollSource_inj (hmargins : top < bottom) {k k' : Nat} (hk : k < s.mTotalRows)
    (hk' : k' < s.mTotalRows) (h : s.scrollSource top bottom k = s.scrollSource top bottom k') :
    k = k' := by
  unfold scrollSource at h
  split_ifs at h <;> simp only [Option.some.injEq] at h <;> omega

theorem scrollSource_blank (hmargins : top < bottom) {k : Nat} (hk : k + 1 = bottom) :
    s.scrollSource top bottom k = none := by
  unfold scrollSource
  rw [if_neg (by omega), if_neg (by omega), if_pos hk]

/-- A row that moves relative to the ring, or does not. -/
theorem scrollSource_kept {k : Nat} (hk : k + 1 ≠ bottom) (hlast : k + 1 < s.mTotalRows) :
    s.scrollSource top bottom k =
      if (k < top) ∨ (bottom ≤ k ∧ k < s.mScreenRows) then some k else some (k + 1) := by
  unfold scrollSource
  by_cases habove : k < top
  · rw [if_pos habove, if_pos (.inl habove)]
  · by_cases hin : k + 1 < bottom
    · rw [if_neg habove, if_pos hin, if_neg (by omega)]
    · by_cases hbelow : k < s.mScreenRows
      · rw [if_neg habove, if_neg hin, if_neg hk, if_pos hbelow, if_pos (by omega)]
      · rw [if_neg habove, if_neg hin, if_neg hk, if_neg hbelow, if_pos hlast, if_neg (by omega)]

theorem scrollSource_last (hmargins : top < bottom) (hbottom : bottom ≤ s.mScreenRows)
    (hroom : s.mScreenRows < s.mTotalRows) {k : Nat} (hlast : k + 1 = s.mTotalRows) :
    s.scrollSource top bottom k = some top := by
  unfold scrollSource
  rw [if_neg (by omega), if_neg (by omega), if_neg (by omega), if_neg (by omega),
    if_neg (by omega)]

/-- `ShiftedRing`, by rows. -/
theorem ShiftedRing.row {a len : Nat} (h : ShiftedRing s.mTotalRows (s.screenSlot a) len xs ys)
    (hlen : a + len < s.mTotalRows) {k : Nat} (hk : k < s.mTotalRows) :
    ys[s.screenSlot k]? =
      if a < k ∧ k ≤ a + len then xs[s.screenSlot (k - 1)]? else xs[s.screenSlot k]? := by
  obtain ⟨_, hmoved, hkept⟩ := h
  have hto (i : Nat) : (s.screenSlot a + 1 + i) % s.mTotalRows = s.screenSlot (a + 1 + i) := by
    rw [Nat.add_assoc, screenSlot_add, Nat.add_assoc]
  by_cases hin : a < k ∧ k ≤ a + len
  · have hrow := hmoved (k - (a + 1)) (by omega)
    rw [hto, screenSlot_add, show a + 1 + (k - (a + 1)) = k by omega,
      show a + (k - (a + 1)) = k - 1 by omega] at hrow
    rw [if_pos hin, hrow]
  · rw [if_neg hin]
    refine hkept _ fun i hi => ?_
    rw [hto]
    exact screenSlot_ne (by omega) hk (by omega)

/-- The calls of the slow path return. -/
theorem scrollArray_steps (oob : Exn) (hs : Ring s) (hxs : xs.length = s.mTotalRows)
    (hroom : s.mScreenRows < s.mTotalRows) (hmargins : top < bottom)
    (hbottom : bottom ≤ s.mScreenRows) :
    ∃ saved ys zs, arrayGet oob xs (s.screenSlot top) = .ok saved ∧
      copyRows oob s.mTotalRows xs (s.screenSlot 0) top 1 = .ok ys ∧
      copyRows oob s.mTotalRows ys (s.screenSlot bottom) (s.mScreenRows - bottom : Nat) 1 =
        .ok zs ∧ xs[s.screenSlot top]? = some saved ∧ zs.length = s.mTotalRows ∧
      ∀ k < s.mTotalRows, zs[s.screenSlot k]? =
        if (0 < k ∧ k ≤ top) ∨ (bottom < k ∧ k ≤ s.mScreenRows) then xs[s.screenSlot (k - 1)]?
        else xs[s.screenSlot k]? := by
  have htop : s.screenSlot top < xs.length := by
    rw [hxs]
    exact screenSlot_lt hs top
  obtain ⟨ys, hys, hshift⟩ := @copyRows_shift _ oob _ (s.screenSlot 0) top _ hxs (by omega)
  obtain ⟨zs, hzs, hshift'⟩ := @copyRows_shift _ oob _ (s.screenSlot bottom)
    (s.mScreenRows - bottom) _ (hshift.1.trans hxs) (by omega)
  refine ⟨_, ys, zs, arrayGet_of_lt htop, hys, hzs, List.getElem?_eq_getElem htop,
    (hshift'.1.trans hshift.1).trans hxs, fun k hk => ?_⟩
  rw [hshift'.row (by omega) hk]
  by_cases hbelow : bottom < k ∧ k ≤ s.mScreenRows
  · rw [if_pos (by omega), if_pos (.inr hbelow), hshift.row (by omega) (by omega),
      if_neg (by omega)]
  · rw [if_neg (by omega), hshift.row (by omega) hk]
    by_cases habove : 0 < k ∧ k ≤ top
    · rw [if_pos (by omega), if_pos (.inl habove)]
    · rw [if_neg (by omega), if_neg (by omega)]

/-- Where every element goes, whatever the elements are. -/
theorem scrollArray_rows (oob : Exn) (hs : Ring s) (hxs : xs.length = s.mTotalRows)
    (hroom : s.mScreenRows < s.mTotalRows) (hmargins : top < bottom)
    (hbottom : bottom ≤ s.mScreenRows) (fresh : α) :
    ∃ ys, scrollArray oob s top bottom fresh xs = .ok ys ∧ ys.length = s.mTotalRows ∧
      ∀ k < s.mTotalRows, ys[s.screenSlot (k + 1)]? =
        (s.scrollSource top bottom k).elim (some fresh) fun j => xs[s.screenSlot j]? := by
  have hslot (a : Nat) : s.screenSlot a < s.mTotalRows := screenSlot_lt hs a
  unfold scrollArray
  by_cases hwhole : top = 0 ∧ bottom = s.mScreenRows
  · rw [if_pos hwhole]
    refine ⟨_, arraySet_of_lt fresh (by rw [hxs]; exact hslot bottom), ?_, fun k hk => ?_⟩
    · rw [List.length_set, hxs]
    · rw [List.getElem?_set]
      by_cases hblank : k + 1 = bottom
      · rw [if_pos (by rw [hblank]), if_pos (by rw [hxs]; exact hslot bottom),
          scrollSource_blank hmargins hblank]
        rfl
      · have hsource : ∃ j, s.scrollSource top bottom k = some j ∧
            s.screenSlot (k + 1) = s.screenSlot j ∧ j < s.mTotalRows ∧ j ≠ bottom := by
          by_cases hlast : k + 1 < s.mTotalRows
          · refine ⟨k + 1, ?_, rfl, hlast, hblank⟩
            rw [scrollSource_kept hblank hlast, if_neg (by omega)]
          · refine ⟨top, ?_, ?_, by omega, by omega⟩
            · exact scrollSource_last hmargins hbottom hroom (by omega)
            · rw [show k + 1 = s.mTotalRows by omega, screenSlot_total, hwhole.1]
        obtain ⟨j, hsource, hsame, hj, hne⟩ := hsource
        rw [hsource, hsame, if_neg (screenSlot_ne (Ne.symm hne) (by omega) hj)]
        rfl
  · rw [if_neg hwhole]
    obtain ⟨saved, ys, zs, hsaved, hys, hzs, hsaved', hlength, hrow⟩ :=
      scrollArray_steps oob hs hxs hroom hmargins hbottom
    have hfirst := @arraySet_of_lt _ _ oob _ _ saved (show s.screenSlot 0 < zs.length by
      rw [hlength]; exact hslot 0)
    have hblank := @arraySet_of_lt _ _ oob _ _ fresh (show s.screenSlot bottom <
      (zs.set (s.screenSlot 0) saved).length by rw [List.length_set, hlength]; exact hslot bottom)
    refine ⟨(zs.set (s.screenSlot 0) saved).set (s.screenSlot bottom) fresh, ?_, ?_, fun k hk => ?_⟩
    · simp only [hsaved, hys, hzs, hfirst, bind, Except.bind]
      exact hblank
    · rw [List.length_set, List.length_set, hlength]
    · rw [List.getElem?_set, List.getElem?_set]
      by_cases hblank : k + 1 = bottom
      · rw [if_pos (by rw [hblank]), if_pos (by rw [List.length_set, hlength]; exact hslot bottom),
          scrollSource_blank hmargins hblank]
        rfl
      · by_cases hlast : k + 1 < s.mTotalRows
        · rw [if_neg (screenSlot_ne (Ne.symm hblank) (by omega) hlast),
            if_neg (screenSlot_ne (by omega) (by omega) hlast), hrow _ hlast,
            scrollSource_kept hblank hlast, Nat.add_sub_cancel]
          by_cases hmoved : k < top ∨ bottom ≤ k ∧ k < s.mScreenRows
          · rw [if_pos hmoved, if_pos (by omega)]
            rfl
          · rw [if_neg hmoved, if_neg (by omega)]
            rfl
        · have hend : k + 1 = s.mTotalRows := by omega
          rw [hend, screenSlot_total, if_neg (screenSlot_ne (by omega) (by omega) (by omega)),
            if_pos rfl, if_pos (by rw [hlength]; exact hslot 0),
            scrollSource_last hmargins hbottom hroom hend, ← hsaved']
          rfl

end Arrays

/-- The screen, one slot further. -/
def advanced (s : UnicodeTranscript) : UnicodeTranscript :=
  { s with
    mScreenFirstRow := (s.mScreenFirstRow + 1) % s.mTotalRows
    mActiveTranscriptRows :=
      if s.mActiveTranscriptRows < (s.mTotalRows : Int) - s.mScreenRows then
        s.mActiveTranscriptRows + 1
      else s.mActiveTranscriptRows }

theorem ring_advanced (hs : Ring s) : Ring s.advanced where
  lines := hs.lines
  colors := hs.colors
  flags := hs.flags
  first_lt := Nat.mod_lt _ (Nat.lt_of_le_of_lt (Nat.zero_le _) hs.first_lt)
  rows_le := by
    have hle := hs.rows_le
    unfold getActiveRows at hle ⊢
    unfold advanced
    by_cases hroom : (s.mActiveTranscriptRows : Int) < s.mTotalRows - s.mScreenRows
    · simp only [if_pos hroom]
      omega
    · simp only [if_neg hroom]
      exact hle

theorem screenSlot_advanced (s : UnicodeTranscript) (k : Nat) :
    s.advanced.screenSlot k = s.screenSlot (k + 1) := by
  show ((s.mScreenFirstRow + 1) % s.mTotalRows + k) % s.mTotalRows = _
  rw [Nat.mod_add_mod, Nat.add_assoc, Nat.add_comm 1]
  rfl

/-- The new contents of the three arrays. -/
structure ScrolledArrays (top bottom : Nat) (style : Style) (s t : UnicodeTranscript) : Prop where
  lines : scrollArray (.arrayIndexOutOfBounds .mLines) s top bottom none s.mLines = .ok t.mLines
  colors : scrollArray (.arrayIndexOutOfBounds .mColor) s top bottom
    (some (StyleRow.create style s.mColumns)) s.mColor = .ok t.mColor
  flags : scrollArray (.arrayIndexOutOfBounds .mLineWrap) s top bottom false s.mLineWrap =
    .ok t.mLineWrap
  fields : ∃ lines colors flags,
    t = { s.advanced with mLines := lines, mColor := colors, mLineWrap := flags }

theorem advanceScreen_returns (hs : Ring s) {bottom : Nat} (hpos : 0 < bottom)
    (hbottom : bottom ≤ s.mScreenRows) (style : Style) :
    returns (advanceScreen bottom style) (fun _ t => t = { s.advanced with
      mLines := s.mLines.set (s.screenSlot bottom) none
      mColor := s.mColor.set (s.screenSlot bottom) (some (StyleRow.create style s.mColumns))
      mLineWrap := s.mLineWrap.set (s.screenSlot bottom) false }) s := by
  have hring := ring_advanced hs
  have hslot := screenSlot_lt hs bottom
  have hrow : externalToInternalRow ((bottom : Int) - 1) s.advanced =
      .ok (s.screenSlot bottom : Int) s.advanced := by
    have hrange : s.advanced.InRange ((bottom : Int) - 1) := by
      unfold InRange
      show -((s.advanced.mActiveTranscriptRows : Nat) : Int) ≤ _ ∧ _ < (s.mScreenRows : Int)
      omega
    rw [externalToInternalRow_of_inRange hrange]
    unfold internalRow
    rw [if_pos (by omega), show (bottom : Int) - 1 = ((bottom - 1 : Nat) : Int) by omega,
      ← Int.natCast_add, ← Int.natCast_emod]
    show EStateM.Result.ok (((s.advanced.screenSlot (bottom - 1) : Nat) : Int)) _ = _
    rw [screenSlot_advanced, Nat.sub_add_cancel hpos]
  have hline : arraySet (Exn.arrayIndexOutOfBounds .mLines) s.mLines (s.screenSlot bottom : Int)
      none = .ok (s.mLines.set (s.screenSlot bottom) none) :=
    arraySet_of_lt _ (by rw [hs.lines]; exact hslot)
  have hcolor : arraySet (Exn.arrayIndexOutOfBounds .mColor) s.mColor (s.screenSlot bottom : Int)
      (some (StyleRow.create style s.mColumns)) = .ok (s.mColor.set (s.screenSlot bottom)
        (some (StyleRow.create style s.mColumns))) :=
    arraySet_of_lt _ (by rw [hs.colors]; exact hslot)
  have hflag : arraySet (Exn.arrayIndexOutOfBounds .mLineWrap) s.mLineWrap
      (s.screenSlot bottom : Int) false = .ok (s.mLineWrap.set (s.screenSlot bottom) false) :=
    arraySet_of_lt _ (by rw [hs.flags]; exact hslot)
  unfold advanceScreen returns
  rw [wp_bind, wp_modify, wp_bind]
  show wp (externalToInternalRow ((bottom : Int) - 1)) _ _ s.advanced
  rw [wp_of_ok hrow]
  unfold advanced
  simp only [setLine, setColor, storeLineWrap, wp_bind, wp_get, hline, hcolor, hflag,
    wp_checked_ok, wp_set]

theorem scroll_arrays (hs : Ring s) (hroom : s.mScreenRows < s.mTotalRows) {top bottom : Nat}
    (hmargins : top < bottom) (hbottom : bottom ≤ s.mScreenRows) (style : Style) :
    returns (scroll top bottom style) (fun _ t => ScrolledArrays top bottom style s t) s := by
  have hfirst := hs.first_lt
  have hslot (a : Nat) : s.screenSlot a < s.mTotalRows := screenSlot_lt hs a
  unfold scroll returns
  rw [wp_bind, wp_get, wp_bind, wp_throwIf]
  refine ⟨fun h => by omega, fun _ => ?_⟩
  rw [wp_bind, wp_throwIf]
  refine ⟨fun h => by omega, fun _ => ?_⟩
  rw [wp_bind, wp_throwIf]
  refine ⟨fun h => by omega, fun _ => ?_⟩
  rw [wp_ite]
  refine ⟨fun hwhole => ?_, fun hpart => ?_⟩
  · refine wp_of_returns (advanceScreen_returns hs (by omega) hbottom style) fun _ t ht => ?_
    have hwhole' : top = 0 ∧ bottom = s.mScreenRows := by omega
    subst ht
    refine ⟨?_, ?_, ?_, ⟨_, _, _, rfl⟩⟩
    · rw [scrollArray, if_pos hwhole', arraySet_of_lt _ (by rw [hs.lines]; exact hslot bottom)]
    · rw [scrollArray, if_pos hwhole', arraySet_of_lt _ (by rw [hs.colors]; exact hslot bottom)]
    · rw [scrollArray, if_pos hwhole', arraySet_of_lt _ (by rw [hs.flags]; exact hslot bottom)]
  · have hinternal {row : Nat} (hrow : row ≤ s.mScreenRows) :
        externalToInternalRow (row : Int) s = .ok (s.screenSlot row : Int) s := by
      rw [externalToInternalRow_eq, if_neg (by omega)]
      unfold internalRow screenSlot
      rw [if_pos (by omega)]
      push_cast
      rfl
    obtain ⟨line, lines₁, lines₂, hline, hlines₁, hlines₂, _, hlinesLength, _⟩ :=
      scrollArray_steps (.arrayIndexOutOfBounds .mLines) hs hs.lines hroom hmargins hbottom
    obtain ⟨color, colors₁, colors₂, hcolor, hcolors₁, hcolors₂, _, hcolorsLength, _⟩ :=
      scrollArray_steps (.arrayIndexOutOfBounds .mColor) hs hs.colors hroom hmargins hbottom
    obtain ⟨flag, flags₁, flags₂, hflag, hflags₁, hflags₂, _, hflagsLength, _⟩ :=
      scrollArray_steps (.arrayIndexOutOfBounds .mLineWrap) hs hs.flags hroom hmargins hbottom
    have hzero : s.screenSlot 0 = s.mScreenFirstRow := Nat.mod_eq_of_lt hfirst
    have hlen : (s.mScreenRows : Int) - bottom = ((s.mScreenRows - bottom : Nat) : Int) := by omega
    have hlineSet := @arraySet_of_lt _ _ (Exn.arrayIndexOutOfBounds .mLines) _ _ line
      (show s.screenSlot 0 < lines₂.length by rw [hlinesLength]; exact hslot 0)
    have hcolorSet := @arraySet_of_lt _ _ (Exn.arrayIndexOutOfBounds .mColor) _ _ color
      (show s.screenSlot 0 < colors₂.length by rw [hcolorsLength]; exact hslot 0)
    have hflagSet := @arraySet_of_lt _ _ (Exn.arrayIndexOutOfBounds .mLineWrap) _ _ flag
      (show s.screenSlot 0 < flags₂.length by rw [hflagsLength]; exact hslot 0)
    have hset : Ring { s with
        mLines := lines₂.set (s.screenSlot 0) line
        mColor := colors₂.set (s.screenSlot 0) color
        mLineWrap := flags₂.set (s.screenSlot 0) flag } :=
      ⟨List.length_set.trans hlinesLength, List.length_set.trans hcolorsLength,
        List.length_set.trans hflagsLength, hs.first_lt, hs.rows_le⟩
    have hpart' : ¬ (top = 0 ∧ bottom = s.mScreenRows) := by omega
    have hslow : ScrolledArrays top bottom style s { s.advanced with
        mLines := (lines₂.set (s.screenSlot 0) line).set (s.screenSlot bottom) none
        mColor := (colors₂.set (s.screenSlot 0) color).set (s.screenSlot bottom)
          (some (StyleRow.create style s.mColumns))
        mLineWrap := (flags₂.set (s.screenSlot 0) flag).set (s.screenSlot bottom) false } := by
      refine ⟨?_, ?_, ?_, ⟨_, _, _, rfl⟩⟩
      · simp only [scrollArray, if_neg hpart', hline, hlines₁, hlines₂, hlineSet, bind, Except.bind]
        exact arraySet_of_lt _ (by rw [hset.lines]; exact hslot bottom)
      · simp only [scrollArray, if_neg hpart', hcolor, hcolors₁, hcolors₂, hcolorSet, bind,
          Except.bind]
        exact arraySet_of_lt _ (by rw [hset.colors]; exact hslot bottom)
      · simp only [scrollArray, if_neg hpart', hflag, hflags₁, hflags₂, hflagSet, bind, Except.bind]
        exact arraySet_of_lt _ (by rw [hset.flags]; exact hslot bottom)
    have hadvance := advanceScreen_returns hset (show 0 < bottom by omega) hbottom style
    rw [hzero] at hlines₁ hcolors₁ hflags₁ hlineSet hcolorSet hflagSet
    rw [wp_bind, wp_of_ok (hinternal (by omega)), wp_bind, wp_of_ok (hinternal hbottom)]
    simp only [lineAt, colorAt, lineWrapAt, blockCopyLines, setLine, setColor, storeLineWrap,
      wp_bind, wp_get, wp_set, wp_checked_ok, hlen, hline, hcolor, hflag, hlines₁, hcolors₁,
      hflags₁, hlines₂, hcolors₂, hflags₂, hlineSet, hcolorSet, hflagSet]
    rw [hzero] at hadvance
    refine wp_of_returns hadvance fun _ t ht => ?_
    subst ht
    rw [hzero] at hslow
    exact hslow

/-- The row that scrolls in. -/
def blankRow (s : UnicodeTranscript) (style : Style) : StoredRow :=
  ⟨none, some (StyleRow.create style s.mColumns), false⟩

/-- `t` is `s` after a scroll. -/
structure Scrolled (top bottom : Nat) (style : Style) (s t : UnicodeTranscript) : Prop
    extends ScrolledArrays top bottom style s t where
  ring : Ring t
  rows : ∀ k < s.mTotalRows,
    t.screenRow k = (s.scrollSource top bottom k).elim (s.blankRow style) s.screenRow

theorem scroll_returns (hs : Ring s) (hroom : s.mScreenRows < s.mTotalRows) {top bottom : Nat}
    (hmargins : top < bottom) (hbottom : bottom ≤ s.mScreenRows) (style : Style) :
    returns (scroll top bottom style) (fun _ t => Scrolled top bottom style s t) s := by
  refine wp_of_returns (scroll_arrays hs hroom hmargins hbottom style) fun _ t ht => ?_
  obtain ⟨lines, hlines, hlinesLength, hlinesRow⟩ := scrollArray_rows
    (.arrayIndexOutOfBounds .mLines) hs hs.lines hroom hmargins hbottom none
  obtain ⟨colors, hcolors, hcolorsLength, hcolorsRow⟩ := scrollArray_rows
    (.arrayIndexOutOfBounds .mColor) hs hs.colors hroom hmargins hbottom
    (some (StyleRow.create style s.mColumns))
  obtain ⟨flags, hflags, hflagsLength, hflagsRow⟩ := scrollArray_rows
    (.arrayIndexOutOfBounds .mLineWrap) hs hs.flags hroom hmargins hbottom false
  obtain rfl : lines = t.mLines := Except.ok.inj (hlines.symm.trans ht.lines)
  obtain rfl : colors = t.mColor := Except.ok.inj (hcolors.symm.trans ht.colors)
  obtain rfl : flags = t.mLineWrap := Except.ok.inj (hflags.symm.trans ht.flags)
  obtain ⟨_, _, _, hfields⟩ := ht.fields
  have hring := ring_advanced hs
  refine { ht with ring := ?_, rows := fun k hk => ?_ }
  · have htotal : t.mTotalRows = s.mTotalRows := by
      rw [hfields]
      rfl
    refine ⟨hlinesLength.trans htotal.symm, hcolorsLength.trans htotal.symm,
      hflagsLength.trans htotal.symm, ?_, ?_⟩
    · rw [hfields]
      exact hring.first_lt
    · rw [hfields]
      exact hring.rows_le
  · have hslot : t.screenSlot k = s.screenSlot (k + 1) := by
      rw [← screenSlot_advanced, hfields]
      rfl
    unfold screenRow
    rw [hslot]
    unfold slot
    rw [hlinesRow k hk, hcolorsRow k hk, hflagsRow k hk]
    cases s.scrollSource top bottom k with
    | none => rfl
    | some j => rfl

/-- The rows outside the region stay. -/
theorem Scrolled.stays {top bottom : Nat} {style : Style} (h : Scrolled top bottom style s t)
    (hroom : s.mScreenRows < s.mTotalRows) (hQ : ∀ y : Nat, Q y → y < top ∨ bottom ≤ y) :
    Stays Q s t := by
  obtain ⟨_, _, _, hfields⟩ := h.fields
  refine { ring := h.ring, screenRows := ?_, totalRows := ?_, kept := fun y hy hQy => ?_ }
  · rw [hfields]
    rfl
  · rw [hfields]
    rfl
  · have hsource : s.scrollSource top bottom y = some y := by
      unfold scrollSource
      rcases hQ y hQy with habove | hbelow
      · rw [if_pos habove]
      · by_cases htop : y < top
        · rw [if_pos htop]
        · rw [if_neg htop, if_neg (by omega), if_neg (by omega), if_pos hy]
    rw [h.rows y (by omega), hsource]
    rfl

end Kbox.Emulatorview.UnicodeTranscript
