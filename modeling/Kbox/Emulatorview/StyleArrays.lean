import Kbox.Emulatorview.StyleRows

/-!
# Style rows as arrays

Rows of one width, constructed, written, read and copied in any order.  A row reads as an array of
styles, whether its bytes are allocated or not, and a copy is a `memmove` between two of them.
-/

namespace Kbox.Emulatorview

open Kbox.Framework

namespace StyleRow

/-- `r.copy(start, r, offset, len)`, which allocates and copies inside of one array. -/
def copySelf (r : StyleRow) (start offset len : Int) : Except Exn StyleRow :=
  if r.mData = none ∧ start = 0 ∧ offset = 0 ∧ len = r.mColumns then
    .ok { r with mStyle := r.mStyle }
  else do
    let data ← arraycopy (.arrayIndexOutOfBounds .mColor) r.data (3 * start) r.data
      (3 * offset) (3 * len)
    return { r with mData := some data }

/-! ## §1  A row that reads as an array -/

/-- The array `a` of styles, column by column. -/
structure Reads (a : List Style) (r : StyleRow) : Prop where
  holds : r.Holds (fun style => TextStyle.narrow style = style) a.length
  get : ∀ (x : Nat) (style : Style), a[x]? = some style → StyleRow.get r x = .ok style

variable {a b : List Style} {r dst : StyleRow}

/-- Every style of the array fits into three bytes. -/
theorem Reads.narrow (h : r.Reads a) {x : Nat} {style : Style} (hx : a[x]? = some style) :
    TextStyle.narrow style = style :=
  h.holds.of_get (h.get x style hx)

theorem narrow_idem (style : Style) (h : TextStyle.narrow style = style) :
    TextStyle.narrow (TextStyle.narrow style) = TextStyle.narrow style := by
  rw [h, h]

theorem Reads.cells (h : r.Reads a) :
    Cells (fun style => TextStyle.narrow style = style) a.length r.data :=
  h.holds.cells_data narrow_idem

/-- The bytes that `ensureData` leaves read as the array. -/
theorem Reads.getStyle_data (h : r.Reads a) {x : Nat} {style : Style} (hx : a[x]? = some style) :
    getStyle r.data x = .ok style := by
  have hget := h.get x style hx
  have hlt := (List.getElem?_eq_some_iff.mp hx).1
  unfold StyleRow.get at hget
  unfold StyleRow.data
  cases hdata : r.mData with
  | some data =>
      rw [hdata] at hget
      exact hget
  | none =>
      rw [hdata] at hget
      cases hget
      rw [Option.getD_none, h.holds.width, getStyle_flatten_replicate hlt, h.holds.base]

/-- Allocated bytes that read as the array. -/
theorem Reads.with_data {n : Nat} (h : r.Holds (fun style => TextStyle.narrow style = style) n)
    {data : List JByte} (hlen : a.length = n)
    (hcells : Cells (fun style => TextStyle.narrow style = style) n data)
    (hdata : ∀ (x : Nat) (style : Style), a[x]? = some style → getStyle data x = .ok style) :
    StyleRow.Reads a { r with mData := some data } := by
  subst hlen
  exact ⟨h.with_data hcells, hdata⟩

theorem reads_create {style : Style} (h : TextStyle.narrow style = style) (columns : Nat) :
    (create style columns).Reads (List.replicate columns style) := by
  refine ⟨?_, fun x style' hx => ?_⟩
  · rw [List.length_replicate]
    exact holds_create h
  · obtain ⟨_, hx⟩ := List.getElem?_eq_some_iff.mp hx
    rw [List.getElem_replicate] at hx
    exact congrArg Except.ok hx

/-! ## §2  The methods -/

theorem Reads.set (h : r.Reads a) {x : Nat} (hx : x < a.length) {style : Style}
    (hstyle : TextStyle.narrow style = style) :
    ∃ r', construct (StyleRow.set x style) r = .ok r' ∧ r'.Reads (a.set x style) := by
  have hwrites := @wp_set_style _ _ _ x _ h.holds narrow_idem hstyle
  have hcells := h.cells
  have hreturns : returns (StyleRow.set x style) (fun _ _ => True) r := by
    unfold StyleRow.set returns
    rw [wp_bind, wp_get, wp_ite, wp_pure]
    refine ⟨fun _ => trivial, fun _ => ?_⟩
    unfold ensureData
    rw [wp_bind, wp_modify, wp_setStyle (r := { r with mData := some r.data }) hcells]
    exact ⟨fun _ => trivial, fun hout => absurd ⟨Int.natCast_nonneg x, by omega⟩ hout⟩
  obtain ⟨_, r', hok, -⟩ := returns_iff.mp hreturns
  obtain ⟨hholds, hget, hother⟩ := (wp_of_ok hok).mp hwrites
  refine ⟨r', construct_of_ok hok, ?_, fun y style' hy => ?_⟩
  · rw [List.length_set]
    exact hholds
  · rw [List.getElem?_set] at hy
    by_cases hxy : x = y
    · subst hxy
      rw [if_pos rfl, if_pos hx] at hy
      cases hy
      exact hget hstyle
    · rw [if_neg hxy] at hy
      have hlt := (List.getElem?_eq_some_iff.mp hy).1
      exact hother y hlt (by omega) style' (h.narrow hy) (h.get y style' hy)

/-- The bytes of a stretch of columns, copied. -/
theorem Reads.copied (h : r.Reads a) (hdst : dst.Reads b) (hlen : a.length = b.length)
    {start offset len : Nat} (hstart : start + len ≤ a.length) (hoffset : offset + len ≤ a.length) :
    StyleRow.Reads (splice b offset (stretch a start len))
      { dst with mData := some (splice dst.data (3 * offset)
        (stretch r.data (3 * start) (3 * len))) } := by
  have hcells := h.cells
  have hcells' := hdst.cells
  rw [← hlen] at hcells'
  have hl := hcells.1
  have hl' := hcells'.1
  have hbytes := @getElem?_splice_stretch _ dst.data r.data (3 * offset) (3 * start) (3 * len)
    (by omega) (by omega)
  have harray := @getElem?_splice_stretch _ b a offset start len (by omega) (by omega)
  refine Reads.with_data (n := a.length) (hlen ▸ hdst.holds) ?_
    (hcells.copy hcells' hstart hoffset) fun x style hx => ?_
  · rw [length_splice_stretch (by omega) (by omega), hlen]
  · rw [harray] at hx
    by_cases hin : offset ≤ x ∧ x < offset + len
    · rw [if_pos hin] at hx
      refine (getStyle_congr (fun i hi => ?_) style).mpr (h.getStyle_data hx)
      rw [hbytes, if_pos (by omega)]
      congr 1
      omega
    · rw [if_neg hin] at hx
      refine (getStyle_congr (fun i hi => ?_) style).mpr (hdst.getStyle_data hx)
      rw [hbytes, if_neg (by omega)]

/-- A row is still the same array when its bytes are allocated. -/
theorem Reads.ensureData (h : r.Reads a) : StyleRow.Reads a { r with mData := some r.data } :=
  Reads.with_data h.holds rfl h.cells fun _ _ hx => h.getStyle_data hx

/-- The copy of a whole row between two rows that are not allocated. -/
theorem splice_whole (hlen : a.length = b.length) : splice b 0 (stretch a 0 a.length) = a := by
  unfold splice stretch
  rw [List.take_zero, List.drop_zero, List.take_length, List.nil_append, Nat.zero_add, hlen,
    List.drop_length, List.append_nil]

theorem arraycopy_data (h : r.Reads a) (hdst : dst.Reads b) (hlen : a.length = b.length)
    {start offset len : Nat} (hstart : start + len ≤ a.length) (hoffset : offset + len ≤ a.length) :
    arraycopy (Exn.arrayIndexOutOfBounds .mColor) r.data (3 * (start : Int)) dst.data
      (3 * (offset : Int)) (3 * (len : Int)) =
        .ok (splice dst.data (3 * offset) (stretch r.data (3 * start) (3 * len))) := by
  have hl := h.cells.1
  have hl' := hdst.cells.1
  have hsource : 3 * start + 3 * len ≤ r.data.length := by omega
  have htarget : 3 * offset + 3 * len ≤ dst.data.length := by omega
  have hcopy := @arraycopy_of_le _ _ (Exn.arrayIndexOutOfBounds .mColor) _ _ _ _ _ hsource htarget
  push_cast at hcopy
  exact hcopy

theorem Reads.copyTo (h : r.Reads a) (hdst : dst.Reads b) (hlen : a.length = b.length)
    {start offset len : Nat} (hstart : start + len ≤ a.length) (hoffset : offset + len ≤ a.length) :
    ∃ r' dst', r.copyTo dst start offset len = .ok (r', dst') ∧ r'.Reads a ∧
      dst'.Reads (splice b offset (stretch a start len)) := by
  unfold StyleRow.copyTo
  by_cases hlazy : r.mData = none ∧ dst.mData = none ∧ (start : Int) = 0 ∧ (offset : Int) = 0 ∧
      (len : Int) = r.mColumns
  · obtain ⟨hnone, hnone', hzero, hzero', hwhole⟩ := hlazy
    rw [if_pos ⟨hnone, hnone', hzero, hzero', hwhole⟩]
    obtain rfl : start = 0 := by omega
    obtain rfl : offset = 0 := by omega
    obtain rfl : len = a.length := by
      rw [h.holds.width] at hwhole
      omega
    refine ⟨r, _, rfl, h, ?_⟩
    rw [splice_whole hlen]
    refine ⟨⟨hdst.holds.width.trans hlen.symm, h.holds.base, fun data hdata => ?_⟩, ?_⟩
    · rw [hnone'] at hdata
      cases hdata
    · intro x style hx
      have hget := h.get x style hx
      unfold StyleRow.get at hget ⊢
      rw [hnone] at hget
      rw [hnone']
      exact hget
  · rw [if_neg hlazy, arraycopy_data h hdst hlen hstart hoffset]
    exact ⟨_, _, rfl, h.ensureData, h.copied hdst hlen hstart hoffset⟩

theorem Reads.copySelf (h : r.Reads a) {start offset len : Nat} (hstart : start + len ≤ a.length)
    (hoffset : offset + len ≤ a.length) :
    ∃ r', r.copySelf start offset len = .ok r' ∧
      r'.Reads (splice a offset (stretch a start len)) := by
  unfold StyleRow.copySelf
  by_cases hlazy : r.mData = none ∧ (start : Int) = 0 ∧ (offset : Int) = 0 ∧
      (len : Int) = r.mColumns
  · obtain ⟨hnone, hzero, hzero', hwhole⟩ := hlazy
    rw [if_pos ⟨hnone, hzero, hzero', hwhole⟩]
    obtain rfl : start = 0 := by omega
    obtain rfl : offset = 0 := by omega
    obtain rfl : len = a.length := by
      rw [h.holds.width] at hwhole
      omega
    rw [splice_whole rfl]
    exact ⟨_, rfl, h⟩
  · rw [if_neg hlazy, arraycopy_data h h rfl hstart hoffset]
    exact ⟨_, rfl, h.copied h rfl hstart hoffset⟩

/-! ## §3  Runs -/

/-- A call on one of the rows, which are numbered in the order of their construction. -/
inductive Call where
  | create (style : Style)
  | set (row column : Nat) (style : Style)
  | get (row column : Nat)
  | copy (row start dst offset len : Nat)

/-- The `i`th row, or the exception of a call on `null`. -/
def rowAt (rows : List StyleRow) (i : Nat) : Except Exn StyleRow :=
  arrayGet .nullPointer rows i

/-- The rows behind a call, and what it returned. -/
def Call.step (columns : Nat) (rows : List StyleRow) :
    Call → Except Exn (List StyleRow × Option Style)
  | .create style => return (rows ++ [StyleRow.create style columns], none)
  | .set row column style => do
      let r ← rowAt rows row
      let r ← construct (StyleRow.set column style) r
      return (rows.set row r, none)
  | .get row column => do
      let r ← rowAt rows row
      let style ← StyleRow.get r column
      return (rows, some style)
  | .copy row start dst offset len => do
      let r ← rowAt rows row
      if row = dst then
        let r ← StyleRow.copySelf r start offset len
        return (rows.set row r, none)
      else
        let d ← rowAt rows dst
        let (r, d) ← StyleRow.copyTo r d start offset len
        return ((rows.set row r).set dst d, none)

def run (columns : Nat) : List Call → List StyleRow → Except Exn (List StyleRow × List Style)
  | [], rows => return (rows, [])
  | call :: calls, rows => do
      let (rows, read) ← call.step columns rows
      let (rows, reads) ← run columns calls rows
      return (rows, read.toList ++ reads)

/-- The same call on arrays of styles. -/
def Call.edit (columns : Nat) (arrays : List (List Style)) :
    Call → List (List Style) × Option Style
  | .create style => (arrays ++ [List.replicate columns style], none)
  | .set row column style => (arrays.modify row fun a => a.set column style, none)
  | .get row column => (arrays, arrays[row]?.bind fun a => a[column]?)
  | .copy row start dst offset len =>
      (arrays.modify dst fun b => splice b offset (stretch (arrays[row]?.getD []) start len), none)

def edits (columns : Nat) : List Call → List (List Style) → List (List Style) × List Style
  | [], arrays => (arrays, [])
  | call :: calls, arrays =>
      let (arrays, read) := call.edit columns arrays
      let (arrays, reads) := edits columns calls arrays
      (arrays, read.toList ++ reads)

/-- The rows exist, the columns are on them, and the styles have three bytes. -/
def Call.InRange (columns rows : Nat) : Call → Prop
  | .create style => style.toNat < 2 ^ 24
  | .set row column style => row < rows ∧ column < columns ∧ style.toNat < 2 ^ 24
  | .get row column => row < rows ∧ column < columns
  | .copy row start dst offset len =>
      row < rows ∧ dst < rows ∧ start + len ≤ columns ∧ offset + len ≤ columns

/-- How many rows there are behind a call. -/
def Call.rows (rows : Nat) : Call → Nat
  | .create _ => rows + 1
  | _ => rows

def AllInRange (columns : Nat) : List Call → Nat → Prop
  | [], _ => True
  | call :: calls, rows => call.InRange columns rows ∧ AllInRange columns calls (call.rows rows)

/-- Every row reads as its array. -/
structure Models (columns : Nat) (arrays : List (List Style)) (rows : List StyleRow) : Prop where
  length : rows.length = arrays.length
  width : ∀ a ∈ arrays, a.length = columns
  reads : ∀ (i : Nat) (r : StyleRow) (a : List Style),
    rows[i]? = some r → arrays[i]? = some a → r.Reads a

variable {columns : Nat} {arrays : List (List Style)} {rows : List StyleRow}

theorem narrow_of_lt {style : Style} (h : style.toNat < 2 ^ 24) :
    TextStyle.narrow style = style := by
  apply BitVec.eq_of_toNat_eq
  unfold TextStyle.narrow
  rw [BitVec.toNat_and, show (0xffffff : BitVec 32).toNat = 2 ^ 24 - 1 from rfl,
    Nat.and_two_pow_sub_one_eq_mod, Nat.mod_eq_of_lt h]

/-- The row of a number, and its array. -/
theorem Models.rowAt (h : Models columns arrays rows) {i : Nat} (hi : i < rows.length) :
    ∃ r a, StyleRow.rowAt rows i = .ok r ∧ arrays[i]? = some a ∧ a ∈ arrays ∧ r.Reads a ∧
      a.length = columns := by
  have hi' : i < arrays.length := h.length ▸ hi
  refine ⟨rows[i], arrays[i], arrayGet_of_lt hi, List.getElem?_eq_getElem hi',
    List.getElem_mem hi', ?_, h.width _ (List.getElem_mem hi')⟩
  exact h.reads i _ _ (List.getElem?_eq_getElem hi) (List.getElem?_eq_getElem hi')

/-- A row that changes together with its array. -/
theorem Models.put (h : Models columns arrays rows) {i : Nat} {r : StyleRow}
    {f : List Style → List Style}
    (hf : ∀ a, arrays[i]? = some a → r.Reads (f a) ∧ (f a).length = columns) :
    Models columns (arrays.modify i f) (rows.set i r) := by
  refine ⟨?_, fun b hb => ?_, fun j r' b hr hb => ?_⟩
  · rw [List.length_set, List.length_modify]
    exact h.length
  · obtain ⟨j, hj, rfl⟩ := List.getElem_of_mem hb
    rw [List.length_modify] at hj
    rw [List.getElem_modify]
    by_cases hij : i = j
    · subst hij
      rw [if_pos rfl]
      exact (hf _ (List.getElem?_eq_getElem hj)).2
    · rw [if_neg hij]
      exact h.width _ (List.getElem_mem hj)
  · rw [List.getElem?_set] at hr
    rw [List.getElem?_modify] at hb
    by_cases hij : i = j
    · subst hij
      obtain ⟨a, ha, rfl⟩ := Option.map_eq_some_iff.mp hb
      rw [if_pos rfl] at hr ⊢
      split_ifs at hr
      cases hr
      exact (hf a ha).1
    · rw [if_neg hij] at hr
      obtain ⟨a, ha, rfl⟩ := Option.map_eq_some_iff.mp hb
      rw [if_neg hij]
      exact h.reads j r' a hr ha

/-- A row that is allocated, and reads as before. -/
theorem Models.reallocate (h : Models columns arrays rows) {i : Nat} {r : StyleRow}
    (hr : ∀ a, arrays[i]? = some a → r.Reads a) : Models columns arrays (rows.set i r) := by
  have hput := h.put (i := i) (r := r) (f := id) fun a ha =>
    ⟨hr a ha, h.width a (List.mem_of_getElem? ha)⟩
  rw [List.modify_id] at hput
  exact hput

/-- One call. -/
theorem Models.step (h : Models columns arrays rows) {call : Call}
    (hcall : call.InRange columns rows.length) :
    ∃ rows', call.step columns rows = .ok (rows', (call.edit columns arrays).2) ∧
      Models columns (call.edit columns arrays).1 rows' ∧ rows'.length = call.rows rows.length := by
  cases call with
  | create style =>
      refine ⟨_, rfl, ⟨?_, fun b hb => ?_, fun i r a hr ha => ?_⟩, List.length_append⟩
      · show (rows ++ [_]).length = (arrays ++ [_]).length
        rw [List.length_append, List.length_append, h.length]
        rfl
      · rcases List.mem_append.mp hb with hb | hb
        · exact h.width b hb
        · rw [List.mem_singleton.mp hb, List.length_replicate]
      · have ha' : (arrays ++ [List.replicate columns style])[i]? = some a := ha
        rw [List.getElem?_append] at hr ha'
        rw [h.length] at hr
        by_cases hi : i < arrays.length
        · rw [if_pos hi] at hr ha'
          exact h.reads i r a hr ha'
        · rw [if_neg hi] at hr ha'
          obtain ⟨hlt, rfl⟩ := List.getElem?_eq_some_iff.mp hr
          obtain ⟨hlt', rfl⟩ := List.getElem?_eq_some_iff.mp ha'
          rw [List.getElem_singleton, List.getElem_singleton]
          exact reads_create (narrow_of_lt hcall) columns
  | set row column style =>
      obtain ⟨hrow, hcolumn, hstyle⟩ := hcall
      obtain ⟨r, a, hr, ha, -, hreads, hwidth⟩ := h.rowAt hrow
      obtain ⟨r', hset, hreads'⟩ := hreads.set (hwidth.symm ▸ hcolumn) (narrow_of_lt hstyle)
      refine ⟨rows.set row r', ?_, h.put fun b hb => ?_, List.length_set⟩
      · show (do
          let r ← StyleRow.rowAt rows row
          let r ← construct (StyleRow.set column style) r
          return (rows.set row r, none) : Except Exn (List StyleRow × Option Style)) = _
        rw [hr, ok_bind, hset]
        rfl
      · cases ha.symm.trans hb
        exact ⟨hreads', List.length_set.trans hwidth⟩
  | get row column =>
      obtain ⟨hrow, hcolumn⟩ := hcall
      obtain ⟨r, a, hr, ha, -, hreads, hwidth⟩ := h.rowAt hrow
      have hget := List.getElem?_eq_getElem (l := a) (hwidth.symm ▸ hcolumn : column < a.length)
      refine ⟨rows, ?_, h, rfl⟩
      show (do
        let r ← StyleRow.rowAt rows row
        let style ← StyleRow.get r column
        return (rows, some style) : Except Exn (List StyleRow × Option Style)) =
          .ok (rows, arrays[row]?.bind fun a => a[column]?)
      rw [hr, ok_bind, hreads.get column _ hget, ha]
      show _ = Except.ok (rows, a[column]?)
      rw [hget]
      rfl
  | copy row start dst offset len =>
      obtain ⟨hrow, hdst, hstart, hoffset⟩ := hcall
      obtain ⟨r, a, hr, ha, -, hreads, rfl⟩ := h.rowAt hrow
      obtain ⟨d, b, hd, hb, -, hreads', hwidth⟩ := h.rowAt hdst
      have hlength := @length_splice_stretch _ b a offset start len (by omega) (by omega)
      have hedit (c : List Style) (hc : arrays[dst]? = some c) {d' : StyleRow}
          (hd' : d'.Reads (splice b offset (stretch a start len))) :
          d'.Reads (splice c offset (stretch (arrays[row]?.getD []) start len)) ∧
            (splice c offset (stretch (arrays[row]?.getD []) start len)).length = a.length := by
        cases hb.symm.trans hc
        rw [ha]
        exact ⟨hd', hlength.trans hwidth⟩
      by_cases hsame : row = dst
      · subst hsame
        cases ha.symm.trans hb
        obtain ⟨r', hcopy, hcopied⟩ := hreads.copySelf hstart hoffset
        refine ⟨rows.set row r', ?_, h.put fun c hc => hedit c hc hcopied, List.length_set⟩
        show (do
          let r ← StyleRow.rowAt rows row
          if row = row then
            let r ← StyleRow.copySelf r start offset len
            return (rows.set row r, none)
          else
            let d ← StyleRow.rowAt rows row
            let (r, d) ← StyleRow.copyTo r d start offset len
            return ((rows.set row r).set row d, none) :
              Except Exn (List StyleRow × Option Style)) = _
        rw [hr, ok_bind, if_pos rfl, hcopy]
        rfl
      · obtain ⟨r', d', hcopy, hsource, hcopied⟩ :=
          hreads.copyTo hreads' hwidth.symm hstart hoffset
        refine ⟨(rows.set row r').set dst d', ?_, ?_, by rw [List.length_set, List.length_set]; rfl⟩
        · show (do
            let r ← StyleRow.rowAt rows row
            if row = dst then
              let r ← StyleRow.copySelf r start offset len
              return (rows.set row r, none)
            else
              let d ← StyleRow.rowAt rows dst
              let (r, d) ← StyleRow.copyTo r d start offset len
              return ((rows.set row r).set dst d, none) :
                Except Exn (List StyleRow × Option Style)) = _
          rw [hr, ok_bind, if_neg hsame, hd, ok_bind, hcopy]
          rfl
        · refine (h.reallocate (i := row) fun c hc => ?_).put fun c hc => hedit c hc hcopied
          cases ha.symm.trans hc
          exact hsource

/-- A run from rows that read as arrays. -/
theorem Models.run (h : Models columns arrays rows) {calls : List Call}
    (hcalls : AllInRange columns calls rows.length) :
    ∃ rows', StyleRow.run columns calls rows = .ok (rows', (edits columns calls arrays).2) ∧
      Models columns (edits columns calls arrays).1 rows' := by
  induction calls generalizing arrays rows with
  | nil => exact ⟨rows, rfl, h⟩
  | cons call calls ih =>
      obtain ⟨rows₁, hstep, h₁, hlength⟩ := h.step hcalls.1
      obtain ⟨rows₂, hrun, h₂⟩ := ih h₁ (hlength.symm ▸ hcalls.2)
      refine ⟨rows₂, ?_, h₂⟩
      unfold StyleRow.run
      rw [hstep, ok_bind]
      show (do
        let (rows, reads) ← StyleRow.run columns calls rows₁
        return (rows, (call.edit columns arrays).2.toList ++ reads) :
          Except Exn (List StyleRow × List Style)) = _
      rw [hrun]
      rfl

theorem models_nil (columns : Nat) : Models columns [] [] :=
  ⟨rfl, fun _ ha => absurd ha List.not_mem_nil, fun _ _ _ hr => by cases hr⟩

/-- What `encode` gives fits into three bytes. -/
theorem encode_lt (foreColor backColor : Int) (effect : BitVec 32) :
    (TextStyle.encode foreColor backColor effect).toNat < 2 ^ 24 := by
  rw [← TextStyle.narrow_encode]
  unfold TextStyle.narrow
  rw [BitVec.toNat_and, show (0xffffff : BitVec 32).toNat = 2 ^ 24 - 1 from rfl,
    Nat.and_two_pow_sub_one_eq_mod]
  exact Nat.mod_lt _ (by decide)

/-- **Style rows are arrays of styles**, in every run whose calls are in range. -/
theorem style_rows_are_arrays (columns : Nat) (calls : List Call)
    (hcalls : AllInRange columns calls 0) :
    (∀ foreColor backColor effect, (TextStyle.encode foreColor backColor effect).toNat < 2 ^ 24) ∧
    ∃ rows, run columns calls [] = .ok (rows, (edits columns calls []).2) ∧
      rows.length = (edits columns calls []).1.length ∧
      ∀ (i : Nat) (r : StyleRow) (a : List Style), rows[i]? = some r →
        (edits columns calls []).1[i]? = some a → a.length = columns ∧
          ∀ (x : Nat) (style : Style), a[x]? = some style → StyleRow.get r x = .ok style := by
  obtain ⟨rows, hrun, h⟩ := (models_nil columns).run hcalls
  refine ⟨encode_lt, rows, hrun, h.length, fun i r a hr ha => ?_⟩
  exact ⟨h.width a (List.mem_of_getElem? ha), (h.reads i r a hr ha).get⟩

/-- Two rows of three columns: one is written and copied into the other, which is then moved
within itself. -/
def copies : List Call :=
  [.create 1, .create 2, .set 0 1 5, .copy 0 0 1 1 2, .copy 1 0 1 1 2, .get 1 2]

theorem style_rows_are_arrays_copies : AllInRange 3 copies 0 ∧
    (edits 3 copies []).1 = [[1, 5, 1], [2, 2, 1]] ∧
    ∃ rows, run 3 copies [] = .ok (rows, [1]) := by
  have hrange : AllInRange 3 copies 0 := by simp [AllInRange, copies, Call.InRange, Call.rows]
  obtain ⟨-, rows, hrun, -⟩ := style_rows_are_arrays 3 copies hrange
  exact ⟨hrange, by decide, rows, hrun⟩

end StyleRow

end Kbox.Emulatorview
