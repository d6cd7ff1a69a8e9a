import Kbox.Framework.Keeps
import Kbox.Session.TerminalEmulator

/-!
# Tab stops

HT looks for a tab stop from the cursor on, the column of the cursor included: at a stop it stays
where it is.
-/

namespace Kbox.Session.TerminalEmulator

open Kbox.Framework

/-! ## §1  The stops of a row -/

/-- The tab stops from column `c` on, in increasing order. -/
def stopsFrom (tabStop : List Bool) (c : Nat) : List Nat :=
  (List.range' c (tabStop.length - c)).filter fun j => tabStop[j]?.getD false

/-- `mTabStop` has an element for every column. -/
structure TabsFit (s : TerminalEmulator) : Prop where
  columns : 0 ≤ s.mColumns
  length : (s.mTabStop.length : Int) = s.mColumns

instance (s : TerminalEmulator) : Decidable (TabsFit s) :=
  decidable_of_iff (0 ≤ s.mColumns ∧ (s.mTabStop.length : Int) = s.mColumns)
    ⟨fun ⟨h, h'⟩ => ⟨h, h'⟩, fun ⟨h, h'⟩ => ⟨h, h'⟩⟩

variable {s : TerminalEmulator} {tabStop : List Bool}

theorem mem_stopsFrom {c j : Nat} :
    j ∈ stopsFrom tabStop c ↔ c ≤ j ∧ tabStop[j]? = some true := by
  unfold stopsFrom
  rw [List.mem_filter, List.mem_range'_1]
  constructor
  · rintro ⟨⟨hle, _⟩, hstop⟩
    refine ⟨hle, ?_⟩
    cases hj : tabStop[j]? with
    | none =>
        rw [hj] at hstop
        cases hstop
    | some b =>
        rw [hj] at hstop
        exact congrArg some hstop
  · rintro ⟨hle, hstop⟩
    have hlt := (List.getElem?_eq_some_iff.mp hstop).1
    exact ⟨⟨hle, by omega⟩, by rw [hstop]; rfl⟩

theorem pairwise_stopsFrom (tabStop : List Bool) (c : Nat) :
    (stopsFrom tabStop c).Pairwise (· < ·) :=
  List.Pairwise.filter _ List.pairwise_lt_range'

theorem stopsFrom_eq {c : Nat} (hc : c < tabStop.length) : stopsFrom tabStop c =
    if tabStop[c] then c :: stopsFrom tabStop (c + 1) else stopsFrom tabStop (c + 1) := by
  have hrange : List.range' c (tabStop.length - c) =
      c :: List.range' (c + 1) (tabStop.length - (c + 1)) := by
    rw [show tabStop.length - c = tabStop.length - (c + 1) + 1 by omega]
    rfl
  unfold stopsFrom
  rw [hrange, List.filter_cons, List.getElem?_eq_getElem hc, Option.getD_some]

theorem stopsFrom_end {c : Nat} (hc : tabStop.length ≤ c) : stopsFrom tabStop c = [] := by
  unfold stopsFrom
  rw [Nat.sub_eq_zero_of_le hc]
  rfl

/-! ## §2  The search -/

/-- Where the search of `nextTabStop` ends. -/
theorem tabStopFrom_eq {fuel c : Nat} (hfuel : fuel = tabStop.length - c) :
    tabStopFrom tabStop tabStop.length fuel c =
      .ok ((stopsFrom tabStop c).head?.elim ((tabStop.length : Int) - 1) fun j => (j : Int)) := by
  induction fuel generalizing c with
  | zero =>
      rw [stopsFrom_end (by omega)]
      rfl
  | succ fuel ih =>
      have hc : c < tabStop.length := by omega
      rw [tabStopFrom, if_pos (by omega), arrayGet_of_lt hc, stopsFrom_eq hc]
      cases hstop : tabStop[c] with
      | true => rfl
      | false =>
          have hnext := ih (show fuel = tabStop.length - (c + 1) by omega)
          push_cast at hnext
          exact hnext

/-- The column that HT goes to. -/
def tabColumn (s : TerminalEmulator) (c : Nat) : Int :=
  (stopsFrom s.mTabStop c).head?.elim (s.mColumns - 1) fun j => (j : Int)

theorem process_tab (hs : TabsFit s) {c : Nat} (hc : s.mCursorCol = c) :
    process 9 s = .ok ⟨⟩ { s with mCursorCol := s.tabColumn c, mAboutToAutoWrap := false } := by
  have hsearch : s.nextTabStop s.mCursorCol = .ok (s.tabColumn c) := by
    have hlength := hs.length
    unfold nextTabStop tabColumn
    rw [hc, ← hlength]
    exact tabStopFrom_eq (by omega)
  have hok : returns (process 9) (fun _ t => t =
      { s with mCursorCol := s.tabColumn c, mAboutToAutoWrap := false }) s := by
    unfold returns
    show wp (do
      let s ← get
      setCursorCol (← checked (s.nextTabStop s.mCursorCol)) : EmulatorM Unit) _ _ s
    rw [wp_bind, wp_get, wp_bind, hsearch, wp_checked_ok]
    unfold setCursorCol
    rw [wp_modify]
  obtain ⟨_, t, hrun, rfl⟩ := returns_iff.mp hok
  exact hrun

theorem TabsFit.tab (hs : TabsFit s) (col : Int) :
    TabsFit { s with mCursorCol := col, mAboutToAutoWrap := false } :=
  ⟨hs.columns, hs.length⟩

/-- A stop holds the cursor. -/
theorem tabColumn_stop {j : Nat} (hj : s.mTabStop[j]? = some true) : s.tabColumn j = j := by
  obtain ⟨hlt, hstop⟩ := List.getElem?_eq_some_iff.mp hj
  unfold tabColumn
  rw [stopsFrom_eq hlt, hstop]
  rfl

/-- So does the last column. -/
theorem tabColumn_last (hs : TabsFit s) {c : Nat} (hc : (c : Int) + 1 = s.mColumns) :
    s.tabColumn c = c := by
  have hlength := hs.length
  have hlt : c < s.mTabStop.length := by omega
  unfold tabColumn
  rw [stopsFrom_eq hlt, stopsFrom_end (show s.mTabStop.length ≤ c + 1 by omega)]
  cases s.mTabStop[c] with
  | true => rfl
  | false =>
      show s.mColumns - 1 = c
      omega

/-- Off the stops, the first stop behind the cursor is found. -/
theorem tabColumn_off (hs : TabsFit s) {c : Nat} (hc : (c : Int) < s.mColumns)
    (hstop : s.mTabStop[c]? ≠ some true) : s.tabColumn c = s.tabColumn (c + 1) := by
  have hlength := hs.length
  have hlt : c < s.mTabStop.length := by omega
  unfold tabColumn
  rw [stopsFrom_eq hlt]
  cases hj : s.mTabStop[c] with
  | true =>
      rw [List.getElem?_eq_getElem hlt, hj] at hstop
      exact absurd rfl hstop
  | false => rfl

/-- The first stop behind a column is behind it. -/
theorem lt_tabColumn {c : Nat} (hc : (c : Int) + 1 < s.mColumns) :
    (c : Int) < s.tabColumn (c + 1) := by
  unfold tabColumn
  cases hhead : (stopsFrom s.mTabStop (c + 1)).head? with
  | none =>
      show (c : Int) < s.mColumns - 1
      omega
  | some j =>
      have hj := (mem_stopsFrom.mp (List.mem_of_mem_head? hhead)).1
      show (c : Int) < j
      omega

/-! ## §3  Tabs one after the other -/

/-- The emulator after a number of tabs. -/
def tabs (n : Nat) (s : TerminalEmulator) : TerminalEmulator := run (List.replicate n (.byte 9)) s

theorem tabs_succ (n : Nat) (s : TerminalEmulator) :
    tabs (n + 1) s = tabs n (after (process 9) s) := rfl

theorem after_process_tab (hs : TabsFit s) {c : Nat} (hc : s.mCursorCol = c) :
    after (process 9) s = { s with mCursorCol := s.tabColumn c, mAboutToAutoWrap := false } := by
  unfold after
  rw [process_tab hs hc]

/-- Once a tab leaves the cursor where it is, all of them do. -/
theorem tabs_stay (hs : TabsFit s) {c : Nat} (hc : s.mCursorCol = c) (hstay : s.tabColumn c = c)
    (n : Nat) : (tabs n s).mCursorCol = c := by
  induction n generalizing s with
  | zero => exact hc
  | succ n ih =>
      rw [tabs_succ, after_process_tab hs hc]
      exact ih (hs.tab _) hstay hstay

/-- After one tab the cursor does not move any more. -/
theorem tabs_fixed (hs : TabsFit s) {c : Nat} (hc : s.mCursorCol = c) (hlt : (c : Int) < s.mColumns)
    (n : Nat) : (tabs (n + 1) s).mCursorCol = s.tabColumn c := by
  rw [tabs_succ, after_process_tab hs hc]
  cases hhead : (stopsFrom s.mTabStop c).head? with
  | none =>
      have hcol : s.tabColumn c = ((s.mColumns - 1).toNat : Nat) := by
        unfold tabColumn
        rw [hhead]
        show s.mColumns - 1 = _
        omega
      rw [hcol]
      refine tabs_stay (hs.tab _) rfl ?_ n
      exact tabColumn_last hs (by omega)
  | some j =>
      have hcol : s.tabColumn c = j := by
        unfold tabColumn
        rw [hhead]
        rfl
      rw [hcol]
      refine tabs_stay (hs.tab _) rfl ?_ n
      exact tabColumn_stop (mem_stopsFrom.mp (List.mem_of_mem_head? hhead)).2

/-- **HT** goes to the first stop behind the cursor, or else to the last column, if and only if
the cursor is not at a stop or in the last column; and tab after tab it visits all stops behind
the cursor if and only if there are none before the last column. -/
theorem tab_advances_iff (hs : TabsFit s) {c : Nat} (hc : s.mCursorCol = c)
    (hlt : (c : Int) < s.mColumns) :
    (∃ t, process 9 s = .ok ⟨⟩ t ∧
      (t.mCursorCol =
          (stopsFrom s.mTabStop (c + 1)).head?.elim (s.mColumns - 1) (fun j => (j : Int)) ↔
        ¬ (s.mTabStop[c]? = some true ∧ (c : Int) + 1 < s.mColumns))) ∧
    ((∀ n, (tabs (n + 1) s).mCursorCol =
        (stopsFrom s.mTabStop (c + 1))[n]?.elim (s.mColumns - 1) fun j => (j : Int)) ↔
      ∀ j : Nat, c ≤ j → (j : Int) + 1 < s.mColumns → s.mTabStop[j]? ≠ some true) := by
  have hlength := hs.length
  have hstep : s.tabColumn c = s.tabColumn (c + 1) ↔
      ¬ (s.mTabStop[c]? = some true ∧ (c : Int) + 1 < s.mColumns) := by
    by_cases hstop : s.mTabStop[c]? = some true
    · rw [tabColumn_stop hstop]
      by_cases hlast : (c : Int) + 1 < s.mColumns
      · have hbehind := lt_tabColumn hlast
        exact ⟨fun h => by omega, fun h => absurd ⟨hstop, hlast⟩ h⟩
      · refine ⟨fun _ h => hlast h.2, fun _ => ?_⟩
        unfold tabColumn
        rw [stopsFrom_end (show s.mTabStop.length ≤ c + 1 by omega)]
        show (c : Int) = s.mColumns - 1
        omega
    · exact ⟨fun _ h => hstop h.1, fun _ => tabColumn_off hs hlt hstop⟩
  refine ⟨⟨_, process_tab hs hc, hstep⟩, ?_⟩
  simp only [tabs_fixed hs hc hlt]
  constructor
  · intro hall j hcj hj hstop
    have hfirst := hall 0
    rw [← List.head?_eq_getElem?] at hfirst
    -- the first stop from the cursor on is behind it, and the second tab does not leave it
    have hoff := hstep.mp hfirst
    have hne : c ≠ j := fun h => hoff ⟨by rw [h]; exact hstop, by omega⟩
    have hmem : j ∈ stopsFrom s.mTabStop (c + 1) := mem_stopsFrom.mpr ⟨by omega, hstop⟩
    have hsecond := hall 1
    have hsorted := pairwise_stopsFrom s.mTabStop (c + 1)
    rw [List.head?_eq_getElem?] at hfirst
    cases hlist : stopsFrom s.mTabStop (c + 1) with
    | nil =>
        rw [hlist] at hmem
        exact absurd hmem List.not_mem_nil
    | cons k ks =>
        rw [hlist] at hfirst hsecond hmem hsorted
        obtain ⟨hbelow, _⟩ := List.pairwise_cons.mp hsorted
        have hkj : k ≤ j := by
          rcases List.mem_cons.mp hmem with rfl | hj'
          · exact Nat.le_refl _
          · exact Nat.le_of_lt (hbelow j hj')
        have hk : s.tabColumn c = k := hfirst
        rw [hk] at hsecond
        cases ks with
        | nil =>
            have hend : (k : Int) = s.mColumns - 1 := hsecond
            omega
        | cons k' ks =>
            have hsame : (k : Int) = k' := hsecond
            have hkk' := hbelow k' List.mem_cons_self
            omega
  · intro hnone n
    have hlast (j : Nat) (hj : j ∈ stopsFrom s.mTabStop (c + 1)) : (j : Int) = s.mColumns - 1 := by
      obtain ⟨hle, hstop⟩ := mem_stopsFrom.mp hj
      have hj' := (List.getElem?_eq_some_iff.mp hstop).1
      by_contra hne
      exact hnone j (by omega) (by omega) hstop
    have hgoal (o : Option Nat) (ho : ∀ j, o = some j → j ∈ stopsFrom s.mTabStop (c + 1)) :
        o.elim (s.mColumns - 1) (fun j => (j : Int)) = s.mColumns - 1 := by
      cases o with
      | none => rfl
      | some j => exact hlast j (ho j rfl)
    rw [hgoal _ fun j hj => List.mem_of_getElem? hj,
      hstep.mpr fun h => hnone c (Nat.le_refl c) h.2 h.1]
    exact hgoal _ fun j hj => List.mem_of_mem_head? hj

theorem tab_advances_iff_start : let s := defaultTabStops (allocate .unallocated 10 2)
    ∃ t, process 9 s = .ok ⟨⟩ t ∧
      (t.mCursorCol = (stopsFrom s.mTabStop 1).head?.elim (s.mColumns - 1) (fun j => (j : Int)) ↔
        ¬ (s.mTabStop[0]? = some true ∧ ((0 : Nat) : Int) + 1 < s.mColumns)) :=
  (tab_advances_iff (by decide) rfl (by decide)).1

/-- The second tab on a new screen of ten columns stays at column 8, and the last column is 9. -/
theorem tab_hangs : (create 10 3 2).map
    (fun s => ((tabs 1 s).mCursorCol, (tabs 2 s).mCursorCol, stopsFrom s.mTabStop 9)) =
      .ok (8, 8, []) := by
  decide +kernel

/-! ## §4  The array of stops along a run -/

theorem TabsFit.same (hs : TabsFit s) {t : TerminalEmulator} (hcolumns : t.mColumns = s.mColumns)
    (htabs : t.mTabStop = s.mTabStop) : TabsFit t := by
  refine ⟨?_, ?_⟩
  · rw [hcolumns]
    exact hs.columns
  · rw [hcolumns, htabs]
    exact hs.length

theorem tabs_modify {f : TerminalEmulator → TerminalEmulator}
    (hf : ∀ s, (f s).mColumns = s.mColumns ∧ (f s).mTabStop = s.mTabStop) :
    Keeps TabsFit (modify f : EmulatorM Unit) :=
  keeps_modify fun s hs => hs.same (hf s).1 (hf s).2

theorem tabs_onScreen {α : Type} (x : ScreenM α) : Keeps TabsFit (onScreen x) := by
  intro s hs
  unfold onScreen
  rw [wp_onField]
  exact wp_mono (wp_true _ _) (fun _ _ _ => hs.same rfl rfl) fun _ _ _ => hs.same rfl rfl

theorem tabs_setCursorCol (col : Int) : Keeps TabsFit (setCursorCol col) :=
  tabs_modify fun _ => ⟨rfl, rfl⟩

theorem tabs_setCursorRowCol (row col : Int) : Keeps TabsFit (setCursorRowCol row col) :=
  tabs_modify fun _ => ⟨rfl, rfl⟩

theorem tabs_setCursorPosition (x y : Int) : Keeps TabsFit (setCursorPosition x y) :=
  keeps_get_bind fun _ => tabs_setCursorRowCol _ _

theorem tabs_setTabStop (i : Int) (value : Bool) : Keeps TabsFit (setTabStop i value) := by
  apply keeps_read
  intro s hs
  rw [wp_bind, wp_checked]
  refine ⟨fun tabStop hset => ?_, fun _ _ => hs⟩
  rw [wp_set]
  refine ⟨hs.columns, ?_⟩
  rw [show tabStop.length = s.mTabStop.length from length_of_arraySet hset]
  exact hs.length

theorem tabs_scroll : Keeps TabsFit scroll :=
  Keeps.then (tabs_modify fun _ => ⟨rfl, rfl⟩) (keeps_get_bind fun _ => tabs_onScreen _)

theorem tabs_doLinefeed : Keeps TabsFit doLinefeed :=
  keeps_get_bind fun _ => keeps_ite
    (fun _ => tabs_scroll.then (tabs_modify fun _ => ⟨rfl, rfl⟩))
    fun _ => tabs_modify fun _ => ⟨rfl, rfl⟩

theorem tabs_blockClear (sx sy w h : Int) : Keeps TabsFit (blockClear sx sy w h) :=
  keeps_get_bind fun _ => tabs_onScreen _

theorem tabs_emit (b : JByte) : Keeps TabsFit (emit b) := by
  have hwrap : Keeps TabsFit wrapCursor := by
    refine keeps_get_bind fun s => keeps_ite (fun _ => ?_) fun _ => keeps_pure _
    refine (tabs_onScreen _).then (Keeps.then (tabs_modify fun _ => ⟨rfl, rfl⟩) ?_)
    exact keeps_ite (fun _ => tabs_modify fun _ => ⟨rfl, rfl⟩) fun _ => tabs_scroll
  have hmove : Keeps TabsFit moveRight :=
    keeps_get_bind fun _ => keeps_ite (fun _ => tabs_onScreen _) fun _ => keeps_pure _
  refine hwrap.then (keeps_get_bind fun _ => (keeps_when fun _ => hmove).then ?_)
  refine keeps_get_bind fun _ => (tabs_onScreen _).then (tabs_modify fun _ => ⟨rfl, rfl⟩)

theorem tabs_finishSequence : Keeps TabsFit finishSequence := tabs_modify fun _ => ⟨rfl, rfl⟩

theorem tabs_parseArg (b : JByte) : Keeps TabsFit (parseArg b) := by
  refine keeps_ite (fun _ => ?_) fun _ => keeps_ite (fun _ => ?_) fun _ => tabs_finishSequence
  · exact Keeps.then (tabs_modify fun _ => ⟨rfl, rfl⟩) (tabs_modify fun _ => ⟨rfl, rfl⟩)
  · exact Keeps.then (tabs_modify fun _ => ⟨rfl, rfl⟩) (tabs_modify fun _ => ⟨rfl, rfl⟩)

theorem tabs_doSelectCharSet (b : JByte) : Keeps TabsFit (doSelectCharSet b) :=
  keeps_ite (fun _ => keeps_pure _) fun _ => tabs_finishSequence

theorem tabs_doEscPound (b : JByte) : Keeps TabsFit (doEscPound b) := by
  unfold doEscPound
  split
  · exact keeps_get_bind fun _ => tabs_onScreen _
  · exact tabs_finishSequence

theorem tabs_reverseIndex : Keeps TabsFit reverseIndex := by
  apply keeps_read
  intro s hs
  refine (wp_ite _ _ _ _ _).mpr ⟨fun _ => ?_, fun _ => ?_⟩
  · exact (tabs_onScreen _).then (tabs_blockClear _ _ _ _) s hs
  · rw [wp_set]
    exact hs.same rfl rfl

theorem tabs_doEsc (b : JByte) : Keeps TabsFit (doEsc b) := by
  unfold doEsc
  split
  case h_5 => exact keeps_get_bind fun _ => tabs_setCursorRowCol _ _
  case h_6 => exact tabs_doLinefeed
  case h_7 => exact (tabs_setCursorCol 0).then tabs_doLinefeed
  case h_8 => exact keeps_get_bind fun _ => tabs_setCursorRowCol _ _
  case h_9 => exact keeps_get_bind fun _ => tabs_setTabStop _ _
  case h_10 => exact tabs_reverseIndex
  all_goals exact tabs_modify fun _ => ⟨rfl, rfl⟩

theorem tabs_editCells {x : TerminalEmulator → ScreenM Unit}
    {sx sy w h : TerminalEmulator → Int} :
    Keeps TabsFit (do
      let s ← get
      onScreen (x s)
      blockClear (sx s) (sy s) (w s) (h s) : EmulatorM Unit) :=
  keeps_get_bind fun _ => (tabs_onScreen _).then (tabs_blockClear _ _ _ _)

theorem tabs_eraseInDisplay : Keeps TabsFit eraseInDisplay := by
  refine keeps_get_bind fun s => ?_
  split
  · exact (tabs_blockClear _ _ _ _).then (tabs_blockClear _ _ _ _)
  · exact (tabs_blockClear _ _ _ _).then (tabs_blockClear _ _ _ _)
  · exact tabs_blockClear _ _ _ _
  · exact tabs_finishSequence

theorem tabs_eraseInLine : Keeps TabsFit eraseInLine := by
  refine keeps_get_bind fun s => ?_
  split
  · exact tabs_blockClear _ _ _ _
  · exact tabs_blockClear _ _ _ _
  · exact tabs_blockClear _ _ _ _
  · exact tabs_finishSequence

/-- TBC clears stops and keeps the array. -/
theorem tabs_clearTabStop : Keeps TabsFit clearTabStop := by
  apply keeps_read
  intro s hs
  have hcolumns := hs.columns
  have hlength := hs.length
  split
  · exact tabs_setTabStop _ _ s hs
  · rw [wp_bind, wp_set, wp_throwIf]
    have hcleared : TabsFit { s with
        mTabStop := List.replicate (min s.mColumns.toNat s.mTabStop.length) false ++
          s.mTabStop.drop s.mColumns.toNat } := by
      refine ⟨hcolumns, ?_⟩
      show ((List.replicate _ false ++ s.mTabStop.drop s.mColumns.toNat).length : Int) = s.mColumns
      rw [List.length_append, List.length_replicate, List.length_drop]
      omega
    exact ⟨fun _ => hcleared, fun _ => hcleared⟩
  · exact (wp_pure _ _ _ _).mpr hs

theorem tabs_doSetMode (newValue : Bool) : Keeps TabsFit (doSetMode newValue) := by
  refine keeps_get_bind fun s => ?_
  split
  · exact tabs_modify fun _ => ⟨rfl, rfl⟩
  · exact tabs_modify fun _ => ⟨rfl, rfl⟩
  · exact keeps_pure _

theorem tabs_setMargins : Keeps TabsFit setMargins :=
  keeps_get_bind fun _ => Keeps.then (tabs_modify fun _ => ⟨rfl, rfl⟩) (tabs_setCursorRowCol _ _)

theorem tabs_applyRendition (code : Int) :
    Keeps TabsFit (modify (applyRendition code) : EmulatorM Unit) := by
  refine keeps_modify fun s hs => ?_
  have hite {c : Prop} [Decidable c] {t u : TerminalEmulator} (ht : TabsFit t) (hu : TabsFit u) :
      TabsFit (if c then t else u) := by
    split
    · exact ht
    · exact hu
  unfold applyRendition
  iterate 11 refine hite (hs.same rfl rfl) ?_
  exact hs

theorem tabs_renditionFrom (fuel i : Nat) : Keeps TabsFit (renditionFrom fuel i) := by
  induction fuel generalizing i with
  | zero => exact keeps_pure _
  | succ fuel ih =>
      rw [renditionFrom]
      refine keeps_get_bind fun s => ?_
      split
      · exact keeps_ite (fun _ => ih _) fun _ => (tabs_applyRendition _).then (ih _)
      · exact keeps_throw _

theorem tabs_doEscLeftSquareBracket (b : JByte) : Keeps TabsFit (doEscLeftSquareBracket b) := by
  unfold doEscLeftSquareBracket
  refine keeps_get_bind fun s => ?_
  split
  case h_1 | h_10 | h_11 | h_12 => exact tabs_editCells
  case h_7 | h_17 => exact keeps_get_bind fun _ => tabs_setCursorPosition _ _
  case h_8 => exact tabs_eraseInDisplay
  case h_9 => exact tabs_eraseInLine
  case h_18 => exact tabs_clearTabStop
  case h_19 => exact tabs_doSetMode true
  case h_20 => exact tabs_doSetMode false
  case h_21 => exact keeps_get_bind fun _ => tabs_renditionFrom _ _
  case h_22 => exact tabs_setMargins
  case h_23 => exact tabs_parseArg b
  all_goals exact tabs_modify fun _ => ⟨rfl, rfl⟩

theorem tabs_doEscLSBQuest (b : JByte) : Keeps TabsFit (doEscLSBQuest b) := by
  have hflags (mask : BitVec 32) : Keeps TabsFit (changeDecFlags b mask) := by
    unfold changeDecFlags
    split
    case h_5 => exact tabs_parseArg b
    all_goals exact tabs_modify fun _ => ⟨rfl, rfl⟩
  refine keeps_get_bind fun s => (hflags _).then ?_
  refine (keeps_when fun _ => ?_).then (keeps_when fun _ => tabs_setCursorPosition 0 0)
  exact keeps_get_bind fun _ => (tabs_blockClear _ _ _ _).then (tabs_setCursorRowCol _ _)

theorem tabs_processInState (b : JByte) : Keeps TabsFit (processInState b) := by
  refine keeps_get_bind fun s => ?_
  cases s.mEscapeState with
  | none => exact keeps_when fun _ => tabs_emit b
  | esc => exact tabs_doEsc b
  | pound => exact tabs_doEscPound b
  | selectLeftParen => exact tabs_doSelectCharSet b
  | selectRightParen => exact tabs_doSelectCharSet b
  | leftSquareBracket => exact tabs_doEscLeftSquareBracket b
  | leftSquareBracketQuestionMark => exact tabs_doEscLSBQuest b

theorem tabs_process (b : JByte) : Keeps TabsFit (process b) := by
  unfold process
  split
  case h_1 | h_2 => exact keeps_pure _
  case h_3 => exact keeps_get_bind fun _ => tabs_setCursorCol _
  case h_4 => exact keeps_get_bind fun _ => (keeps_checked _).bind fun _ => tabs_setCursorCol _
  case h_5 => exact tabs_setCursorCol 0
  case h_6 | h_7 | h_8 => exact tabs_doLinefeed
  case h_9 | h_10 => exact tabs_modify fun _ => ⟨rfl, rfl⟩
  case h_11 | h_12 =>
    refine keeps_get_bind fun _ => keeps_ite (fun _ => ?_) fun _ => keeps_pure _
    exact tabs_finishSequence.then (tabs_emit _)
  case h_13 | h_14 => exact tabs_modify fun _ => ⟨rfl, rfl⟩
  case h_15 =>
    refine Keeps.then (tabs_modify fun _ => ⟨rfl, rfl⟩) ((tabs_processInState b).then ?_)
    exact keeps_get_bind fun _ => keeps_when fun _ => tabs_finishSequence

/-- The default stops are as many as there are columns. -/
theorem tabs_reset : Keeps TabsFit reset := by
  have hstops : Keeps TabsFit setDefaultTabStops := by
    refine keeps_modify fun s hs => ⟨hs.columns, ?_⟩
    have hcolumns := hs.columns
    show (((List.range s.mColumns.toNat).map _).length : Int) = s.mColumns
    rw [List.length_map, List.length_range]
    omega
  refine Keeps.then (tabs_modify fun _ => ⟨rfl, rfl⟩) (hstops.then ?_)
  exact keeps_get_bind fun _ => tabs_blockClear _ _ _ _

/-- The array is cut off or filled up to the new number of columns. -/
theorem tabs_setSize {columns : Int} (hcolumns : 0 < columns) (rows : Int) :
    Keeps TabsFit (setSize columns rows) := by
  refine Keeps.then (tabs_modify fun s => ?_) (keeps_modify fun s hs => ?_)
  · split
    · exact ⟨rfl, rfl⟩
    · exact ⟨rfl, rfl⟩
  · split
    · refine ⟨Int.le_of_lt hcolumns, ?_⟩
      show ((s.mTabStop.take columns.toNat ++
        List.replicate (columns.toNat - s.mTabStop.length) false).length : Int) = columns
      rw [List.length_append, List.length_take, List.length_replicate]
      omega
    · exact hs

theorem tabs_replay (text : List JChar) : Keeps TabsFit (replay text) := by
  induction text with
  | nil => exact keeps_pure _
  | cons c rest ih =>
      refine keeps_ite (fun _ => ?_) fun _ => (tabs_emit _).then ih
      exact (tabs_setCursorCol 0).then (tabs_doLinefeed.then ih)

theorem tabs_updateSize (columns rows : Int) : Keeps TabsFit (updateSize columns rows) := by
  apply keeps_read
  intro s hs
  simp only [wp_ite, wp_pure, wp_bind, wp_throwIf]
  refine ⟨fun _ => hs, fun _ => ⟨fun _ => hs, fun hcolumns => ⟨fun _ => hs, fun _ => ?_⟩⟩⟩
  refine wp_mono (tabs_onScreen _ s hs) (fun text t ht => ?_) fun _ _ ht => ht
  refine wp_mono (tabs_onScreen _ t ht) (fun _ u hu => ?_) fun _ _ hu => hu
  refine wp_mono (tabs_setSize (by omega) rows u hu) (fun _ v hv => ?_) fun _ _ hv => hv
  rw [wp_modify]
  exact tabs_replay _ _ (hv.same rfl rfl)

theorem tabsFit_create {columns totalRows rows : Nat} (h : create columns totalRows rows = .ok s) :
    TabsFit s := by
  obtain ⟨screen, _, h⟩ := bind_ok_iff.mp h
  refine of_construct h (tabs_reset _ ⟨Int.natCast_nonneg columns, ?_⟩)
  show ((List.replicate columns false).length : Int) = columns
  rw [List.length_replicate]

/-- There is a tab stop or none for every column, in every reachable state. -/
theorem tabsFit_run (hs : TabsFit s) (calls : List Call) : TabsFit (run calls s) := by
  refine keeps_foldl_after (fun call _ => ?_) hs
  cases call with
  | byte b => exact tabs_process b
  | updateSize columns rows => exact tabs_updateSize columns rows
  | reset => exact tabs_reset

end Kbox.Session.TerminalEmulator
