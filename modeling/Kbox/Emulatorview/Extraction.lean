import Kbox.Emulatorview.DrawText

/-!
# What `internalGetTranscriptText` takes from a row

The first loop over a row's chars goes through the units of the text until a NUL,
the end, or the column behind the selection; a low surrogate stands in the
column behind its pair, and so does a combining mark behind its base.  What is
taken ends at the last printing unit that the loop came to.
-/

namespace Kbox.Emulatorview

open Kbox.Framework

/-- UTF-16 without unpaired surrogates. -/
inductive WellFormed : List JChar → Prop
  | nil : WellFormed []
  | single {c : JChar} {rest : List JChar} : isHighSurrogate c = false →
      isLowSurrogate c = false → WellFormed rest → WellFormed (c :: rest)
  | pair {c d : JChar} {rest : List JChar} : isHighSurrogate c = true →
      isLowSurrogate d = true → WellFormed rest → WellFormed (c :: d :: rest)

theorem WellFormed.append {xs ys : List JChar} (hxs : WellFormed xs) (hys : WellFormed ys) :
    WellFormed (xs ++ ys) := by
  induction hxs with
  | nil => exact hys
  | single hhigh hlow _ ih => exact .single hhigh hlow ih
  | pair hhigh hlow _ ih => exact .pair hhigh hlow ih

/-- Blanks, and the NUL that the loop stops at. -/
def IsBlank (c : JChar) : Prop := c = 32 ∨ c = 0

theorem IsBlank.not_high {c : JChar} (h : IsBlank c) : isHighSurrogate c = false := by
  rcases h with rfl | rfl <;> decide

theorem IsBlank.not_low {c : JChar} (h : IsBlank c) : isLowSurrogate c = false := by
  rcases h with rfl | rfl <;> decide

theorem wellFormed_blanks {xs : List JChar} (h : ∀ c ∈ xs, IsBlank c) : WellFormed xs := by
  induction xs with
  | nil => exact .nil
  | cons c xs ih =>
      have hc := h c List.mem_cons_self
      exact .single hc.not_high hc.not_low (ih fun d hd => h d (List.mem_cons_of_mem _ hd))

theorem WellFormed.of_append_blanks {xs ys : List JChar} (h : WellFormed (xs ++ ys))
    (hys : ∀ c ∈ ys, IsBlank c) : WellFormed xs := by
  generalize heq : xs ++ ys = zs at h
  induction h generalizing xs with
  | nil =>
      obtain ⟨rfl, _⟩ := List.append_eq_nil_iff.mp heq
      exact .nil
  | @single c rest hhigh hlow _ ih =>
      rcases xs with _ | ⟨x, xs⟩
      · exact .nil
      · obtain ⟨rfl, hrest⟩ := List.cons.inj heq
        exact .single hhigh hlow (ih hrest)
  | @pair c d rest hhigh hlow _ ih =>
      rcases xs with _ | ⟨x, _ | ⟨y, xs⟩⟩
      · exact .nil
      · -- the pair would be cut in front of a blank
        obtain ⟨rfl, hrest⟩ : x = c ∧ ys = d :: rest := List.cons.inj heq
        have hd : d ∈ ys := by
          rw [hrest]
          exact List.mem_cons_self
        rw [(hys d hd).not_low] at hlow
        cases hlow
      · obtain ⟨rfl, hrest⟩ : x = c ∧ y :: (xs ++ ys) = d :: rest := List.cons.inj heq
        obtain ⟨rfl, htail⟩ := List.cons.inj hrest
        exact .pair hhigh hlow (ih htail)

/-- A high surrogate has its low surrogate behind it. -/
theorem WellFormed.high_next {xs : List JChar} (h : WellFormed xs) {i : Nat} {c : JChar}
    (hc : xs[i]? = some c) (hhigh : isHighSurrogate c = true) :
    ∃ d, xs[i + 1]? = some d ∧ isLowSurrogate d = true := by
  induction h generalizing i with
  | nil => cases hc
  | single hnot _ _ ih =>
      rcases i with _ | i
      · cases hc
        rw [hnot] at hhigh
        cases hhigh
      · exact ih hc
  | @pair _ b rest _ hlow _ ih =>
      rcases i with _ | _ | i
      · exact ⟨b, rfl, hlow⟩
      · have hb : b = c := Option.some.inj hc
        have hboth : isHighSurrogate b = true ∧ isLowSurrogate b = true :=
          ⟨hb ▸ hhigh, hlow⟩
        simp only [isHighSurrogate, isLowSurrogate, decide_eq_true_eq] at hboth
        omega
      · exact ih hc

namespace TranscriptScreen

variable [Platform]

/-! ## §1  Columns of units -/

/-- The columns that the unit in front takes. -/
def unitWidth : List JChar → Int
  | [] => 0
  | c :: rest =>
      if isLowSurrogate c then 0
      else if isHighSurrogate c then charWidth (toCodePoint c (rest.headD 0))
      else charWidth c.toNat

/-- The column that unit `k` stands in, which for a low surrogate and for a mark is the
one behind its character. -/
def columnOf (text : List JChar) : Nat → Int
  | 0 => 0
  | k + 1 => columnOf text k + unitWidth (text.drop k)

theorem unitWidth_nonneg (text : List JChar) : 0 ≤ unitWidth text := by
  have hwidth (codePoint : Int) : 0 ≤ charWidth codePoint := by
    rcases charWidth_cases codePoint with h | h | h <;> rw [h] <;> decide
  unfold unitWidth
  split
  · exact Int.le_refl 0
  · split_ifs
    · exact Int.le_refl 0
    · exact hwidth _
    · exact hwidth _

theorem columnOf_mono (text : List JChar) {j k : Nat} (h : j ≤ k) :
    columnOf text j ≤ columnOf text k := by
  induction h with
  | refl => exact Int.le_refl _
  | @step k _ ih =>
      have hunit := unitWidth_nonneg (text.drop k)
      rw [columnOf]
      omega

theorem columnOf_nonneg (text : List JChar) (k : Nat) : 0 ≤ columnOf text k :=
  columnOf_mono text (Nat.zero_le k)

theorem unitWidth_congr {xs ys : List JChar} (h₀ : xs[0]? = ys[0]?) (h₁ : xs[1]? = ys[1]?) :
    unitWidth xs = unitWidth ys := by
  rcases xs with _ | ⟨x, xs⟩
  · rcases ys with _ | ⟨y, ys⟩
    · rfl
    · cases h₀
  · rcases ys with _ | ⟨y, ys⟩
    · cases h₀
    · cases h₀
      have hnext : xs.headD 0 = ys.headD 0 := by
        rw [List.headD_eq_head?_getD, List.headD_eq_head?_getD, List.head?_eq_getElem?,
          List.head?_eq_getElem?]
        exact congrArg (·.getD 0) h₁
      simp only [unitWidth, hnext]

/-- The column of a unit depends on the units up to it. -/
theorem columnOf_congr {xs ys : List JChar} {k : Nat} (h : ∀ j ≤ k, xs[j]? = ys[j]?) :
    columnOf xs k = columnOf ys k := by
  induction k with
  | zero => rfl
  | succ k ih =>
      have hunit : unitWidth (xs.drop k) = unitWidth (ys.drop k) := by
        apply unitWidth_congr
        · rw [List.getElem?_drop, List.getElem?_drop]
          exact h k (Nat.le_succ k)
        · rw [List.getElem?_drop, List.getElem?_drop]
          exact h (k + 1) (Nat.le_refl _)
      rw [columnOf, columnOf, hunit, ih fun j hj => h j (Nat.le_succ_of_le hj)]

/-- Unit `k` is more than a blank of the default style. -/
def Prints (color : Option StyleRow) (defaultColor : Style) (text : List JChar) (k : Nat) :
    Prop :=
  ∃ c, text[k]? = some c ∧ c ≠ 0 ∧ isPrinting color defaultColor c (columnOf text k) = .ok true

omit [Platform] in
theorem isPrinting_of_not_blank {color : Option StyleRow} {defaultColor : Style} {c : JChar}
    (h : ¬ IsBlank c) (column : Int) : isPrinting color defaultColor c column = .ok true := by
  unfold isPrinting
  rw [if_pos fun hc => h (.inl hc)]

variable {color : Option StyleRow} {defaultColor : Style} {width : Int} {text units : List JChar}

theorem prints_of_not_blank {k : Nat} {c : JChar} (hc : text[k]? = some c) (h : ¬ IsBlank c) :
    Prints color defaultColor text k :=
  ⟨c, hc, fun hzero => h (.inr hzero), isPrinting_of_not_blank h _⟩

theorem Prints.congr {k : Nat} (h : Prints color defaultColor text k)
    (heq : ∀ j ≤ k, text[j]? = units[j]?) : Prints color defaultColor units k := by
  obtain ⟨c, hc, hzero, hprints⟩ := h
  rw [columnOf_congr heq] at hprints
  exact ⟨c, (heq k (Nat.le_refl k)) ▸ hc, hzero, hprints⟩

/-! ## §2  The first loop -/

/-- The greatest index in front of `n` with a property, or -1. -/
structure IsLast (p : Nat → Prop) (n : Nat) (last : Int) : Prop where
  lower : -1 ≤ last
  upper : last < n
  found : 0 ≤ last → p last.toNat
  least : ∀ k < n, p k → k ≤ last

omit [Platform] in
theorem IsLast.step {p : Nat → Prop} {n : Nat} {last : Int} (h : IsLast p n last) :
    (p n → IsLast p (n + 1) n) ∧ (¬ p n → IsLast p (n + 1) last) := by
  have hlower := h.lower
  have hupper := h.upper
  constructor
  · intro hp
    exact ⟨by omega, by omega, fun _ => hp, fun k hk _ => by omega⟩
  · intro hp
    refine ⟨hlower, by omega, h.found, fun k hk hpk => ?_⟩
    rcases Nat.lt_succ_iff_lt_or_eq.mp hk with hlt | rfl
    · exact h.least k hlt hpk
    · exact absurd hpk hp

/-- The styles of the columns that are selected can be read. -/
def StylesTo (color : Option StyleRow) (defaultColor : Style) (width : Int) : Prop :=
  ∀ column, 0 ≤ column → column < width →
    ∃ style, columnStyle color defaultColor column = .ok style

omit [Platform] in
theorem isPrinting_of_styles (hstyles : StylesTo color defaultColor width) (c : JChar)
    {column : Int} (hpos : 0 ≤ column) (hlt : column < width) :
    ∃ b, isPrinting color defaultColor c column = .ok b := by
  unfold isPrinting
  split_ifs
  · exact ⟨_, rfl⟩
  · rcases color with _ | color
    · exact ⟨_, rfl⟩
    · obtain ⟨style, hstyle⟩ := hstyles column hpos hlt
      have hstyle' : color.get column = .ok style := hstyle
      simp only [hstyle']
      exact ⟨_, rfl⟩

/-- The column behind a unit, if it is not a high surrogate at the end of the array. -/
theorem columnBehind_iff {i : Nat} {c : JChar} {column : Int} (hc : units[i]? = some c) :
    columnBehind units i c (columnOf units i) = .ok column ↔
      (isHighSurrogate c = true → i + 1 < units.length) ∧ column = columnOf units (i + 1) := by
  obtain ⟨hlt, rfl⟩ := List.getElem?_eq_some_iff.mp hc
  have hread : arrayGet (Exn.arrayIndexOutOfBounds .tmpLine) units (i : Int) = .ok units[i] :=
    arrayGet_of_lt hlt
  have hdrop : units.drop i = units[i] :: units.drop (i + 1) := List.drop_eq_getElem_cons hlt
  rw [columnOf, hdrop, unitWidth]
  unfold columnBehind charWidthAt
  rw [hread]
  by_cases hlow : isLowSurrogate units[i] = true
  · have hhigh : ¬ isHighSurrogate units[i] = true := by
      intro hhigh
      simp only [isHighSurrogate, isLowSurrogate, decide_eq_true_eq] at hlow hhigh
      omega
    rw [if_pos hlow, if_pos hlow, Int.add_zero]
    constructor
    · intro h
      exact ⟨fun hh => absurd hh hhigh, (Except.ok.inj h).symm⟩
    · rintro ⟨_, rfl⟩
      rfl
  by_cases hhigh : isHighSurrogate units[i] = true
  · simp only [bind, Except.bind, if_neg hlow, if_pos hhigh]
    by_cases hnext : i + 1 < units.length
    · have hreadNext : arrayGet (Exn.arrayIndexOutOfBounds .tmpLine) units ((i : Int) + 1) =
          .ok units[i + 1] := arrayGet_of_lt hnext
      have hhead : (units.drop (i + 1)).headD 0 = units[i + 1] := by
        rw [List.drop_eq_getElem_cons hnext]
        rfl
      rw [hreadNext, hhead]
      constructor
      · intro h
        exact ⟨fun _ => hnext, (Except.ok.inj h).symm⟩
      · rintro ⟨_, rfl⟩
        rfl
    · have hnone : ¬ ∃ d, arrayGet (Exn.arrayIndexOutOfBounds .tmpLine) units ((i : Int) + 1) =
          .ok d := by
        rintro ⟨d, hd⟩
        obtain ⟨_, hget⟩ := arrayGet_ok_iff.mp hd
        obtain ⟨hlt', _⟩ := List.getElem?_eq_some_iff.mp hget
        omega
      cases hd : arrayGet (Exn.arrayIndexOutOfBounds .tmpLine) units ((i : Int) + 1) with
      | ok d => exact absurd ⟨d, hd⟩ hnone
      | error e =>
          constructor
          · intro h
            cases h
          · rintro ⟨h, _⟩
            exact absurd (h hhigh) hnext
  · simp only [bind, Except.bind, if_neg hlow, if_neg hhigh]
    constructor
    · intro h
      exact ⟨fun hh => absurd hh hhigh, (Except.ok.inj h).symm⟩
    · rintro ⟨_, rfl⟩
      rfl

/-- What the first loop has passed when it is at unit `n`. -/
structure Passed (color : Option StyleRow) (defaultColor : Style) (width : Int)
    (units : List JChar) (n : Nat) (last : Int) : Prop where
  upto : n ≤ units.length
  reached : ∀ k < n, units[k]? ≠ some 0 ∧ columnOf units k < width
  last : IsLast (Prints color defaultColor units) n last

/-- The loop stops here. -/
def StopsAt (width : Int) (units : List JChar) (n : Nat) : Prop :=
  n = units.length ∨ units[n]? = some 0 ∨ width ≤ columnOf units n

theorem Passed.step {n : Nat} {last : Int} {c : JChar} {printing : Bool}
    (h : Passed color defaultColor width units n last) (hc : units[n]? = some c) (hzero : c ≠ 0)
    (hcol : columnOf units n < width)
    (hprints : isPrinting color defaultColor c (columnOf units n) = .ok printing) :
    Passed color defaultColor width units (n + 1) (if printing then (n : Int) else last) := by
  obtain ⟨hlt, _⟩ := List.getElem?_eq_some_iff.mp hc
  refine ⟨hlt, fun k hk => ?_, ?_⟩
  · rcases Nat.lt_succ_iff_lt_or_eq.mp hk with hlt | rfl
    · exact h.reached k hlt
    · rw [hc]
      exact ⟨fun heq => hzero (Option.some.inj heq), hcol⟩
  · obtain ⟨hyes, hno⟩ := h.last.step
    cases printing with
    | true => exact hyes ⟨c, hc, hzero, hprints⟩
    | false =>
        refine hno ?_
        rintro ⟨c', hc', _, hprints'⟩
        rw [hc] at hc'
        cases hc'
        rw [hprints] at hprints'
        cases hprints'

/-- The loop, from a unit on. -/
theorem scanLine_ok {fuel n : Nat} {last : Int} {r : Int × Int}
    (h : scanLine width color defaultColor units fuel n (columnOf units n) last = .ok r)
    (hpassed : Passed color defaultColor width units n last)
    (hfuel : units.length ≤ n + fuel) :
    ∃ stop : Nat, r.1 = stop ∧ StopsAt width units stop ∧
      Passed color defaultColor width units stop r.2 := by
  induction fuel generalizing n last with
  | zero =>
      cases h
      have hupto := hpassed.upto
      exact ⟨n, rfl, .inl (by omega), hpassed⟩
  | succ fuel ih =>
      rw [scanLine] at h
      by_cases hin : (n : Int) < units.length ∧ columnOf units n < width
      · rw [if_pos hin] at h
        have hlt : n < units.length := by omega
        have hc : units[n]? = some units[n] := List.getElem?_eq_getElem hlt
        have hread : arrayGet (Exn.arrayIndexOutOfBounds .tmpLine) units (n : Int) = .ok units[n] :=
          arrayGet_of_lt hlt
        rw [hread] at h
        simp only [bind, Except.bind] at h
        by_cases hzero : units[n] = 0
        · rw [if_pos hzero] at h
          cases h
          exact ⟨n, rfl, .inr (.inl (by rw [hc, hzero])), hpassed⟩
        · rw [if_neg hzero] at h
          cases hprints : isPrinting color defaultColor units[n] (columnOf units n) with
          | error e =>
              rw [hprints] at h
              cases h
          | ok printing =>
              cases hbehind : columnBehind units n units[n] (columnOf units n) with
              | error e =>
                  rw [hprints, hbehind] at h
                  cases h
              | ok column =>
                  rw [hprints, hbehind] at h
                  obtain ⟨_, rfl⟩ := (columnBehind_iff hc).mp hbehind
                  exact ih (n := n + 1) h (hpassed.step hc hzero hin.2 hprints) (by omega)
      · rw [if_neg hin] at h
        cases h
        have hupto := hpassed.upto
        refine ⟨n, rfl, ?_, hpassed⟩
        by_cases hend : n = units.length
        · exact .inl hend
        · refine .inr (.inr (Int.not_lt.mp fun hcol => hin ⟨?_, hcol⟩))
          omega

/-- The loop returns if no high surrogate at the end of the array is reached. -/
theorem scanLine_returns (hstyles : StylesTo color defaultColor width) {fuel n : Nat}
    (hhigh : ∀ k c, units[k]? = some c → (∀ j ≤ k, units[j]? ≠ some 0) →
      isHighSurrogate c = true → k + 1 < units.length) {last : Int}
    (hpassed : Passed color defaultColor width units n last) :
    ∃ r, scanLine width color defaultColor units fuel n (columnOf units n) last = .ok r := by
  induction fuel generalizing n last with
  | zero => exact ⟨_, rfl⟩
  | succ fuel ih =>
      rw [scanLine]
      by_cases hin : (n : Int) < units.length ∧ columnOf units n < width
      · rw [if_pos hin]
        have hlt : n < units.length := by omega
        have hc : units[n]? = some units[n] := List.getElem?_eq_getElem hlt
        have hread : arrayGet (Exn.arrayIndexOutOfBounds .tmpLine) units (n : Int) = .ok units[n] :=
          arrayGet_of_lt hlt
        rw [hread]
        simp only [bind, Except.bind]
        by_cases hzero : units[n] = 0
        · rw [if_pos hzero]
          exact ⟨_, rfl⟩
        · rw [if_neg hzero]
          have hnonzero : ∀ j ≤ n, units[j]? ≠ some 0 := by
            intro j hj
            rcases Nat.lt_or_eq_of_le hj with hlt | rfl
            · exact (hpassed.reached j hlt).1
            · rw [hc]
              exact fun heq => hzero (Option.some.inj heq)
          obtain ⟨printing, hprints⟩ := isPrinting_of_styles hstyles units[n]
            (columnOf_nonneg units n) hin.2
          have hbehind := (columnBehind_iff hc).mpr ⟨hhigh n _ hc hnonzero, rfl⟩
          rw [hprints, hbehind]
          exact ih (hpassed.step hc hzero hin.2 hprints)
      · rw [if_neg hin]
        exact ⟨_, rfl⟩

/-! ## §3  The loop over the colours -/

/-- The styles of the code points of a text; a mark has that of the column in front. -/
inductive Styled (color : Option StyleRow) (defaultColor : Style) :
    List JChar → Int → Int → List Style → Prop
  | nil {column base : Int} : Styled color defaultColor [] column base []
  | glyph {column base w : Int} {g rest : List JChar} {style : Style} {styles : List Style} :
      IsGlyph g w →
      columnStyle color defaultColor (if w = 0 then base else column) = .ok style →
      Styled color defaultColor rest (column + w) (if w = 0 then base else column) styles →
      Styled color defaultColor (g ++ rest) column base (style :: styles)

/-- A mark looks like the column behind its base. -/
inductive MarksAgree (color : Option StyleRow) (defaultColor : Style) :
    List JChar → Int → Int → Prop
  | nil {column base : Int} : MarksAgree color defaultColor [] column base
  | glyph {column base w : Int} {g rest : List JChar} :
      IsGlyph g w →
      (w = 0 → columnStyle color defaultColor column = columnStyle color defaultColor base) →
      MarksAgree color defaultColor rest (column + w) (if w = 0 then base else column) →
      MarksAgree color defaultColor (g ++ rest) column base

/-- The glyph in front of a text is determined by it. -/
theorem IsGlyph.unique {g g' rest rest' : List JChar} {w w' : Int} (hg : IsGlyph g w)
    (hg' : IsGlyph g' w') (h : g ++ rest = g' ++ rest') : g = g' ∧ w = w' ∧ rest = rest' := by
  cases hg with
  | single hlow =>
      cases hg' with
      | single _ =>
          obtain ⟨rfl, rfl⟩ := List.cons.inj h
          exact ⟨rfl, rfl, rfl⟩
      | pair hhigh =>
          obtain ⟨rfl, _⟩ := List.cons.inj h
          rw [hlow] at hhigh
          cases hhigh
  | pair hhigh =>
      cases hg' with
      | single hlow =>
          obtain ⟨rfl, _⟩ := List.cons.inj h
          rw [hlow] at hhigh
          cases hhigh
      | pair _ =>
          obtain ⟨rfl, hrest⟩ := List.cons.inj h
          obtain ⟨rfl, rfl⟩ := List.cons.inj hrest
          exact ⟨rfl, rfl, rfl⟩

theorem styled_cons_iff {g rest : List JChar} {w column base : Int} (hg : IsGlyph g w)
    {style : Style} {styles : List Style} :
    Styled color defaultColor (g ++ rest) column base (style :: styles) ↔
      columnStyle color defaultColor (if w = 0 then base else column) = .ok style ∧
      Styled color defaultColor rest (column + w) (if w = 0 then base else column) styles := by
  constructor
  · intro h
    generalize htext : g ++ rest = text at h
    cases h with
    | glyph hg' hstyle hrest =>
        obtain ⟨rfl, rfl, rfl⟩ := hg.unique hg' htext
        exact ⟨hstyle, hrest⟩
  · rintro ⟨hstyle, hrest⟩
    exact .glyph hg hstyle hrest

theorem marksAgree_glyph_iff {g rest : List JChar} {w column base : Int} (hg : IsGlyph g w) :
    MarksAgree color defaultColor (g ++ rest) column base ↔
      (w = 0 → columnStyle color defaultColor column = columnStyle color defaultColor base) ∧
      MarksAgree color defaultColor rest (column + w) (if w = 0 then base else column) := by
  constructor
  · intro h
    generalize htext : g ++ rest = text at h
    cases h with
    | nil =>
        cases hg with
        | single _ => cases htext
        | pair _ => cases htext
    | glyph hg' hmark hrest =>
        obtain ⟨rfl, rfl, rfl⟩ := hg.unique hg' htext
        exact ⟨hmark, hrest⟩
  · rintro ⟨hmark, hrest⟩
    exact .glyph hg hmark hrest

/-- A glyph of a well-formed text: what the loop over the colours takes in one pass. -/
structure GlyphAt (units : List JChar) (j : Nat) (g : List JChar) (w : Int) : Prop where
  glyph : IsGlyph g w
  read : charWidthAt (.arrayIndexOutOfBounds .tmpLine) units j = .ok w
  next : ∃ c, arrayGet (Exn.arrayIndexOutOfBounds .tmpLine) units (j : Int) = .ok c ∧
    (if isHighSurrogate c then (j : Int) + 2 else j + 1) = (j + g.length : Nat)
  column : columnOf units (j + g.length) = columnOf units j + w

theorem glyphAt_single {j : Nat} {c : JChar} {rest : List JChar} (hdrop : units.drop j = c :: rest)
    (hhigh : isHighSurrogate c = false) (hlow : isLowSurrogate c = false) :
    GlyphAt units j [c] (charWidth c.toNat) := by
  have hread : arrayGet (Exn.arrayIndexOutOfBounds .tmpLine) units (j : Int) = .ok c := by
    refine arrayGet_ok_iff.mpr ⟨Int.natCast_nonneg j, ?_⟩
    rw [Int.toNat_natCast, ← List.head?_drop, hdrop]
    rfl
  refine ⟨.single hhigh, ?_, ⟨c, hread, ?_⟩, ?_⟩
  · unfold charWidthAt
    simp only [hread, bind, Except.bind, hhigh]
    rfl
  · rw [hhigh]
    rfl
  · rw [List.length_singleton, columnOf, hdrop, unitWidth, hlow, hhigh]
    rfl

theorem glyphAt_pair {j : Nat} {c d : JChar} {rest : List JChar}
    (hdrop : units.drop j = c :: d :: rest) (hhigh : isHighSurrogate c = true)
    (hlow : isLowSurrogate d = true) : GlyphAt units j [c, d] (charWidth (toCodePoint c d)) := by
  have hread : arrayGet (Exn.arrayIndexOutOfBounds .tmpLine) units (j : Int) = .ok c := by
    refine arrayGet_ok_iff.mpr ⟨Int.natCast_nonneg j, ?_⟩
    rw [Int.toNat_natCast, ← List.head?_drop, hdrop]
    rfl
  have hdrop' : units.drop (j + 1) = d :: rest := by
    rw [← List.drop_drop, hdrop]
    rfl
  have hread' : arrayGet (Exn.arrayIndexOutOfBounds .tmpLine) units ((j : Int) + 1) = .ok d := by
    refine arrayGet_ok_iff.mpr ⟨by omega, ?_⟩
    rw [show ((j : Int) + 1).toNat = j + 1 by omega, ← List.head?_drop, hdrop']
    rfl
  have hnotLow : isLowSurrogate c = false := by
    simp only [isHighSurrogate, decide_eq_true_eq] at hhigh
    simp only [isLowSurrogate, decide_eq_false_iff_not]
    omega
  refine ⟨.pair hhigh, ?_, ⟨c, hread, ?_⟩, ?_⟩
  · unfold charWidthAt
    simp only [hread, hread', bind, Except.bind, hhigh, if_true]
    rfl
  · rw [hhigh]
    rfl
  · show columnOf units (j + 1 + 1) = _
    rw [columnOf, columnOf, hdrop, hdrop', unitWidth, unitWidth, hlow, hnotLow, hhigh]
    simp only [Bool.false_eq_true, if_false, if_true, Int.add_zero, List.headD_cons]

/-- A pass of the loop over the colours. -/
theorem scanColors_glyph {j fuel : Nat} {g : List JChar} {w last column : Int} {style : Style}
    (hg : GlyphAt units j g w) (hlast : (j : Int) ≤ last)
    (hstyle : columnStyle color defaultColor column = .ok style) {column' : Int}
    (hcolumn : column' = if color.isSome then column + w else column) :
    scanColors color defaultColor units last (fuel + 1) j column =
      (scanColors color defaultColor units last fuel (j + g.length : Nat) column').map
        (style :: ·) := by
  obtain ⟨c, hc, hnext⟩ := hg.next
  have hbehind : styleColumnBehind color units j column = .ok column' := by
    rw [hcolumn]
    cases color with
    | none => rfl
    | some color =>
        simp only [styleColumnBehind, hg.read]
        rfl
  rw [scanColors, if_pos hlast, hstyle, hbehind, hc]
  simp only [bind, Except.bind, hnext]
  cases scanColors color defaultColor units last fuel (j + g.length : Nat) column' with
  | error e => rfl
  | ok styles => rfl

omit [Platform] in
theorem columnStyle_of_none {c column : Int} (h : c = column ∨ color = none) :
    columnStyle color defaultColor c = columnStyle color defaultColor column := by
  rcases h with rfl | rfl
  · rfl
  · rfl

/-- A pass puts the style of the column that the code point is read at in front. -/
theorem scanColors_step (hstyles : StylesTo color defaultColor width) {g rest : List JChar}
    {w last c : Int} {j fuel : Nat} (hg : GlyphAt units j g w) (hlast : (j : Int) ≤ last)
    (hcol : columnOf units j < width) (hc : c = columnOf units j ∨ color = none)
    (ih : ∀ c', c' = columnOf units (j + g.length) ∨ color = none → ∃ styles,
      scanColors color defaultColor units last fuel (j + g.length : Nat) c' = .ok styles ∧
      ∀ base, Styled color defaultColor rest (columnOf units (j + g.length)) base styles ↔
        MarksAgree color defaultColor rest (columnOf units (j + g.length)) base) :
    ∃ styles, scanColors color defaultColor units last (fuel + 1) j c = .ok styles ∧
      ∀ base, Styled color defaultColor (g ++ rest) (columnOf units j) base styles ↔
        MarksAgree color defaultColor (g ++ rest) (columnOf units j) base := by
  obtain ⟨style, hstyle⟩ := hstyles _ (columnOf_nonneg units j) hcol
  have hcode : columnStyle color defaultColor c = .ok style :=
    (columnStyle_of_none hc).trans hstyle
  have hnext : (if color.isSome then c + w else c) = columnOf units (j + g.length) ∨
      color = none := by
    rcases hc with rfl | rfl
    · cases color with
      | none => exact .inr rfl
      | some color => exact .inl hg.column.symm
    · exact .inr rfl
  obtain ⟨styles, hrest, hiff⟩ := ih _ hnext
  refine ⟨style :: styles, ?_, fun base => ?_⟩
  · rw [scanColors_glyph hg hlast hcode rfl, hrest]
    rfl
  · rw [styled_cons_iff hg.glyph, marksAgree_glyph_iff hg.glyph, ← hg.column, hiff]
    apply and_congr_left
    intro _
    by_cases hw : w = 0
    · rw [if_pos hw, hstyle]
      exact ⟨fun h _ => h.symm, fun h => (h hw).symm⟩
    · rw [if_neg hw]
      exact ⟨fun _ hzero => absurd hzero hw, fun _ => hstyle⟩

/-- One style for each code point, which is that of its column if the marks agree. -/
theorem scanColors_iff (hstyles : StylesTo color defaultColor width) (htext : WellFormed text)
    {fuel j : Nat} {more : List JChar} {c : Int} (hdrop : units.drop j = text ++ more)
    (hcol : ∀ k, j ≤ k → k < j + text.length → columnOf units k < width)
    (hc : c = columnOf units j ∨ color = none) (hfuel : text.length ≤ fuel) {last : Int}
    (hlast : last = j + text.length - 1) :
    ∃ styles, scanColors color defaultColor units last fuel j c = .ok styles ∧
      ∀ base, Styled color defaultColor text (columnOf units j) base styles ↔
        MarksAgree color defaultColor text (columnOf units j) base := by
  induction htext generalizing fuel j c with
  | nil =>
      refine ⟨[], ?_, fun base => ⟨fun _ => .nil, fun _ => .nil⟩⟩
      have hend : ¬ (j : Int) ≤ last := by
        rw [List.length_nil] at hlast
        omega
      cases fuel with
      | zero => rfl
      | succ fuel => rw [scanColors, if_neg hend]
  | @single d rest hhigh hlow _ ih =>
      rw [List.length_cons] at hcol hfuel hlast
      obtain ⟨fuel, rfl⟩ := Nat.exists_eq_succ_of_ne_zero (show fuel ≠ 0 by omega)
      have hg := glyphAt_single hdrop hhigh hlow
      have hone : [d].length = 1 := rfl
      have hrest : units.drop (j + 1) = rest ++ more := by
        rw [← List.drop_drop, hdrop]
        rfl
      refine scanColors_step hstyles hg (by omega) (hcol j (Nat.le_refl j) (by omega)) hc
        fun c' hc' => ih hrest (fun k hk hk' => ?_) hc' (by omega) ?_
      · exact hcol k (by omega) (by omega)
      · push_cast
        omega
  | @pair d e rest hhigh hlow _ ih =>
      rw [List.length_cons, List.length_cons] at hcol hfuel hlast
      obtain ⟨fuel, rfl⟩ := Nat.exists_eq_succ_of_ne_zero (show fuel ≠ 0 by omega)
      have hg := glyphAt_pair hdrop hhigh hlow
      have htwo : [d, e].length = 2 := rfl
      have hrest : units.drop (j + 2) = rest ++ more := by
        rw [← List.drop_drop, hdrop]
        rfl
      refine scanColors_step hstyles hg (by omega) (hcol j (Nat.le_refl j) (by omega)) hc
        fun c' hc' => ih hrest (fun k hk hk' => ?_) hc' (by omega) ?_
      · exact hcol k (by omega) (by omega)
      · push_cast
        omega

/-! ## §4  A row -/

/-- What the row gives: the text up to some unit behind the last printing one, in whole
code points, and their styles. -/
structure Taken (color : Option StyleRow) (defaultColor : Style) (text : List JChar)
    (r : RowText) (n : Nat) : Prop where
  body : r.text = text.take n
  printing : ∀ k, Prints color defaultColor text k → k < n
  wellFormed : WellFormed (text.take n)
  styled : Styled color defaultColor (text.take n) 0 0 r.colors

/-- The loops come to every printing unit of a text of which `kept` units are read, and
find whole code points whose marks look like the columns behind their bases. -/
structure Reached (color : Option StyleRow) (defaultColor : Style) (width : Int)
    (text : List JChar) (kept : Nat) : Prop where
  reached : ∀ k, Prints color defaultColor text k →
    k < kept ∧ (∀ j ≤ k, text[j]? ≠ some 0) ∧ columnOf text k < width
  whole : ∃ n, (∀ k, Prints color defaultColor text k → k < n) ∧ WellFormed (text.take n) ∧
    MarksAgree color defaultColor (text.take n) 0 0

theorem passed_zero : Passed color defaultColor width units 0 (-1) := by
  refine ⟨Nat.zero_le _, fun k hk => absurd hk (Nat.not_lt_zero k), ?_⟩
  exact ⟨Int.le_refl _, by decide, fun h => absurd h (by decide),
    fun k hk => absurd hk (Nat.not_lt_zero k)⟩

/-- The number of units that a row gives, where the first loop stopped at `stop`. -/
def takenUnits (wrapped : Bool) (stop : Nat) (last : Int) : Nat :=
  if wrapped ∧ last > -1 then stop else (last + 1).toNat

theorem lineText_eq (wrapped : Bool) {stop : Nat} {last : Int}
    (hscan : scanLine width color defaultColor units units.length 0 0 (-1) = .ok (stop, last))
    (hlast : -1 ≤ last) :
    lineText width color defaultColor wrapped units =
      (scanColors color defaultColor units ((takenUnits wrapped stop last : Int) - 1)
        units.length 0 0).map (RowText.mk (units.take (takenUnits wrapped stop last))) := by
  have hunits : (if wrapped ∧ last > -1 then (stop : Int) - 1 else last) =
      (takenUnits wrapped stop last : Int) - 1 := by
    unfold takenUnits
    split_ifs <;> omega
  unfold lineText
  simp only [hscan, bind, Except.bind, hunits]
  rw [show ((takenUnits wrapped stop last : Int) - 1 + 1).toNat = takenUnits wrapped stop last by
    omega]
  cases scanColors color defaultColor units ((takenUnits wrapped stop last : Int) - 1)
    units.length 0 0 with
  | error e => rfl
  | ok colors => rfl

theorem Passed.takenUnits_le {stop : Nat} {last : Int}
    (h : Passed color defaultColor width units stop last) (wrapped : Bool) :
    takenUnits wrapped stop last ≤ stop ∧ last < takenUnits wrapped stop last := by
  have hlower := h.last.lower
  have hupper := h.last.upper
  unfold takenUnits
  split_ifs <;> omega

/-- A text as the loops see it: what is read of it, and a NUL or the end behind that. -/
structure Seen (text units : List JChar) (kept : Nat) : Prop where
  same : ∀ j < kept, units[j]? = text[j]?
  inText : kept ≤ text.length
  inLine : kept ≤ units.length
  ends : kept = units.length ∨ units[kept]? = some 0

theorem Passed.le_kept {stop kept : Nat} {last : Int}
    (h : Passed color defaultColor width units stop last) (hseen : Seen text units kept) :
    stop ≤ kept := by
  by_contra hlt
  rcases hseen.ends with hend | hzero
  · have := h.upto
    omega
  · exact (h.reached kept (by omega)).1 hzero

theorem Seen.prints_iff {kept k : Nat} (h : Seen text units kept) (hk : k < kept) :
    Prints color defaultColor text k ↔ Prints color defaultColor units k :=
  ⟨fun hp => hp.congr fun j hj => (h.same j (by omega)).symm,
    fun hp => hp.congr fun j hj => h.same j (by omega)⟩

omit [Platform] in
theorem Seen.take {kept n : Nat} (h : Seen text units kept) (hn : n ≤ kept) :
    units.take n = text.take n := by
  apply List.ext_getElem?
  intro j
  rw [List.getElem?_take, List.getElem?_take]
  split_ifs with hj
  · exact h.same j (by omega)
  · rfl

/-- The loop comes to a printing unit in front of the right edge. -/
theorem StopsAt.reaches {stop k : Nat} (hstops : StopsAt width units stop)
    (hk : k < units.length) (hzero : ∀ j ≤ k, units[j]? ≠ some 0) (hcol : columnOf units k < width) :
    k < stop := by
  by_contra hle
  rcases hstops with hend | hnul | hwide
  · omega
  · exact hzero stop (by omega) hnul
  · have hmono : columnOf units stop ≤ columnOf units k := columnOf_mono units (by omega)
    omega

theorem MarksAgree.left {xs ys : List JChar} (hxs : WellFormed xs) {column base : Int}
    (h : MarksAgree color defaultColor (xs ++ ys) column base) :
    MarksAgree color defaultColor xs column base := by
  induction hxs generalizing column base with
  | nil => exact .nil
  | @single c rest hhigh _ _ ih =>
      obtain ⟨hmark, hrest⟩ := (marksAgree_glyph_iff (.single hhigh)).mp h
      exact .glyph (.single hhigh) hmark (ih hrest)
  | @pair c d rest hhigh _ _ ih =>
      obtain ⟨hmark, hrest⟩ := (marksAgree_glyph_iff (.pair hhigh)).mp h
      exact .glyph (.pair hhigh) hmark (ih hrest)

theorem MarksAgree.append_blanks {xs ys : List JChar} (hxs : WellFormed xs) {column base : Int}
    (h : MarksAgree color defaultColor xs column base) (hys : ∀ c ∈ ys, c = 32) :
    MarksAgree color defaultColor (xs ++ ys) column base := by
  induction hxs generalizing column base with
  | nil =>
      induction ys generalizing column base with
      | nil => exact .nil
      | cons c ys ih =>
          obtain rfl := hys c List.mem_cons_self
          have hg : IsGlyph [(32 : JChar)] 1 := by
            have hwidth : charWidth ((32 : JChar).toNat : Int) = 1 := charWidth_ascii (by decide)
            rw [← hwidth]
            exact .single (by decide)
          refine (marksAgree_glyph_iff hg).mpr ⟨fun hw => absurd hw (by decide), ?_⟩
          exact ih (fun d hd => hys d (List.mem_cons_of_mem _ hd)) .nil
  | @single c rest hhigh _ _ ih =>
      obtain ⟨hmark, hrest⟩ := (marksAgree_glyph_iff (.single hhigh)).mp h
      exact (marksAgree_glyph_iff (.single hhigh)).mpr ⟨hmark, ih hrest⟩
  | @pair c d rest hhigh _ _ ih =>
      obtain ⟨hmark, hrest⟩ := (marksAgree_glyph_iff (.pair hhigh)).mp h
      exact (marksAgree_glyph_iff (.pair hhigh)).mpr ⟨hmark, ih hrest⟩

/-- Behind the last printing unit there are blanks. -/
theorem blank_of_not_prints {n : Nat} (h : ∀ k, Prints color defaultColor text k → k < n)
    {k : Nat} (hk : n ≤ k) {c : JChar} (hc : text[k]? = some c) : IsBlank c := by
  by_contra hnot
  have := h k (prints_of_not_blank hc hnot)
  omega

omit [Platform] in
/-- The part of a text between the last printing unit and another place. -/
theorem take_split (text : List JChar) {m n : Nat} (h : m ≤ n) :
    text.take n = text.take m ++ (text.take n).drop m := by
  have hsplit := List.take_append_drop m (text.take n)
  rw [List.take_take, Nat.min_eq_left h] at hsplit
  exact hsplit.symm

omit [Platform] in
theorem mem_take_drop {m n : Nat} {c : JChar} (h : c ∈ (text.take n).drop m) :
    ∃ k, m ≤ k ∧ k < n ∧ text[k]? = some c := by
  obtain ⟨i, hi⟩ := List.mem_iff_getElem?.mp h
  rw [List.getElem?_drop, List.getElem?_take] at hi
  split_ifs at hi with hlt
  exact ⟨m + i, by omega, hlt, hi⟩

/-- It does not matter where behind the last printing unit, up to a NUL, a text is cut. -/
theorem whole_at {m n : Nat} (hm : ∀ k, Prints color defaultColor text k → k < m)
    (hn : ∀ k, Prints color defaultColor text k → k < n)
    (hwhole : WellFormed (text.take m)) (hmarks : MarksAgree color defaultColor (text.take m) 0 0)
    (hzero : ∀ k < n, text[k]? ≠ some 0) :
    WellFormed (text.take n) ∧ MarksAgree color defaultColor (text.take n) 0 0 := by
  rcases Nat.le_total n m with hle | hle
  · rw [take_split text hle] at hwhole hmarks
    have hshort : WellFormed (text.take n) := by
      refine hwhole.of_append_blanks fun c hc => ?_
      obtain ⟨k, hk, _, hget⟩ := mem_take_drop hc
      exact blank_of_not_prints hn hk hget
    exact ⟨hshort, hmarks.left hshort⟩
  · have hblank : ∀ c ∈ (text.take n).drop m, IsBlank c := by
      intro c hc
      obtain ⟨k, hk, _, hget⟩ := mem_take_drop hc
      exact blank_of_not_prints hm hk hget
    rw [take_split text hle]
    refine ⟨hwhole.append (wellFormed_blanks hblank), hmarks.append_blanks hwhole ?_⟩
    intro c hc
    rcases hblank c hc with rfl | rfl
    · rfl
    · obtain ⟨k, _, hk, hget⟩ := mem_take_drop hc
      exact absurd hget (hzero k hk)

/-- The styles of what is taken, if that is whole. -/
theorem scanColors_taken (hstyles : StylesTo color defaultColor width) {stop n : Nat} {last : Int}
    (hpassed : Passed color defaultColor width units stop last) (hn : n ≤ stop)
    (hwhole : WellFormed (units.take n)) :
    ∃ styles, scanColors color defaultColor units ((n : Int) - 1) units.length 0 0 = .ok styles ∧
      (Styled color defaultColor (units.take n) 0 0 styles ↔
        MarksAgree color defaultColor (units.take n) 0 0) := by
  have hupto := hpassed.upto
  have hlen : (units.take n).length = n := by
    rw [List.length_take]
    omega
  have hdrop : units.drop 0 = units.take n ++ units.drop n := (List.take_append_drop n units).symm
  have hfuel : (units.take n).length ≤ units.length := by omega
  have hlast : (n : Int) - 1 = (0 : Nat) + (units.take n).length - 1 := by
    rw [hlen]
    omega
  obtain ⟨styles, hscan, hiff⟩ := scanColors_iff hstyles hwhole hdrop
    (fun k _ hk => (hpassed.reached k (by omega)).2) (.inl rfl) hfuel hlast
  exact ⟨styles, hscan, hiff 0⟩

/-- No pair is cut by the end of the array. -/
theorem Seen.high_next {kept m : Nat} (hseen : Seen text units kept)
    (hreached : Reached color defaultColor width text kept)
    (hm : ∀ k, Prints color defaultColor text k → k < m) (hwhole : WellFormed (text.take m))
    (k : Nat) (c : JChar) (hc : units[k]? = some c) (hzero : ∀ j ≤ k, units[j]? ≠ some 0)
    (hhigh : isHighSurrogate c = true) : k + 1 < units.length := by
  have hinLine := hseen.inLine
  have hk : k < kept := by
    by_contra hle
    obtain ⟨hlt, _⟩ := List.getElem?_eq_some_iff.mp hc
    rcases hseen.ends with hend | hnul
    · omega
    · exact hzero kept (by omega) hnul
  rw [hseen.same k hk] at hc
  have hprints : Prints color defaultColor text k := by
    refine prints_of_not_blank hc fun hblank => ?_
    rw [hblank.not_high] at hhigh
    cases hhigh
  have hc' : (text.take m)[k]? = some c := by
    rw [List.getElem?_take, if_pos (hm k hprints)]
    exact hc
  obtain ⟨d, hd, hlow⟩ := hwhole.high_next hc' hhigh
  rw [List.getElem?_take] at hd
  split_ifs at hd
  have hprints' : Prints color defaultColor text (k + 1) := by
    refine prints_of_not_blank hd fun hblank => ?_
    rw [hblank.not_low] at hlow
    cases hlow
  have := (hreached.reached (k + 1) hprints').1
  omega

/-- **A row is taken** as it should be if and only if the loops reach all that prints. -/
theorem taken_iff (hstyles : StylesTo color defaultColor width) {kept : Nat}
    (hseen : Seen text units kept) (wrapped : Bool) :
    (∃ r n, lineText width color defaultColor wrapped units = .ok r ∧
      Taken color defaultColor text r n) ↔ Reached color defaultColor width text kept := by
  have hinText := hseen.inText
  have hinLine := hseen.inLine
  constructor
  · rintro ⟨r, n, hline, htaken⟩
    obtain ⟨⟨i, last⟩, hscan, _⟩ := bind_ok_iff.mp hline
    obtain ⟨stop, rfl, hstops, hpassed⟩ := scanLine_ok (n := 0) hscan passed_zero (by omega)
    rw [lineText_eq wrapped hscan hpassed.last.lower] at hline
    obtain ⟨hle, hlast⟩ := hpassed.takenUnits_le wrapped
    have hkept := hpassed.le_kept hseen
    generalize takenUnits wrapped stop last = m at hline hle hlast
    have hsame : units.take m = text.take m := hseen.take (by omega)
    cases hcolors : scanColors color defaultColor units ((m : Int) - 1) units.length 0 0 with
    | error e =>
        rw [hcolors] at hline
        cases hline
    | ok colors =>
        rw [hcolors] at hline
        cases hline
        have hbody : text.take m = text.take n := hsame.symm.trans htaken.body
        have hbound : ∀ k, Prints color defaultColor text k → k < m := by
          intro k hk
          have hkn := htaken.printing k hk
          obtain ⟨c, hc, _⟩ := hk
          obtain ⟨hlt, _⟩ := List.getElem?_eq_some_iff.mp hc
          have hlength := congrArg List.length hbody
          rw [List.length_take, List.length_take] at hlength
          omega
        have hwhole := htaken.wellFormed
        have hstyled := htaken.styled
        rw [← hbody] at hwhole hstyled
        refine ⟨fun k hk => ?_, m, hbound, hwhole, ?_⟩
        · have hkm := hbound k hk
          refine ⟨by omega, fun j hj => ?_, ?_⟩
          · rw [← hseen.same j (by omega)]
            exact (hpassed.reached j (by omega)).1
          · have hcol : columnOf text k = columnOf units k :=
              columnOf_congr fun j hj => (hseen.same j (by omega)).symm
            rw [hcol]
            exact (hpassed.reached k (by omega)).2
        · rw [← hsame] at hwhole hstyled ⊢
          obtain ⟨styles, hscan', hiff⟩ := scanColors_taken hstyles hpassed hle hwhole
          rw [hcolors] at hscan'
          cases hscan'
          exact hiff.mp hstyled
  · intro hreached
    obtain ⟨m, hm, hwhole, hmarks⟩ := hreached.whole
    have hhigh := hseen.high_next hreached hm hwhole
    have hstart : ∃ r, scanLine width color defaultColor units units.length 0 0 (-1) = .ok r :=
      scanLine_returns (n := 0) hstyles hhigh passed_zero
    obtain ⟨⟨i, last⟩, hscan⟩ := hstart
    obtain ⟨stop, rfl, hstops, hpassed⟩ := scanLine_ok (n := 0) hscan passed_zero (by omega)
    have hline := lineText_eq wrapped hscan hpassed.last.lower
    obtain ⟨hle, hlast⟩ := hpassed.takenUnits_le wrapped
    have hkept := hpassed.le_kept hseen
    generalize takenUnits wrapped stop last = n at hline hle hlast
    have hsame : units.take n = text.take n := hseen.take (by omega)
    have hbound : ∀ k, Prints color defaultColor text k → k < n := by
      intro k hk
      obtain ⟨hlt, hzero, hcol⟩ := hreached.reached k hk
      have hcol' : columnOf units k = columnOf text k :=
        columnOf_congr fun j hj => hseen.same j (by omega)
      have hstop : k < stop := by
        refine hstops.reaches (by omega) (fun j hj => ?_) (by omega)
        rw [hseen.same j (by omega)]
        exact hzero j hj
      have hleast := hpassed.last.least k hstop ((hseen.prints_iff hlt).mp hk)
      omega
    have hzero : ∀ k < n, text[k]? ≠ some 0 := by
      intro k hk
      rw [← hseen.same k (by omega)]
      exact (hpassed.reached k (by omega)).1
    obtain ⟨hwhole', hmarks'⟩ := whole_at hm hbound hwhole hmarks hzero
    rw [← hsame] at hwhole' hmarks'
    obtain ⟨styles, hcolors, hiff⟩ := scanColors_taken hstyles hpassed hle hwhole'
    rw [hcolors] at hline
    refine ⟨⟨units.take n, styles⟩, n, hline, hsame, hbound, ?_, ?_⟩
    · rw [← hsame]
      exact hwhole'
    · rw [← hsame]
      exact hiff.mpr hmarks'

end TranscriptScreen

end Kbox.Emulatorview
