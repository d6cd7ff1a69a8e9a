import Kbox.Emulatorview.CanvasEdits

/-!
# Drawing with strokes

Every method of the transcript and of the screen that writes is a sequence of strokes, cut
short where it throws; so the canvas behind it is the edited canvas in front of it.
-/

namespace Kbox.Emulatorview

open Kbox.Framework

namespace UnicodeTranscript

variable [Platform]

/-! ## §1  Sequences of strokes -/

/-- The transcript behind some strokes. -/
def draw (strokes : List Stroke) (s : UnicodeTranscript) : UnicodeTranscript :=
  strokes.foldl (fun s stroke => after stroke.run s) s

/-- The canvas behind them. -/
def paintAll : List Stroke → UnicodeTranscript → Canvas → Canvas
  | [], _, g => g
  | stroke :: strokes, s, g => paintAll strokes (after stroke.run s) (stroke.paint s g)

/-- Every stroke uses inks of `inks` when its turn comes. -/
def TakesAll (inks : Ink → Prop) : List Stroke → UnicodeTranscript → Prop
  | [], _ => True
  | stroke :: strokes, s => stroke.Takes inks s ∧ TakesAll inks strokes (after stroke.run s)

variable {inks : Ink → Prop} {s t : UnicodeTranscript} {g : Canvas} {strokes : List Stroke}

theorem draw_concat (stroke : Stroke) :
    draw (strokes ++ [stroke]) s = after stroke.run (draw strokes s) :=
  List.foldl_concat _ _ _ _

theorem paintAll_concat (stroke : Stroke) :
    paintAll (strokes ++ [stroke]) s g = stroke.paint (draw strokes s) (paintAll strokes s g) := by
  induction strokes generalizing s g with
  | nil => rfl
  | cons first strokes ih => exact ih

theorem takesAll_concat {stroke : Stroke} (h : TakesAll inks strokes s)
    (hstroke : stroke.Takes inks (draw strokes s)) : TakesAll inks (strokes ++ [stroke]) s := by
  induction strokes generalizing s with
  | nil => exact ⟨hstroke, trivial⟩
  | cons first strokes ih => exact ⟨h.1, ih h.2 hstroke⟩

/-- `t` is `s` behind some strokes in the given inks, and shows the canvas that they leave. -/
def Sketched (inks : Ink → Prop) (s : UnicodeTranscript) (g : Canvas) (t : UnicodeTranscript) :
    Prop :=
  ∃ strokes, TakesAll inks strokes s ∧ draw strokes s = t ∧ Shows (paintAll strokes s g) t

theorem Sketched.refl (h : Shows g s) : Sketched inks s g s := ⟨[], trivial, rfl, h⟩

theorem Sketched.stroke (h : Sketched inks s g t) {stroke : Stroke}
    (htakes : stroke.Takes inks t) : Sketched inks s g (after stroke.run t) := by
  obtain ⟨strokes, hall, rfl, hshows⟩ := h
  refine ⟨strokes ++ [stroke], takesAll_concat hall htakes, draw_concat stroke, ?_⟩
  rw [paintAll_concat]
  exact hshows.paint htakes

/-! ## §2  The inks of a canvas -/

section Within

variable {P : Ink → Prop}

omit [Platform] in
theorem mem_splice_stretch {α : Type} {xs ys : List α} {p q n : Nat} {a : α}
    (h : a ∈ splice xs p (stretch ys q n)) : a ∈ xs ∨ a ∈ ys := by
  unfold splice stretch at h
  rcases List.mem_append.mp h with h | h
  · rcases List.mem_append.mp h with h | h
    · exact Or.inl (List.mem_of_mem_take h)
    · exact Or.inr (List.mem_of_mem_drop (List.mem_of_mem_take h))
  · exact Or.inl (List.mem_of_mem_drop h)

omit [Platform] in
/-- No row comes out of a scroll that did not go in. -/
theorem mem_scrollRows {α : Type} {top bottom : Int} {fresh : α} {rows rows' : List α}
    (h : s.scrollRows top bottom fresh rows = .ok rows') {a : α} (ha : a ∈ rows') :
    a ∈ rows ∨ a = fresh := by
  unfold scrollRows at h
  simp only [] at h
  split at h
  · exact (mem_of_arraySet h ha).symm
  · obtain ⟨scrolled, hscrolled, h⟩ := bind_ok_iff.mp h
    obtain ⟨rows₁, h₁, h⟩ := bind_ok_iff.mp h
    obtain ⟨rows₂, h₂, h⟩ := bind_ok_iff.mp h
    obtain ⟨rows₃, h₃, h⟩ := bind_ok_iff.mp h
    rcases mem_of_arraySet h ha with rfl | ha
    · exact Or.inr rfl
    · rcases mem_of_arraySet h₃ ha with rfl | ha
      · exact Or.inl (mem_of_arrayGet hscrolled)
      · exact Or.inl ((copyRows_spec h₁).2 a ((copyRows_spec h₂).2 a ha))

omit [Platform] in
theorem mem_clearedRows {n : Nat} {rows : List (List Ink)} {a : List Ink}
    (h : a ∈ s.clearedRows n rows) : a ∈ rows ∨ a = List.replicate s.mColumns Ink.unset := by
  unfold clearedRows at h
  induction n with
  | zero => exact Or.inl h
  | succ n ih =>
      rw [List.range_succ, List.foldl_concat] at h
      rcases List.mem_or_eq_of_mem_set h with h | h
      · exact ih h
      · exact Or.inr h

/-- The inks of a stroke, and what a row without styles reads as, are all that comes in. -/
theorem Canvas.Within.paint (h : g.Within P) (hunset : P Ink.unset) {stroke : Stroke}
    (htakes : stroke.Takes P s) : (stroke.paint s g).Within P := by
  have hreplicate {n : Nat} {k k' : Ink} (hk : P k) (hmem : k' ∈ List.replicate n k) : P k' := by
    rw [(List.mem_replicate.mp hmem).2]
    exact hk
  unfold Stroke.paint
  cases stroke.run s with
  | error e t => exact h
  | ok a t =>
      cases stroke with
      | set column row codePoint ink =>
          refine h.modifyRow fun a ha k hk => ?_
          rcases List.mem_or_eq_of_mem_set hk with hk | rfl
          · exact h.rows a ha k hk
          · exact htakes
      | clear column row =>
          refine h.modifyRow fun a ha k hk => ?_
          rcases List.mem_or_eq_of_mem_set hk with hk | rfl
          · exact h.rows a ha k hk
          · exact h.base
      | copyRow sx sy w dx dy y =>
          refine h.modifyRow fun a ha k hk => ?_
          rcases mem_splice_stretch hk with hk | hk
          · exact h.rows a ha k hk
          · exact h.row hk
      | scroll top bottom ink =>
          refine ⟨h.base, fun a ha => ?_⟩
          have ha' : a ∈ (s.scrollRows top bottom (List.replicate s.mColumns ink)
            g.rows).toOption.getD g.rows := ha
          cases hscroll : s.scrollRows top bottom (List.replicate s.mColumns ink) g.rows with
          | error e =>
              rw [hscroll] at ha'
              exact h.rows a ha'
          | ok rows =>
              rw [hscroll] at ha'
              rcases mem_scrollRows hscroll ha' with ha | rfl
              · exact h.rows a ha
              · exact fun k hk => hreplicate htakes hk
      | resize columns rows cursorRow =>
          show (ite _ _ _ : Canvas).Within P
          split_ifs
          · refine ⟨h.base, fun a ha => ?_⟩
            rcases mem_clearedRows ha with ha | rfl
            · exact h.rows a ha
            · exact fun k hk => hreplicate hunset hk
          · exact h
      | create columns totalRows screenRows ink =>
          refine ⟨htakes, fun a ha k hk => ?_⟩
          rw [(List.mem_replicate.mp ha).2] at hk
          exact hreplicate hunset hk
      | _ => exact h

theorem Canvas.Within.paintAll {strokes : List Stroke} (h : g.Within P) (hunset : P Ink.unset)
    (htakes : TakesAll P strokes s) : (UnicodeTranscript.paintAll strokes s g).Within P := by
  induction strokes generalizing s g with
  | nil => exact h
  | cons stroke strokes ih => exact ih (h.paint hunset htakes.1) htakes.2

theorem TakesAll.mono {inks : Ink → Prop} (himp : ∀ k, inks k → P k) {strokes : List Stroke}
    (h : TakesAll inks strokes s) : TakesAll P strokes s := by
  induction strokes generalizing s with
  | nil => trivial
  | cons stroke strokes ih =>
      refine ⟨?_, ih h.2⟩
      have hfirst := h.1
      cases stroke with
      | set column row codePoint ink => exact himp _ hfirst
      | scroll top bottom ink => exact himp _ hfirst
      | create columns totalRows screenRows ink => exact himp _ hfirst
      | copyRow sx sy w dx dy y => exact hfirst
      | _ => trivial

/-- The canvas behind some strokes, for a reader. -/
theorem Sketched.within (h : Sketched P s g t) (hunset : P Ink.unset) (hwithin : g.Within P) :
    ∃ g', Shows g' t ∧ g'.Within P := by
  obtain ⟨strokes, htakes, _, hshows⟩ := h
  exact ⟨_, hshows, hwithin.paintAll hunset htakes⟩

end Within

/-! ## §3  The methods of the transcript -/

theorem wp_stroke (h : Sketched inks s g t) {stroke : Stroke} (htakes : stroke.Takes inks t) :
    wp stroke.run (fun _ => Sketched inks s g) (fun _ => Sketched inks s g) t := by
  have hafter := h.stroke htakes
  unfold Framework.after at hafter
  cases hcase : stroke.run t with
  | ok a u =>
      rw [hcase] at hafter
      exact (wp_of_ok hcase).mpr hafter
  | error e u =>
      rw [hcase] at hafter
      exact (wp_of_error hcase).mpr hafter

/-- A stroke that takes anything. -/
theorem sketched_stroke (stroke : Stroke) (htakes : ∀ t, stroke.Takes inks t) :
    Keeps (Sketched inks s g) stroke.run := fun t h => wp_stroke h (htakes t)

omit [Platform] in
theorem keeps_of_discard {α : Type} {I : UnicodeTranscript → Prop} {x : TranscriptM α}
    (h : Keeps I (do let _ ← x)) : Keeps I x := by
  intro t ht
  have hx := h t ht
  rw [wp_bind] at hx
  exact wp_mono hx (fun _ _ hu => (wp_pure _ _ _ _).mp hu) fun _ _ hu => hu

theorem sketched_getLine (row x1 x2 : Int) : Keeps (Sketched inks s g) (getLine row x1 x2) :=
  keeps_of_discard (sketched_stroke (.getLine row x1 x2) fun _ => trivial)

theorem sketched_getLineColor (row x1 x2 : Int) :
    Keeps (Sketched inks s g) (getLineColor row x1 x2) :=
  keeps_of_discard (sketched_stroke (.getLineColor row x1 x2) fun _ => trivial)

theorem sketched_resize (columns rows cursorRow : Int) :
    Keeps (Sketched inks s g) (resize columns rows cursorRow) :=
  keeps_of_discard (sketched_stroke (.resize columns rows cursorRow) fun _ => trivial)

/-- Blanks are written in the default style as long as it is the default style. -/
theorem sketched_clear (column row : Int) (style : Style) :
    Keeps (fun t => Sketched inks s g t ∧ t.mDefaultStyle = style)
      (setCharStyle column row 32 style) := by
  rintro t ⟨ht, rfl⟩
  have hsketched : wp (get >>= fun u => setCharStyle column row 32 u.mDefaultStyle)
      (fun _ => Sketched inks s g) (fun _ => Sketched inks s g) t :=
    @wp_stroke _ _ _ _ _ ht (.clear column row) trivial
  rw [wp_bind, wp_get] at hsketched
  obtain ⟨_, _, _, hshows⟩ := ht
  have hbase : wp (setCharStyle column row 32 t.mDefaultStyle)
      (fun _ u => u.mDefaultStyle = t.mDefaultStyle)
      (fun _ u => u.mDefaultStyle = t.mDefaultStyle) t := by
    rw [hshows.base]
    exact wp_mono (setCharStyle_shows hshows column row 32 _) (fun _ _ hu => hu.base)
      fun _ _ hu => hu.base
  exact wp_and hsketched hbase

theorem sketched_blockSet (sx sy w h val : Int) {k : Ink} (hk : inks k) :
    Keeps (Sketched inks s g) (blockSet sx sy w h val k.word) :=
  keeps_get_bind fun _ => keeps_throwIf.then (keeps_repeatFor fun _ => keeps_repeatFor fun _ =>
    sketched_stroke (.set _ _ _ k) fun _ => hk)

omit [Platform] in
/-- A row without text is read as nothing. -/
theorem getLine_of_blank {row : Int} (h : ¬ s.HasText row) (x1 x2 : Int) :
    wp (getLine row x1 x2) (fun text t => text = none ∧ t = s) (fun _ t => t = s) s := by
  unfold getLine
  rw [wp_bind, wp_get, wp_bind, wp_throwIf]
  refine ⟨fun _ => rfl, fun _ => ?_⟩
  rw [wp_bind]
  refine wp_internalRow ?_ fun _ => rfl
  unfold lineAt
  rw [wp_bind, wp_bind, wp_get, wp_checked]
  refine ⟨fun line hline => ?_, fun _ _ => rfl⟩
  cases line with
  | none => exact (wp_pure _ _ _ _).mpr ⟨rfl, rfl⟩
  | some line => exact absurd ⟨line, hline⟩ h

theorem sketched_copyRow (sx sy w dx dy y : Int) :
    Keeps (Sketched inks s g) (copyRow sx sy w dx dy y) := by
  intro t ht
  by_cases htext : t.HasText (sy + y)
  · exact @wp_stroke _ _ _ _ _ ht (.copyRow sx sy w dx dy y) htext
  have hclear : wp (blockSet dx (dy + y) w 1 32 t.mDefaultStyle)
      (fun _ => Sketched inks s g) (fun _ => Sketched inks s g) t := by
    have hkeeps : Keeps (fun u => Sketched inks s g u ∧ u.mDefaultStyle = t.mDefaultStyle)
        (blockSet dx (dy + y) w 1 32 t.mDefaultStyle) :=
      keeps_get_bind fun _ => keeps_throwIf.then (keeps_repeatFor fun _ => keeps_repeatFor fun _ =>
        sketched_clear _ _ _)
    exact wp_mono (hkeeps t ⟨ht, rfl⟩) (fun _ _ hu => hu.1) fun _ _ hu => hu.1
  unfold copyRow
  rw [wp_bind]
  refine wp_internalRow ?_ fun _ => ht
  rw [wp_bind]
  refine wp_internalRow ?_ fun _ => ht
  unfold lineAt
  rw [wp_bind, wp_bind, wp_get, wp_checked]
  refine ⟨fun line hline => ?_, fun _ _ => ht⟩
  rw [wp_bind, wp_bind, wp_get, wp_checked]
  refine ⟨fun dst _ => ?_, fun _ _ => ht⟩
  rcases line with _ | line
  · show wp (getLine (sy + y) sx (sx + w) >>= _) _ _ t
    rw [wp_bind]
    refine wp_mono (getLine_of_blank htext _ _) ?_ ?_
    · rintro _ u ⟨rfl, rfl⟩
      show wp (get >>= fun s => blockSet dx (dy + y) w 1 32 s.mDefaultStyle) _ _ u
      rw [wp_bind, wp_get]
      exact hclear
    · rintro _ _ rfl
      exact ht
  · exact absurd ⟨line, hline⟩ htext

theorem sketched_blockCopy (sx sy w h dx dy : Int) :
    Keeps (Sketched inks s g) (blockCopy sx sy w h dx dy) := by
  refine keeps_get_bind fun _ => keeps_throwIf.then (keeps_ite (fun _ => ?_) fun _ => ?_)
  · exact keeps_repeatFor fun _ => sketched_copyRow _ _ _ _ _ _
  · exact keeps_repeatFor fun _ => sketched_copyRow _ _ _ _ _ _

end UnicodeTranscript

/-! ## §4  The methods of the screen -/

namespace TranscriptScreen

open UnicodeTranscript (Canvas Sketched Stroke)

variable [Platform] {inks : Ink → Prop} {s : UnicodeTranscript} {g : Canvas}

/-- The transcript of a screen. -/
abbrev Sketched (inks : Ink → Prop) (s : UnicodeTranscript) (g : Canvas)
    (screen : TranscriptScreen) : Prop := UnicodeTranscript.Sketched inks s g screen.mData

theorem sketched_onData {α : Type} {x : TranscriptM α}
    (hx : Keeps (UnicodeTranscript.Sketched inks s g) x) :
    Keeps (TranscriptScreen.Sketched inks s g) (onData x) :=
  keeps_onField hx (fun _ h => h) fun _ _ _ h => h

theorem sketched_set (x y codePoint : Int) {k : Ink} (hk : inks k) :
    Keeps (TranscriptScreen.Sketched inks s g) (TranscriptScreen.set x y codePoint k.word) :=
  sketched_onData (UnicodeTranscript.sketched_stroke (.set x y codePoint k) fun _ => hk)

theorem sketched_scroll (top bottom : Int) {k : Ink} (hk : inks k) :
    Keeps (TranscriptScreen.Sketched inks s g) (TranscriptScreen.scroll top bottom k.word) :=
  sketched_onData (UnicodeTranscript.sketched_stroke (.scroll top bottom k) fun _ => hk)

theorem sketched_setLineWrap (row : Int) :
    Keeps (TranscriptScreen.Sketched inks s g) (TranscriptScreen.setLineWrap row) :=
  sketched_onData (UnicodeTranscript.sketched_stroke (.setLineWrap row) fun _ => trivial)

theorem sketched_blockSet (sx sy w h val : Int) {k : Ink} (hk : inks k) :
    Keeps (TranscriptScreen.Sketched inks s g) (TranscriptScreen.blockSet sx sy w h val k.word) :=
  sketched_onData (UnicodeTranscript.sketched_blockSet sx sy w h val hk)

theorem sketched_blockCopy (sx sy w h dx dy : Int) :
    Keeps (TranscriptScreen.Sketched inks s g) (TranscriptScreen.blockCopy sx sy w h dx dy) :=
  sketched_onData (UnicodeTranscript.sketched_blockCopy sx sy w h dx dy)

theorem sketched_fastResize (columns rows cursorRow : Int) :
    Keeps (TranscriptScreen.Sketched inks s g) (fastResize columns rows cursorRow) := by
  refine Keeps.bind (sketched_onData (UnicodeTranscript.sketched_resize _ _ _)) ?_
  rintro ⟨done, row⟩
  cases done with
  | false => exact (keeps_pure _).then (keeps_pure _)
  | true => exact Keeps.then (keeps_modify fun _ h => h) (keeps_pure _)

/-- A new transcript takes the place of the old one. -/
theorem sketched_init (columns totalRows screenRows : Nat) {k : Ink} (hk : inks k) :
    Keeps (TranscriptScreen.Sketched inks s g) (init columns totalRows screenRows k.word) := by
  intro screen h
  have hnew : UnicodeTranscript.Sketched inks s g
      (UnicodeTranscript.create columns totalRows screenRows k.word) :=
    @UnicodeTranscript.Sketched.stroke _ _ _ _ _ h (.create columns totalRows screenRows k) hk
  unfold init
  rw [wp_bind, wp_set]
  exact sketched_blockSet _ _ _ _ _ hk _ hnew

theorem sketched_resize (columns rows : Nat) {k : Ink} (hk : inks k) :
    Keeps (TranscriptScreen.Sketched inks s g) (TranscriptScreen.resize columns rows k.word) :=
  keeps_get_bind fun _ => sketched_init _ _ _ hk

theorem sketched_rowText (withColors : Bool) (selX1 selY1 selX2 selY2 row : Int) :
    Keeps (TranscriptScreen.Sketched inks s g)
      (rowText withColors selX1 selY1 selX2 selY2 row) := by
  refine keeps_get_bind fun _ => ?_
  refine (sketched_onData (UnicodeTranscript.sketched_getLine _ _ _)).bind fun line => ?_
  refine Keeps.bind (keeps_ite (fun _ => ?_) fun _ => keeps_pure _) fun color => ?_
  · exact sketched_onData (UnicodeTranscript.sketched_getLineColor _ _ _)
  refine Keeps.bind (sketched_onData ?_) fun wrapped => ?_
  · refine Keeps.bind ?_ fun r => keeps_get_bind fun _ => keeps_checked _
    exact keeps_get_bind fun _ => keeps_throwIf.then (keeps_ite (fun _ => keeps_pure _) fun _ =>
      keeps_ite (fun _ => keeps_pure _) fun _ => keeps_pure _)
  rcases line with _ | line
  · exact keeps_pure _
  · exact (keeps_checked _).bind fun _ => keeps_pure _

theorem sketched_rowTexts (withColors : Bool) (selX1 selY1 selX2 selY2 : Int) (n : Nat)
    (row : Int) : Keeps (TranscriptScreen.Sketched inks s g)
      (rowTexts withColors selX1 selY1 selX2 selY2 n row) := by
  induction n generalizing row with
  | zero => exact keeps_pure _
  | succ n ih =>
      exact (sketched_rowText _ _ _ _ _ _).bind fun _ => (ih _).bind fun _ => keeps_pure _

theorem sketched_getSelectedText (withColors : Bool) (selX1 selY1 selX2 selY2 : Int) :
    Keeps (TranscriptScreen.Sketched inks s g)
      (getSelectedText withColors selX1 selY1 selX2 selY2) :=
  keeps_get_bind fun _ => sketched_rowTexts _ _ _ _ _ _ _

theorem sketched_getTranscriptText (withColors : Bool) :
    Keeps (TranscriptScreen.Sketched inks s g) (getTranscriptText withColors) :=
  keeps_get_bind fun _ => sketched_getSelectedText _ _ _ _ _

end TranscriptScreen

end Kbox.Emulatorview
