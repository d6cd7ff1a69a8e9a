import Kbox.Framework.Arrays
import Kbox.Framework.Exceptions

/-!
# Calls that move cells without looking at them

An edit stores a value at one index of an array, or copies a stretch of the
array onto another.  A call is oblivious to an array among its fields if its
outcome, its other fields and the edits it makes are the same for all contents
of the array.  The edits then tell which write every cell comes from, also in
an array of records that is edited along with the real one.
-/

namespace Kbox.Framework

variable {ε σ τ α β κ μ ν : Type}

/-! ## §1  Edits -/

inductive Edit (μ : Type) where
  | store (i : Nat) (v : μ)
  | copy (src dst n : Nat)
deriving DecidableEq, Repr

namespace Edit

/-- The array after an edit; values are stored as their codes. -/
def apply (code : μ → κ) (xs : List κ) : Edit μ → List κ
  | store i v => xs.set i (code v)
  | copy src dst n => splice xs dst (stretch xs src n)

/-- The edit stays inside an array of that size. -/
def Fits (size : Nat) : Edit μ → Prop
  | store i _ => i < size
  | copy src dst n => src + n ≤ size ∧ dst + n ≤ size

/-- What is stored satisfies `A`. -/
def Stores (A : μ → Prop) : Edit μ → Prop
  | store _ v => A v
  | copy _ _ _ => True

def applyAll (code : μ → κ) (edits : List (Edit μ)) (xs : List κ) : List κ :=
  edits.foldl (apply code) xs

variable {code : μ → κ} {edits edits' : List (Edit μ)} {xs : List κ}

theorem length_apply {e : Edit μ} (h : e.Fits xs.length) : (e.apply code xs).length = xs.length := by
  cases e with
  | store i v => exact List.length_set
  | copy src dst n => exact length_splice_stretch h.2 h.1

theorem applyAll_append :
    applyAll code (edits ++ edits') xs = applyAll code edits' (applyAll code edits xs) :=
  List.foldl_append

theorem length_applyAll (h : ∀ e ∈ edits, e.Fits xs.length) :
    (applyAll code edits xs).length = xs.length := by
  induction edits generalizing xs with
  | nil => rfl
  | cons e edits ih =>
      have hlength : (e.apply code xs).length = xs.length := length_apply (h e List.mem_cons_self)
      show (applyAll code edits (e.apply code xs)).length = xs.length
      rw [ih fun e' he' => by rw [hlength]; exact h e' (List.mem_cons_of_mem _ he'), hlength]

theorem map_splice (f : κ → ν) (xs ys : List κ) (p : Nat) :
    (splice xs p ys).map f = splice (xs.map f) p (ys.map f) := by
  simp only [splice, List.map_append, List.map_take, List.map_drop, List.length_map]

theorem map_stretch (f : κ → ν) (xs : List κ) (p n : Nat) :
    (stretch xs p n).map f = stretch (xs.map f) p n := by
  simp only [stretch, List.map_take, List.map_drop]

/-- Editing records and encoding them is encoding them and editing the codes. -/
theorem applyAll_map (f : κ → ν) : (applyAll code edits xs).map f =
    applyAll (fun v => f (code v)) edits (xs.map f) := by
  induction edits generalizing xs with
  | nil => rfl
  | cons e edits ih =>
      show (applyAll code edits (e.apply code xs)).map f = _
      rw [ih]
      cases e with
      | store i v =>
          show applyAll _ edits ((xs.set i (code v)).map f) = _
          rw [List.map_set]
          rfl
      | copy src dst n =>
          show applyAll _ edits ((splice xs dst (stretch xs src n)).map f) = _
          rw [map_splice, map_stretch]
          rfl

/-- Whatever holds of all records in front and of all that is stored holds of all records behind. -/
theorem mem_applyAll {A : μ → Prop} {P : κ → Prop} (hcode : ∀ v, A v → P (code v))
    (hstores : ∀ e ∈ edits, e.Stores A) (hxs : ∀ x ∈ xs, P x) :
    ∀ x ∈ applyAll code edits xs, P x := by
  induction edits generalizing xs with
  | nil => exact hxs
  | cons e edits ih =>
      refine ih (fun e' he' => hstores e' (List.mem_cons_of_mem _ he')) ?_
      have he := hstores e List.mem_cons_self
      intro x hx
      cases e with
      | store i v =>
          rcases List.mem_or_eq_of_mem_set hx with hx | rfl
          · exact hxs x hx
          · exact hcode v he
      | copy src dst n =>
          simp only [apply, splice, stretch, List.mem_append] at hx
          rcases hx with (hx | hx) | hx
          · exact hxs x (List.mem_of_mem_take hx)
          · exact hxs x (List.mem_of_mem_drop (List.mem_of_mem_take hx))
          · exact hxs x (List.mem_of_mem_drop hx)

end Edit

/-! ## §2  Oblivious calls -/

/-- An array among the fields `σ`. -/
structure ArrayField (σ κ : Type) where
  read : σ → List κ
  write : List κ → σ → σ
  read_write : ∀ d s, read (write d s) = d
  write_read : ∀ s, write (read s) s = s
  write_write : ∀ d d' s, write d (write d' s) = write d s

/-- How a call ends. -/
def finish : Except ε α → σ → EStateM.Result ε σ α
  | .ok a, t => .ok a t
  | .error e, t => .error e t

/-- From `s`, and from `s` with other contents of the array, `x` ends in the same way and makes
the same edits, storing values of `A`; the fields behind it satisfy `I`. -/
def Oblivious (F : ArrayField σ κ) (code : μ → κ) (A : μ → Prop) (I : σ → Prop)
    (x : EStateM ε σ α) (s : σ) : Prop :=
  ∃ (r : Except ε α) (t : σ) (edits : List (Edit μ)), I t ∧
    (∀ e ∈ edits, e.Fits (F.read s).length ∧ e.Stores A) ∧
    F.read t = Edit.applyAll code edits (F.read s) ∧
    ∀ d, d.length = (F.read s).length →
      x (F.write d s) = finish r (F.write (Edit.applyAll code edits d) t)

variable {F : ArrayField σ κ} {code : μ → κ} {A : μ → Prop} {I J : σ → Prop} {s : σ}

/-- How `x` ends from `s` itself. -/
theorem Oblivious.outcome {x : EStateM ε σ α} (h : Oblivious F code A I x s) :
    ∃ (r : Except ε α) (t : σ) (edits : List (Edit μ)), x s = finish r t ∧ I t ∧
      (∀ e ∈ edits, e.Fits (F.read s).length ∧ e.Stores A) ∧
      F.read t = Edit.applyAll code edits (F.read s) ∧
      ∀ d, d.length = (F.read s).length →
        x (F.write d s) = finish r (F.write (Edit.applyAll code edits d) t) := by
  obtain ⟨r, t, edits, hI, hedits, hread, hrun⟩ := h
  refine ⟨r, t, edits, ?_, hI, hedits, hread, hrun⟩
  have hself := hrun (F.read s) rfl
  rwa [F.write_read, ← hread, F.write_read] at hself

theorem Oblivious.wp {x : EStateM ε σ α} (h : Oblivious F code A I x s) :
    wp x (fun _ => I) (fun _ => I) s := by
  obtain ⟨r, t, _, hrun, hI, _⟩ := h.outcome
  cases r with
  | ok a => exact (wp_of_ok hrun).mpr hI
  | error e => exact (wp_of_error hrun).mpr hI

/-- What is known of the fields behind `x` otherwise. -/
theorem Oblivious.keeping {x : EStateM ε σ α} (h : Oblivious F code A I x s)
    (hJ : Framework.wp x (fun _ => J) (fun _ => J) s) : Oblivious F code A J x s := by
  obtain ⟨r, t, edits, hself, _, hedits, hread, hrun⟩ := h.outcome
  refine ⟨r, t, edits, ?_, hedits, hread, hrun⟩
  cases r with
  | ok a => exact (wp_of_ok hself).mp hJ
  | error e => exact (wp_of_error hself).mp hJ

theorem Oblivious.mono {x : EStateM ε σ α} {B : μ → Prop} (h : Oblivious F code A I x s)
    (hA : ∀ v, A v → B v) (hI : ∀ t, I t → J t) : Oblivious F code B J x s := by
  obtain ⟨r, t, edits, hIt, hedits, hread, hrun⟩ := h
  refine ⟨r, t, edits, hI t hIt, fun e he => ⟨(hedits e he).1, ?_⟩, hread, hrun⟩
  have hstores := (hedits e he).2
  cases e with
  | store i v => exact hA v hstores
  | copy src dst n => exact hstores

/-- Only the runs from `s` and from `s` with other contents count. -/
theorem Oblivious.congr {x y : EStateM ε σ α} (h : Oblivious F code A I y s)
    (hxy : ∀ d, d.length = (F.read s).length → x (F.write d s) = y (F.write d s)) :
    Oblivious F code A I x s := by
  obtain ⟨r, t, edits, hI, hedits, hread, hrun⟩ := h
  exact ⟨r, t, edits, hI, hedits, hread, fun d hd => (hxy d hd).trans (hrun d hd)⟩

/-- A call that leaves the array alone. -/
theorem oblivious_frame {x : EStateM ε σ α} {r : Except ε α} {t : σ} (ht : I t)
    (hread : F.read t = F.read s)
    (hrun : ∀ d, d.length = (F.read s).length → x (F.write d s) = finish r (F.write d t)) :
    Oblivious F code A I x s :=
  ⟨r, t, [], ht, fun _ he => absurd he List.not_mem_nil, hread, hrun⟩

theorem oblivious_pure (a : α) (hs : I s) :
    Oblivious F code A I (pure a : EStateM ε σ α) s :=
  @oblivious_frame _ _ _ _ _ _ _ _ _ _ _ (.ok a) _ hs rfl fun _ _ => rfl

theorem oblivious_throw (e : ε) (hs : I s) :
    Oblivious F code A I (throw e : EStateM ε σ α) s :=
  @oblivious_frame _ _ _ _ _ _ _ _ _ _ _ (.error e) _ hs rfl fun _ _ => rfl

theorem oblivious_checked (r : Except ε α) (hs : I s) :
    Oblivious F code A I (checked r : EStateM ε σ α) s := by
  cases r with
  | ok a => exact oblivious_pure a hs
  | error e => exact oblivious_throw e hs

theorem oblivious_modify {f : σ → σ} (hs : I (f s)) (hf : ∀ d, f (F.write d s) = F.write d (f s)) :
    Oblivious F code A I (modify f : EStateM ε σ PUnit) s := by
  refine @oblivious_frame _ _ _ _ _ _ _ _ _ _ _ (.ok ⟨⟩) _ hs ?_ fun d _ => ?_
  · have hself := hf (F.read s)
    rw [F.write_read] at hself
    show F.read (f s) = F.read s
    rw [hself, F.read_write]
  · show EStateM.Result.ok PUnit.unit (f (F.write d s)) = .ok ⟨⟩ (F.write d (f s))
    rw [hf d]

/-- One edit of the array. -/
theorem oblivious_edit {x : EStateM ε σ α} {r : Except ε α} {e : Edit μ}
    (hs : I (F.write (e.apply code (F.read s)) s)) (hfits : e.Fits (F.read s).length)
    (hstores : e.Stores A)
    (hrun : ∀ d, d.length = (F.read s).length →
      x (F.write d s) = finish r (F.write (e.apply code d) s)) :
    Oblivious F code A I x s := by
  refine ⟨r, _, [e], hs, fun e' he' => ?_, F.read_write _ _, fun d hd => ?_⟩
  · obtain rfl := List.mem_singleton.mp he'
    exact ⟨hfits, hstores⟩
  · rw [hrun d hd, F.write_write]
    rfl

theorem Oblivious.bind_mono {x : EStateM ε σ α} {f : α → EStateM ε σ β}
    (hx : Oblivious F code A I x s) (hIJ : ∀ t, I t → J t)
    (hf : ∀ a t, I t → (F.read t).length = (F.read s).length → Oblivious F code A J (f a) t) :
    Oblivious F code A J (x >>= f) s := by
  obtain ⟨r, t, edits, hI, hedits, hread, hrun⟩ := hx
  have hlength : (F.read t).length = (F.read s).length := by
    rw [hread]
    exact Edit.length_applyAll fun e he => (hedits e he).1
  cases r with
  | error e =>
      refine ⟨.error e, t, edits, hIJ t hI, hedits, hread, fun d hd => ?_⟩
      have hd' := hrun d hd
      simp only [Bind.bind, EStateM.bind, hd', finish]
  | ok a =>
      obtain ⟨r', t', edits', hI', hedits', hread', hrun'⟩ := hf a t hI hlength
      refine ⟨r', t', edits ++ edits', hI', fun e he => ?_, ?_, fun d hd => ?_⟩
      · rcases List.mem_append.mp he with he | he
        · exact hedits e he
        · rw [← hlength]
          exact hedits' e he
      · rw [hread', hread, Edit.applyAll_append]
      · have hd' := hrun d hd
        have hsize : (Edit.applyAll code edits d).length = (F.read t).length := by
          rw [hlength, Edit.length_applyAll fun e he => by rw [hd]; exact (hedits e he).1, hd]
        simp only [Bind.bind, EStateM.bind, hd', finish]
        rw [hrun' _ hsize, Edit.applyAll_append]
        cases r' <;> rfl

theorem Oblivious.bind {x : EStateM ε σ α} {f : α → EStateM ε σ β}
    (hx : Oblivious F code A I x s)
    (hf : ∀ a t, I t → (F.read t).length = (F.read s).length → Oblivious F code A I (f a) t) :
    Oblivious F code A I (x >>= f) s :=
  hx.bind_mono (fun _ h => h) hf

theorem Oblivious.then {x : EStateM ε σ PUnit} {y : EStateM ε σ β}
    (hx : Oblivious F code A I x s)
    (hy : ∀ t, I t → (F.read t).length = (F.read s).length → Oblivious F code A I y t) :
    Oblivious F code A I (do x; y) s :=
  hx.bind fun _ => hy

/-- The fields that are read are the same for all contents. -/
theorem oblivious_get_bind {f : σ → EStateM ε σ β} (h : Oblivious F code A I (f s) s)
    (hf : ∀ d, d.length = (F.read s).length → f (F.write d s) = f s) :
    Oblivious F code A I (get >>= f) s :=
  h.congr fun d hd => congrFun (hf d hd) _

theorem oblivious_ite {c : Prop} [Decidable c] {x y : EStateM ε σ α}
    (hx : c → Oblivious F code A I x s) (hy : ¬ c → Oblivious F code A I y s) :
    Oblivious F code A I (if c then x else y) s := by
  by_cases hc : c
  · rw [if_pos hc]
    exact hx hc
  · rw [if_neg hc]
    exact hy hc

theorem oblivious_throwIf {c : Prop} [Decidable c] {e : ε} (hs : I s) :
    Oblivious F code A I (throwIf c e : EStateM ε σ PUnit) s :=
  oblivious_ite (fun _ => oblivious_throw e hs) fun _ => oblivious_pure _ hs

theorem oblivious_when {c : Prop} [Decidable c] {x : EStateM ε σ PUnit} (hs : I s)
    (hx : c → Oblivious F code A I x s) : Oblivious F code A I (when c x) s :=
  oblivious_ite hx fun _ => oblivious_pure _ hs

theorem oblivious_repeatFor {body : Nat → EStateM ε σ PUnit} {n : Nat} (hs : I s)
    (h : ∀ i t, I t → (F.read t).length = (F.read s).length → Oblivious F code A I (body i) t) :
    Oblivious F code A I (repeatFor n body) s := by
  induction n with
  | zero => exact oblivious_pure _ hs
  | succ n ih => exact ih.then fun t ht hlength => h n t ht hlength

/-- A call on the object that holds the array. -/
theorem oblivious_onField {G : ArrayField τ κ} {field : σ → τ} {store : τ → σ → σ}
    {K : τ → Prop} {x : EStateM ε τ α} (hx : Oblivious G code A K x (field s))
    (hread : ∀ s, F.read s = G.read (field s))
    (hwrite : ∀ d s, F.write d s = store (G.write d (field s)) s)
    (hfield : ∀ t s, field (store t s) = t) (hstore : ∀ t t' s, store t (store t' s) = store t s)
    (hI : ∀ t, K t → I (store t s)) : Oblivious F code A I (onField field store x) s := by
  obtain ⟨r, t, edits, hK, hedits, hr, hrun⟩ := hx
  refine ⟨r, store t s, edits, hI t hK, ?_, ?_, fun d hd => ?_⟩
  · rw [hread]
    exact hedits
  · rw [hread, hread, hfield]
    exact hr
  · rw [hread] at hd
    have hd' := hrun d hd
    have hin : field (F.write d s) = G.write d (field s) := by rw [hwrite, hfield]
    have hout (u : τ) : store u (F.write d s) = store u s := by rw [hwrite, hstore]
    have hend : F.write (Edit.applyAll code edits d) (store t s) =
        store (G.write (Edit.applyAll code edits d) t) s := by rw [hwrite, hfield, hstore]
    cases r with
    | ok a => simp only [onField, hin, hd', finish, hout, hend]
    | error e => simp only [onField, hin, hd', finish, hout, hend]

end Kbox.Framework
