import Kbox.Framework.JavaInt

/-!
# Calls that mutate fields and may throw

A method body over the fields `σ` is an `EStateM ε σ α`: a throw keeps the
assignments made before it, which is what a `catch` further out gets to see.
`wp x Q E s` says that running `x` from `s` either returns and satisfies `Q`, or
throws and satisfies `E`.  The `wp_*` equations push `wp` through a body, so a
body is executed symbolically by `simp`; loops go through `wp_repeatFor`.
-/

namespace Kbox.Framework

variable {ε σ τ α β : Type}

/-- `x` run from `s` returns into `Q` or throws into `E`.  Stated through the
outcome's equation, and not by a `match` on it, so that unfolding never starts
to execute `x`. -/
def wp (x : EStateM ε σ α) (Q : α → σ → Prop) (E : ε → σ → Prop) (s : σ) : Prop :=
  (∀ a s', x s = .ok a s' → Q a s') ∧ (∀ e s', x s = .error e s' → E e s')

/-- `x` run from `s` returns, into `Q`. -/
abbrev returns (x : EStateM ε σ α) (Q : α → σ → Prop) (s : σ) : Prop :=
  wp x Q (fun _ _ => False) s

theorem wp_of_ok {x : EStateM ε σ α} {Q : α → σ → Prop} {E : ε → σ → Prop}
    {s s' : σ} {a : α} (h : x s = .ok a s') : wp x Q E s ↔ Q a s' := by
  unfold wp
  rw [h]
  constructor
  · intro hw
    exact hw.1 a s' rfl
  · intro hQ
    refine ⟨?_, ?_⟩
    · rintro _ _ heq
      cases heq
      exact hQ
    · rintro _ _ heq
      cases heq

theorem wp_of_error {x : EStateM ε σ α} {Q : α → σ → Prop} {E : ε → σ → Prop}
    {s s' : σ} {e : ε} (h : x s = .error e s') : wp x Q E s ↔ E e s' := by
  unfold wp
  rw [h]
  constructor
  · intro hw
    exact hw.2 e s' rfl
  · intro hE
    refine ⟨?_, ?_⟩
    · rintro _ _ heq
      cases heq
    · rintro _ _ heq
      cases heq
      exact hE

/-! ## Executing a body -/

theorem get_apply (s : σ) : (get : EStateM ε σ σ) s = .ok s s := rfl

theorem modify_apply (f : σ → σ) (s : σ) :
    (modify f : EStateM ε σ PUnit) s = .ok ⟨⟩ (f s) := rfl

@[simp] theorem wp_pure (a : α) (Q : α → σ → Prop) (E : ε → σ → Prop) (s : σ) :
    wp (pure a) Q E s ↔ Q a s := wp_of_ok rfl

@[simp] theorem wp_bind (x : EStateM ε σ α) (f : α → EStateM ε σ β)
    (Q : β → σ → Prop) (E : ε → σ → Prop) (s : σ) :
    wp (x >>= f) Q E s ↔ wp x (fun a s' => wp (f a) Q E s') E s := by
  cases hx : x s with
  | ok a s' =>
      have hb : (x >>= f) s = f a s' := by
        simp only [bind, EStateM.bind, hx]
      rw [wp_of_ok hx]
      unfold wp
      rw [hb]
  | error e s' =>
      have hb : (x >>= f) s = .error e s' := by
        simp only [bind, EStateM.bind, hx]
      rw [wp_of_error hx, wp_of_error hb]

@[simp] theorem wp_throw (e : ε) (Q : α → σ → Prop) (E : ε → σ → Prop) (s : σ) :
    wp (throw e) Q E s ↔ E e s := wp_of_error rfl

@[simp] theorem wp_get (Q : σ → σ → Prop) (E : ε → σ → Prop) (s : σ) :
    wp get Q E s ↔ Q s s := wp_of_ok rfl

@[simp] theorem wp_set (t : σ) (Q : PUnit → σ → Prop) (E : ε → σ → Prop) (s : σ) :
    wp (set t) Q E s ↔ Q ⟨⟩ t := wp_of_ok rfl

@[simp] theorem wp_modify (f : σ → σ) (Q : PUnit → σ → Prop) (E : ε → σ → Prop)
    (s : σ) : wp (modify f) Q E s ↔ Q ⟨⟩ (f s) := wp_of_ok rfl

theorem wp_ite {c : Prop} [Decidable c] (x y : EStateM ε σ α) (Q : α → σ → Prop)
    (E : ε → σ → Prop) (s : σ) :
    wp (if c then x else y) Q E s ↔ (c → wp x Q E s) ∧ (¬ c → wp y Q E s) := by
  by_cases h : c
  · rw [if_pos h]
    exact ⟨fun hw => ⟨fun _ => hw, fun hn => absurd h hn⟩, fun hw => hw.1 h⟩
  · rw [if_neg h]
    exact ⟨fun hw => ⟨fun hc => absurd hc h, fun _ => hw⟩, fun hw => hw.2 h⟩

theorem wp_mono {x : EStateM ε σ α} {Q Q' : α → σ → Prop} {E E' : ε → σ → Prop}
    {s : σ} (h : wp x Q E s) (hQ : ∀ a s', Q a s' → Q' a s')
    (hE : ∀ e s', E e s' → E' e s') : wp x Q' E' s :=
  ⟨fun a s' hx => hQ a s' (h.1 a s' hx), fun e s' hx => hE e s' (h.2 e s' hx)⟩

/-- `wp` looks at the outcome from `s` alone. -/
theorem wp_congr {x y : EStateM ε σ α} {s : σ} (h : x s = y s) {Q : α → σ → Prop}
    {E : ε → σ → Prop} : wp x Q E s ↔ wp y Q E s := by
  unfold wp
  rw [h]

theorem wp_true (x : EStateM ε σ α) (s : σ) : wp x (fun _ _ => True) (fun _ _ => True) s :=
  ⟨fun _ _ _ => trivial, fun _ _ _ => trivial⟩

theorem wp_and {x : EStateM ε σ α} {Q Q' : α → σ → Prop} {E E' : ε → σ → Prop} {s : σ}
    (h : wp x Q E s) (h' : wp x Q' E' s) :
    wp x (fun a t => Q a t ∧ Q' a t) (fun e t => E e t ∧ E' e t) s :=
  ⟨fun a t hx => ⟨h.1 a t hx, h'.1 a t hx⟩, fun e t hx => ⟨h.2 e t hx, h'.2 e t hx⟩⟩

/-- A call that returns, followed by what is known of its result. -/
theorem wp_of_returns {x : EStateM ε σ α} {P Q : α → σ → Prop} {E : ε → σ → Prop}
    {s : σ} (h : returns x P s) (hQ : ∀ a s', P a s' → Q a s') : wp x Q E s :=
  wp_mono h hQ (fun _ _ hf => hf.elim)

theorem returns_iff {x : EStateM ε σ α} {Q : α → σ → Prop} {s : σ} :
    returns x Q s ↔ ∃ a s', x s = .ok a s' ∧ Q a s' := by
  unfold returns
  cases h : x s with
  | ok a s' =>
      rw [wp_of_ok h]
      constructor
      · intro hQ
        exact ⟨a, s', rfl, hQ⟩
      · rintro ⟨_, _, heq, hQ⟩
        cases heq
        exact hQ
  | error e s' =>
      rw [wp_of_error h]
      constructor
      · exact False.elim
      · rintro ⟨_, _, heq, _⟩
        cases heq

theorem returns_mono {x : EStateM ε σ α} {P Q : α → σ → Prop} {s : σ}
    (h : returns x P s) (hQ : ∀ a s', P a s' → Q a s') : returns x Q s :=
  wp_of_returns h hQ

theorem returns_bind {x : EStateM ε σ α} {f : α → EStateM ε σ β}
    {Q : β → σ → Prop} {s : σ} :
    returns (x >>= f) Q s ↔ returns x (fun a => returns (f a) Q) s :=
  wp_bind x f Q _ s

/-- A computation without fields returns what its last part returns. -/
theorem bind_ok_iff {x : Except ε α} {f : α → Except ε β} {b : β} :
    (x >>= f) = .ok b ↔ ∃ a, x = .ok a ∧ f a = .ok b := by
  cases x with
  | error e =>
      constructor
      · intro h
        cases h
      · rintro ⟨_, h, _⟩
        cases h
  | ok a =>
      constructor
      · intro h
        exact ⟨a, rfl, h⟩
      · rintro ⟨_, ⟨⟩, h⟩
        exact h

/-! ## Guards, fields and loops -/

/-- `if (c) throw e;` -/
def throwIf (c : Prop) [Decidable c] (e : ε) : EStateM ε σ PUnit :=
  if c then throw e else pure ⟨⟩

@[simp] theorem wp_throwIf (c : Prop) [Decidable c] (e : ε) (Q : PUnit → σ → Prop)
    (E : ε → σ → Prop) (s : σ) :
    wp (throwIf c e) Q E s ↔ (c → E e s) ∧ (¬ c → Q ⟨⟩ s) := by
  unfold throwIf
  rw [wp_ite, wp_throw, wp_pure]

/-- `if (c) x;` -/
def when (c : Prop) [Decidable c] (x : EStateM ε σ PUnit) : EStateM ε σ PUnit :=
  if c then x else pure ⟨⟩

@[simp] theorem wp_when (c : Prop) [Decidable c] (x : EStateM ε σ PUnit)
    (Q : PUnit → σ → Prop) (E : ε → σ → Prop) (s : σ) :
    wp (when c x) Q E s ↔ (c → wp x Q E s) ∧ (¬ c → Q ⟨⟩ s) := by
  unfold when
  rw [wp_ite, wp_pure]

/-- An outcome computed without touching the fields. -/
def checked : Except ε α → EStateM ε σ α
  | .ok a => pure a
  | .error e => throw e

@[simp] theorem wp_checked_ok (a : α) (Q : α → σ → Prop) (E : ε → σ → Prop) (s : σ) :
    wp (checked (.ok a)) Q E s ↔ Q a s := wp_of_ok rfl

@[simp] theorem wp_checked_error (e : ε) (Q : α → σ → Prop) (E : ε → σ → Prop)
    (s : σ) : wp (checked (.error e)) Q E s ↔ E e s := wp_of_error rfl

theorem wp_checked (r : Except ε α) (Q : α → σ → Prop) (E : ε → σ → Prop) (s : σ) :
    wp (checked r) Q E s ↔ (∀ a, r = .ok a → Q a s) ∧ (∀ e, r = .error e → E e s) := by
  cases r with
  | ok a => simp
  | error e => simp

/-- A call on an object held in a field. -/
def onField (field : σ → τ) (store : τ → σ → σ) (x : EStateM ε τ α) :
    EStateM ε σ α := fun s =>
  match x (field s) with
  | .ok a t => .ok a (store t s)
  | .error e t => .error e (store t s)

@[simp] theorem wp_onField (field : σ → τ) (store : τ → σ → σ) (x : EStateM ε τ α)
    (Q : α → σ → Prop) (E : ε → σ → Prop) (s : σ) :
    wp (onField field store x) Q E s ↔
      wp x (fun a t => Q a (store t s)) (fun e t => E e (store t s)) (field s) := by
  cases h : x (field s) with
  | ok a t =>
      have hf : onField field store x s = .ok a (store t s) := by
        simp only [onField, h]
      rw [wp_of_ok hf, wp_of_ok h]
  | error e t =>
      have hf : onField field store x s = .error e (store t s) := by
        simp only [onField, h]
      rw [wp_of_error hf, wp_of_error h]

/-- A call on an object `t` reached through the fields, and put back by `store`. -/
def runOn (store : τ → σ → σ) (x : EStateM ε τ α) (t : τ) : EStateM ε σ α := fun s =>
  match x t with
  | .ok a t' => .ok a (store t' s)
  | .error e t' => .error e (store t' s)

@[simp] theorem wp_runOn (store : τ → σ → σ) (x : EStateM ε τ α) (t : τ)
    (Q : α → σ → Prop) (E : ε → σ → Prop) (s : σ) :
    wp (runOn store x t) Q E s ↔
      wp x (fun a t' => Q a (store t' s)) (fun e t' => E e (store t' s)) t := by
  cases h : x t with
  | ok a t' =>
      have hf : runOn store x t s = .ok a (store t' s) := by
        simp only [runOn, h]
      rw [wp_of_ok hf, wp_of_ok h]
  | error e t' =>
      have hf : runOn store x t s = .error e (store t' s) := by
        simp only [runOn, h]
      rw [wp_of_error hf, wp_of_error h]

/-- Run a constructor on the object `s` just allocated. -/
def construct (x : EStateM ε σ PUnit) (s : σ) : Except ε σ :=
  match x s with
  | .ok _ t => .ok t
  | .error e _ => .error e

theorem of_construct {x : EStateM ε σ PUnit} {s t : σ} {Q : PUnit → σ → Prop}
    {E : ε → σ → Prop} (h : construct x s = .ok t) (hx : wp x Q E s) : Q ⟨⟩ t := by
  unfold construct at h
  cases hr : x s with
  | ok a u =>
      rw [hr] at h
      cases h
      exact (wp_of_ok hr).mp hx
  | error e u =>
      rw [hr] at h
      cases h

/-- The fields after a call whose exception, if it throws, is caught outside. -/
def after (x : EStateM ε σ α) (s : σ) : σ :=
  match x s with
  | .ok _ t => t
  | .error _ t => t

theorem after_of_wp {x : EStateM ε σ α} {I : σ → Prop} {s : σ}
    (h : wp x (fun _ => I) (fun _ => I) s) : I (after x s) := by
  unfold after
  cases hx : x s with
  | ok a t => exact (wp_of_ok hx).mp h
  | error e t => exact (wp_of_error hx).mp h

/-- That a call returns, and where, in a form that can be evaluated. -/
theorem run_ok_iff {x : EStateM ε σ PUnit} {s t : σ} :
    x s = .ok ⟨⟩ t ↔ (x.run' s).isSome ∧ after x s = t := by
  unfold EStateM.run' EStateM.run after
  cases x s with
  | ok a u =>
      constructor
      · intro h
        cases h
        exact ⟨rfl, rfl⟩
      · rintro ⟨_, rfl⟩
        rfl
  | error e u =>
      constructor
      · intro h
        cases h
      · rintro ⟨h, _⟩
        cases h

theorem ok_bind (a : α) (f : α → Except ε β) : (Except.ok a >>= f) = f a := rfl

theorem ok_of_construct {x : EStateM ε σ PUnit} {s t : σ} (h : construct x s = .ok t) :
    x s = .ok ⟨⟩ t := by
  unfold construct at h
  cases hx : x s with
  | ok a u =>
      rw [hx] at h
      cases h
      rfl
  | error e u =>
      rw [hx] at h
      cases h

/-- A call that returns, as its two halves. -/
theorem bind_eq_ok {x : EStateM ε σ α} {f : α → EStateM ε σ β} {s t : σ} {b : β}
    (h : (x >>= f) s = .ok b t) : ∃ a u, x s = .ok a u ∧ f a u = .ok b t := by
  cases hx : x s with
  | ok a u =>
      refine ⟨a, u, rfl, ?_⟩
      simpa only [bind, EStateM.bind, hx] using h
  | error e u =>
      simp only [bind, EStateM.bind, hx] at h
      cases h

theorem construct_of_ok {x : EStateM ε σ PUnit} {s t : σ} (h : x s = .ok ⟨⟩ t) :
    construct x s = .ok t := by
  simp only [construct, h]

/-- `for (int i = 0; i < n; i++) body(i);` -/
def repeatFor : Nat → (Nat → EStateM ε σ PUnit) → EStateM ε σ PUnit
  | 0, _ => pure ⟨⟩
  | n + 1, body => do
      repeatFor n body
      body n

/-- The invariant rule of the counting loop. -/
theorem wp_repeatFor {body : Nat → EStateM ε σ PUnit} {E : ε → σ → Prop}
    (I : Nat → σ → Prop) {n : Nat} {s : σ} (h0 : I 0 s)
    (hstep : ∀ i t, i < n → I i t → wp (body i) (fun _ => I (i + 1)) E t) :
    wp (repeatFor n body) (fun _ => I n) E s := by
  induction n with
  | zero => exact (wp_pure _ _ _ _).mpr h0
  | succ n ih =>
      rw [repeatFor, wp_bind]
      refine wp_mono (ih (fun i t hi => hstep i t (by omega))) ?_ (fun _ _ h => h)
      intro _ t ht
      exact hstep n t (by omega) ht

theorem returns_repeatFor {body : Nat → EStateM ε σ PUnit}
    (I : Nat → σ → Prop) {n : Nat} {s : σ} (h0 : I 0 s)
    (hstep : ∀ i t, i < n → I i t → returns (body i) (fun _ => I (i + 1)) t) :
    returns (repeatFor n body) (fun _ => I n) s :=
  wp_repeatFor I h0 hstep

/-! ## Bodies run for each element of a list -/

theorem mapM_ok {l : List α} {f : α → Except ε β} {g : α → β}
    (h : ∀ a ∈ l, f a = .ok (g a)) : l.mapM f = .ok (l.map g) := by
  induction l with
  | nil => rfl
  | cons a l ih =>
      obtain ⟨ha, hl⟩ := List.forall_mem_cons.mp h
      rw [List.mapM_cons, ha, ih hl]
      rfl

theorem mapM_returns {l : List α} {f : α → EStateM ε σ β} {g : α → β} {s : σ}
    (h : ∀ a ∈ l, f a s = .ok (g a) s) : l.mapM f s = .ok (l.map g) s := by
  induction l with
  | nil => rfl
  | cons a l ih =>
      obtain ⟨ha, hl⟩ := List.forall_mem_cons.mp h
      simp only [List.mapM_cons, bind, EStateM.bind, ha, ih hl, List.map_cons, pure, EStateM.pure]

-- A goal about a call must never be evaluated by unification.
attribute [irreducible] wp

end Kbox.Framework
