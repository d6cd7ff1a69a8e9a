import Kbox.Framework.Exceptions

/-!
# What a call keeps, and what it may throw

`Guards I E x` says that `I` survives `x` however `x` ends, and that `x` throws
nothing but exceptions of `E`.
-/

namespace Kbox.Framework

variable {ε σ τ α β : Type} {I : σ → Prop} {E : ε → Prop}

/-- `x` run from a state of `I` leaves a state of `I`, and throws only into `E`. -/
def Guards (I : σ → Prop) (E : ε → Prop) (x : EStateM ε σ α) : Prop :=
  ∀ s, I s → wp x (fun _ => I) (fun e t => I t ∧ E e) s

theorem Guards.of_returns {x : EStateM ε σ α} {s : σ} (h : returns x (fun _ => I) s) :
    wp x (fun _ => I) (fun e t => I t ∧ E e) s :=
  wp_of_returns h fun _ _ ht => ht

theorem guards_pure (a : α) : Guards I E (pure a : EStateM ε σ α) := by
  intro s hs
  rw [wp_pure]
  exact hs

theorem guards_throw {e : ε} (he : E e) : Guards I E (throw e : EStateM ε σ α) := by
  intro s hs
  rw [wp_throw]
  exact ⟨hs, he⟩

theorem guards_modify {f : σ → σ} (h : ∀ s, I s → I (f s)) :
    Guards I E (modify f : EStateM ε σ PUnit) := by
  intro s hs
  rw [wp_modify]
  exact h s hs

theorem guards_throwIf {c : Prop} [Decidable c] {e : ε} (he : E e) :
    Guards I E (throwIf c e : EStateM ε σ PUnit) := by
  intro s hs
  rw [wp_throwIf]
  exact ⟨fun _ => ⟨hs, he⟩, fun _ => hs⟩

theorem guards_checked {r : Except ε α} (hr : ∀ e, r = .error e → E e) :
    Guards I E (checked r : EStateM ε σ α) := by
  intro s hs
  rw [wp_checked]
  exact ⟨fun _ _ => hs, fun e he => ⟨hs, hr e he⟩⟩

theorem Guards.bind {x : EStateM ε σ α} {f : α → EStateM ε σ β} (hx : Guards I E x)
    (hf : ∀ a, Guards I E (f a)) : Guards I E (x >>= f) := by
  intro s hs
  rw [wp_bind]
  exact wp_mono (hx s hs) (fun a t ht => hf a t ht) fun _ _ ht => ht

theorem Guards.then {x : EStateM ε σ PUnit} {y : EStateM ε σ β} (hx : Guards I E x)
    (hy : Guards I E y) : Guards I E (do x; y) :=
  hx.bind fun _ => hy

theorem guards_read {f : σ → EStateM ε σ β}
    (h : ∀ s, I s → wp (f s) (fun _ => I) (fun e t => I t ∧ E e) s) :
    Guards I E (get >>= f) := by
  intro s hs
  rw [wp_bind, wp_get]
  exact h s hs

theorem guards_get_bind {f : σ → EStateM ε σ β} (h : ∀ s, Guards I E (f s)) :
    Guards I E (get >>= f) :=
  guards_read fun s => h s s

theorem guards_ite {c : Prop} [Decidable c] {x y : EStateM ε σ α} (hx : c → Guards I E x)
    (hy : ¬ c → Guards I E y) : Guards I E (if c then x else y) := by
  by_cases hc : c
  · rw [if_pos hc]
    exact hx hc
  · rw [if_neg hc]
    exact hy hc

theorem guards_when {c : Prop} [Decidable c] {x : EStateM ε σ PUnit} (hx : c → Guards I E x) :
    Guards I E (when c x) :=
  guards_ite hx fun _ => guards_pure _

theorem guards_repeatFor {body : Nat → EStateM ε σ PUnit} {n : Nat}
    (h : ∀ i, Guards I E (body i)) : Guards I E (repeatFor n body) := by
  intro s hs
  exact wp_repeatFor (fun _ => I) hs fun i t _ ht => h i t ht

theorem guards_mapM {f : β → EStateM ε σ α} {bs : List β} (h : ∀ b, Guards I E (f b)) :
    Guards I E (bs.mapM f) := by
  induction bs with
  | nil => exact guards_pure _
  | cons b bs ih =>
      rw [List.mapM_cons]
      exact (h b).bind fun _ => ih.bind fun _ => guards_pure _

theorem guards_onField {field : σ → τ} {store : τ → σ → σ} {J : σ → τ → Prop}
    {x : EStateM ε τ α} (hx : ∀ s, I s → Guards (J s) E x)
    (hfield : ∀ s, I s → J s (field s))
    (hstore : ∀ s t, I s → J s t → I (store t s)) : Guards I E (onField field store x) := by
  intro s hs
  rw [wp_onField]
  exact wp_mono (hx s hs _ (hfield s hs)) (fun _ t ht => hstore s t hs ht)
    fun _ t ht => ⟨hstore s t hs ht.1, ht.2⟩

end Kbox.Framework
