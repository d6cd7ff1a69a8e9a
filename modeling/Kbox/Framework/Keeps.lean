import Kbox.Framework.Guards

/-!
# What a call keeps

`Keeps I x` says that `I` survives `x` however `x` ends, so that it also survives
a `catch` around the call.  The rules are those of `Guards` for any exception;
what a call reads in front of a branch is known to satisfy `I` (`keeps_read`).
-/

namespace Kbox.Framework

variable {ε σ τ α β : Type} {I : σ → Prop}

/-- `x` run from a state of `I` leaves a state of `I`, whether it returns or throws. -/
def Keeps (I : σ → Prop) (x : EStateM ε σ α) : Prop :=
  ∀ s, I s → wp x (fun _ => I) (fun _ => I) s

theorem Keeps.after {x : EStateM ε σ α} (h : Keeps I x) {s : σ} (hs : I s) :
    I (after x s) :=
  after_of_wp (h s hs)

theorem Keeps.guards {x : EStateM ε σ α} (h : Keeps I x) : Guards I (fun _ => True) x := by
  intro s hs
  exact wp_mono (h s hs) (fun _ _ ht => ht) fun _ _ ht => ⟨ht, trivial⟩

theorem Guards.keeps {E : ε → Prop} {x : EStateM ε σ α} (h : Guards I E x) : Keeps I x := by
  intro s hs
  exact wp_mono (h s hs) (fun _ _ ht => ht) fun _ _ ht => ht.1

theorem keeps_pure (a : α) : Keeps I (pure a : EStateM ε σ α) :=
  (guards_pure (E := fun _ => True) a).keeps

theorem keeps_throw (e : ε) : Keeps I (throw e : EStateM ε σ α) :=
  (guards_throw (E := fun _ => True) trivial).keeps

theorem keeps_modify {f : σ → σ} (h : ∀ s, I s → I (f s)) :
    Keeps I (modify f : EStateM ε σ PUnit) :=
  (guards_modify (E := fun _ => True) h).keeps

theorem keeps_throwIf {c : Prop} [Decidable c] {e : ε} :
    Keeps I (throwIf c e : EStateM ε σ PUnit) :=
  (guards_throwIf (E := fun _ => True) trivial).keeps

theorem keeps_checked (r : Except ε α) : Keeps I (checked r : EStateM ε σ α) :=
  (guards_checked (E := fun _ => True) fun _ _ => trivial).keeps

theorem Keeps.bind {x : EStateM ε σ α} {f : α → EStateM ε σ β} (hx : Keeps I x)
    (hf : ∀ a, Keeps I (f a)) : Keeps I (x >>= f) :=
  (hx.guards.bind fun a => (hf a).guards).keeps

theorem Keeps.then {x : EStateM ε σ PUnit} {y : EStateM ε σ β} (hx : Keeps I x)
    (hy : Keeps I y) : Keeps I (do x; y) :=
  hx.bind fun _ => hy

/-- The fields read belong to a state of `I`. -/
theorem keeps_read {f : σ → EStateM ε σ β} (h : ∀ s, I s → wp (f s) (fun _ => I) (fun _ => I) s) :
    Keeps I (get >>= f) := by
  intro s hs
  rw [wp_bind, wp_get]
  exact h s hs

theorem keeps_get_bind {f : σ → EStateM ε σ β} (h : ∀ s, Keeps I (f s)) :
    Keeps I (get >>= f) :=
  keeps_read fun s => h s s

theorem keeps_ite {c : Prop} [Decidable c] {x y : EStateM ε σ α} (hx : c → Keeps I x)
    (hy : ¬ c → Keeps I y) : Keeps I (if c then x else y) :=
  (guards_ite (fun hc => (hx hc).guards) fun hc => (hy hc).guards).keeps

theorem keeps_when {c : Prop} [Decidable c] {x : EStateM ε σ PUnit} (hx : c → Keeps I x) :
    Keeps I (when c x) :=
  (guards_when fun hc => (hx hc).guards).keeps

theorem keeps_repeatFor {body : Nat → EStateM ε σ PUnit} {n : Nat}
    (h : ∀ i, Keeps I (body i)) : Keeps I (repeatFor n body) :=
  (guards_repeatFor fun i => (h i).guards).keeps

theorem keeps_onField {field : σ → τ} {store : τ → σ → σ} {J : τ → Prop}
    {x : EStateM ε τ α} (hx : Keeps J x) (hfield : ∀ s, I s → J (field s))
    (hstore : ∀ s t, I s → J t → I (store t s)) : Keeps I (onField field store x) :=
  (guards_onField (J := fun _ => J) (fun _ _ => hx.guards) hfield hstore).keeps

/-- What every step keeps, every run keeps. -/
theorem keeps_foldl_after {step : β → EStateM ε σ α} {bs : List β} {s : σ}
    (h : ∀ b ∈ bs, Keeps I (step b)) (hs : I s) :
    I (bs.foldl (fun s b => after (step b) s) s) := by
  induction bs generalizing s with
  | nil => exact hs
  | cons b bs ih =>
      rw [List.foldl_cons]
      have hb := (h b List.mem_cons_self).after hs
      exact ih (fun b' hb' => h b' (List.mem_cons_of_mem _ hb')) hb

end Kbox.Framework
