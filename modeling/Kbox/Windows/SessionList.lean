import Kbox.Framework.Runs
import Mathlib.Data.List.Nodup
import Mathlib.Data.List.Perm.Basic

/-!
# `jackpal.androidterm.util.SessionList`

The list of sessions the service keeps.  Each session of the list is to report changes
of its title to the list, and who has registered a callback is told of each change.
-/

namespace Kbox.Windows

open Kbox.Framework
open Relation (ReflTransGen)

variable {S C : Type} [DecidableEq S]

/-- Sessions and callbacks are compared by identity. -/
structure SessionList (S C : Type) where
  elements : List S
  callbacks : List C
  /-- The sessions whose title listener is `mTitleChangedListener`; that of the others is
  `null`. -/
  listening : S → Bool
  /-- The callbacks run so far. -/
  notified : List C

namespace SessionList

def create : SessionList S C where
  elements := []
  callbacks := []
  listening := fun _ => false
  notified := []

def addCallback (callback : C) (l : SessionList S C) : SessionList S C :=
  { l with callbacks := l.callbacks ++ [callback] }

def removeCallback [DecidableEq C] (callback : C) (l : SessionList S C) : SessionList S C :=
  { l with callbacks := l.callbacks.erase callback }

def notifyChange (l : SessionList S C) : SessionList S C :=
  { l with notified := l.notified ++ l.callbacks }

/-- `session.setTitleChangedListener(...)` -/
def setTitleChangedListener (session : S) (value : Bool) (l : SessionList S C) :
    SessionList S C :=
  { l with listening := fun x => if x = session then value else l.listening x }

/-- The calls of `super`. -/
def withElements (elements : List S) (l : SessionList S C) : SessionList S C :=
  { l with elements := elements }

def setAll (sessions : List S) (value : Bool) (l : SessionList S C) : SessionList S C :=
  sessions.foldl (fun l x => l.setTitleChangedListener x value) l

def add (object : S) (l : SessionList S C) : SessionList S C :=
  ((l.withElements (l.elements ++ [object])).setTitleChangedListener object true).notifyChange

def insert (index : Nat) (object : S) (l : SessionList S C) : Option (SessionList S C) :=
  if index ≤ l.elements.length then
    some ((l.withElements (l.elements.insertIdx index object)).setTitleChangedListener
      object true).notifyChange
  else none

def addAll (collection : List S) (l : SessionList S C) : SessionList S C :=
  ((l.withElements (l.elements ++ collection)).setAll collection true).notifyChange

def insertAll (index : Nat) (collection : List S) (l : SessionList S C) :
    Option (SessionList S C) :=
  if index ≤ l.elements.length then
    some ((l.withElements (l.elements.take index ++ collection ++ l.elements.drop index)).setAll
      collection true).notifyChange
  else none

def clear (l : SessionList S C) : SessionList S C :=
  ((l.setAll l.elements false).withElements []).notifyChange

def removeAt (index : Nat) (l : SessionList S C) : Option (SessionList S C) :=
  l.elements[index]?.map fun object =>
    ((l.withElements (l.elements.eraseIdx index)).setTitleChangedListener object
      false).notifyChange

def remove (object : S) (l : SessionList S C) : SessionList S C :=
  if object ∈ l.elements then
    ((l.withElements (l.elements.erase object)).setTitleChangedListener object
      false).notifyChange
  else l

/-- The listener of the new session is set before that of the old one is cleared. -/
def set (index : Nat) (object : S) (l : SessionList S C) : Option (SessionList S C) :=
  l.elements[index]?.map fun old =>
    (((l.withElements (l.elements.set index object)).setTitleChangedListener object
      true).setTitleChangedListener old false).notifyChange

end SessionList

open SessionList

/-! ## §1  Listeners -/

/-- No session is in the list twice, and the sessions that report to the list are those in
it. -/
structure Listens (l : SessionList S C) : Prop where
  nodup : l.elements.Nodup
  listening : ∀ x, l.listening x = true ↔ x ∈ l.elements

inductive ListOp (S : Type) where
  | add (object : S)
  | insert (index : Nat) (object : S)
  | addAll (collection : List S)
  | insertAll (index : Nat) (collection : List S)
  | clear
  | removeAt (index : Nat)
  | remove (object : S)
  | set (index : Nat) (object : S)

/-- An operation; `none` is an index out of range. -/
def ListOp.run : ListOp S → SessionList S C → Option (SessionList S C)
  | .add object, l => some (l.add object)
  | .insert index object, l => l.insert index object
  | .addAll collection, l => some (l.addAll collection)
  | .insertAll index collection, l => l.insertAll index collection
  | .clear, l => some l.clear
  | .removeAt index, l => l.removeAt index
  | .remove object, l => some (l.remove object)
  | .set index object, l => l.set index object

/-- The sessions an operation puts into the list. -/
def ListOp.added : ListOp S → List S
  | .add object => [object]
  | .insert _ object => [object]
  | .addAll collection => collection
  | .insertAll _ collection => collection
  | .clear => []
  | .removeAt _ => []
  | .remove _ => []
  | .set _ object => [object]

/-- They are new to the list, each once. -/
def ListOp.Fresh (op : ListOp S) (l : SessionList S C) : Prop :=
  op.added.Nodup ∧ ∀ x ∈ op.added, x ∉ l.elements

variable {l m : SessionList S C}

theorem setAll_elements (sessions : List S) (value : Bool) :
    (l.setAll sessions value).elements = l.elements := by
  induction sessions generalizing l with
  | nil => rfl
  | cons x sessions ih => exact ih

theorem setAll_listening (sessions : List S) (value : Bool) (x : S) :
    (l.setAll sessions value).listening x = if x ∈ sessions then value else l.listening x := by
  induction sessions generalizing l with
  | nil => rfl
  | cons y sessions ih =>
      refine (ih (l := l.setTitleChangedListener y value)).trans ?_
      simp only [setTitleChangedListener, List.mem_cons]
      by_cases hy : x = y <;> by_cases hx : x ∈ sessions <;> simp [hy, hx]

/-- An operation that only adds, described by the list it leaves. -/
theorem listens_added_iff (h : Listens l) {added : List S}
    (hperm : m.elements.Perm (l.elements ++ added))
    (hlistening : ∀ x, m.listening x = if x ∈ added then true else l.listening x) :
    Listens m ↔ added.Nodup ∧ ∀ x ∈ added, x ∉ l.elements := by
  have hmem : ∀ x, m.listening x = true ↔ x ∈ m.elements := by
    intro x
    rw [hlistening, hperm.mem_iff, List.mem_append, ← h.listening]
    by_cases hx : x ∈ added <;> simp [hx]
  constructor
  · intro hm
    have hnodup := hperm.nodup_iff.mp hm.nodup
    obtain ⟨_, hadded, hdisjoint⟩ := List.nodup_append'.mp hnodup
    exact ⟨hadded, fun x hx hl => hdisjoint hl hx⟩
  · rintro ⟨hadded, hnew⟩
    refine ⟨hperm.nodup_iff.mpr (List.nodup_append'.mpr ⟨h.nodup, hadded, ?_⟩), hmem⟩
    exact fun x hl hx => hnew x hx hl

/-- An operation that takes one session out. -/
theorem listens_removed (h : Listens l) {object : S}
    (hperm : l.elements.Perm (object :: m.elements))
    (hlistening : ∀ x, m.listening x = if x = object then false else l.listening x) :
    Listens m := by
  have hnodup := hperm.nodup_iff.mp h.nodup
  obtain ⟨hnew, hrest⟩ := List.nodup_cons.mp hnodup
  refine ⟨hrest, fun x => ?_⟩
  rw [hlistening]
  by_cases hx : x = object
  · rw [if_pos hx, hx]
    exact ⟨Bool.noConfusion, fun hmem => absurd hmem hnew⟩
  · rw [if_neg hx, h.listening, hperm.mem_iff, List.mem_cons]
    exact ⟨fun hor => hor.resolve_left hx, .inr⟩

theorem listening_one (object x : S) (value : Bool) :
    (l.setTitleChangedListener object value).listening x =
      if x = object then value else l.listening x := rfl

theorem listens_set (h : Listens l) {index : Nat} {object : S} (hm : l.set index object = some m) :
    Listens m ↔ object ∉ l.elements := by
  obtain ⟨old, hold, rfl⟩ := Option.map_eq_some_iff.mp hm
  obtain ⟨hindex, hget⟩ := List.getElem?_eq_some_iff.mp hold
  have hperm : (l.elements.set index object).Perm (object :: l.elements.eraseIdx index) :=
    List.set_perm_cons_eraseIdx hindex object
  have hrest : l.elements.Perm (old :: l.elements.eraseIdx index) := by
    have hself := List.getElem_cons_eraseIdx_perm hindex
    rw [hget] at hself
    exact hself.symm
  have hnodup := List.nodup_cons.mp (hrest.nodup_iff.mp h.nodup)
  constructor
  · intro hlistens hmem
    rcases List.mem_cons.mp (hrest.mem_iff.mp hmem) with rfl | hlater
    · -- The old session is the new one, and its listener is cleared last.
      have hin := (hlistens.listening object).mpr (hperm.mem_iff.mpr List.mem_cons_self)
      simp [notifyChange, listening_one] at hin
    · exact (List.nodup_cons.mp (hperm.nodup_iff.mp hlistens.nodup)).1 hlater
  · intro hnew
    have hne : object ≠ old := fun heq => hnew (heq ▸ hrest.mem_iff.mpr List.mem_cons_self)
    have hlater : object ∉ l.elements.eraseIdx index := fun hmem =>
      hnew (hrest.mem_iff.mpr (List.mem_cons_of_mem _ hmem))
    refine ⟨hperm.nodup_iff.mpr (List.nodup_cons.mpr ⟨hlater, hnodup.2⟩), fun x => ?_⟩
    change (if x = old then false else if x = object then true else l.listening x) = true ↔
      x ∈ l.elements.set index object
    rw [hperm.mem_iff, List.mem_cons]
    by_cases hx : x = old
    · rw [if_pos hx, hx]
      constructor
      · exact Bool.noConfusion
      · rintro (heq | hmem)
        · exact absurd heq.symm hne
        · exact absurd hmem hnodup.1
    · rw [if_neg hx]
      by_cases hobject : x = object
      · rw [if_pos hobject]
        exact ⟨fun _ => .inl hobject, fun _ => rfl⟩
      · rw [if_neg hobject, h.listening, hrest.mem_iff, List.mem_cons]
        exact ⟨fun hor => .inr (hor.resolve_left hx), fun hor => .inr (hor.resolve_left hobject)⟩

theorem listening_added (object x : S) :
    (if x ∈ [object] then true else l.listening x) =
      (l.setTitleChangedListener object true).listening x := by
  simp only [List.mem_singleton, listening_one]

/-- An operation that returns leaves the listeners right when, and only when, what it adds
is new to the list. -/
theorem listens_iff_fresh (h : Listens l) {op : ListOp S} (hop : op.run l = some m) :
    Listens m ↔ op.Fresh l := by
  cases op with
  | add object =>
      cases hop
      exact listens_added_iff h (.refl _) fun x => (listening_added object x).symm
  | insert index object =>
      obtain ⟨hindex, hm⟩ := Option.ite_none_right_eq_some.mp hop
      cases hm
      refine listens_added_iff h ?_ fun x => ?_
      · exact (List.perm_insertIdx _ _ hindex).trans (List.perm_append_singleton _ _).symm
      · exact (listening_added object x).symm
  | addAll collection =>
      cases hop
      refine listens_added_iff h ?_ fun x => setAll_listening collection true x
      exact .of_eq (setAll_elements collection true)
  | insertAll index collection =>
      obtain ⟨_, hm⟩ := Option.ite_none_right_eq_some.mp hop
      cases hm
      refine listens_added_iff h ?_ fun x => setAll_listening collection true x
      refine (List.Perm.of_eq (setAll_elements collection true)).trans ?_
      have hcomm : (collection ++ l.elements.drop index).Perm
          (l.elements.drop index ++ collection) := List.perm_append_comm
      have htail := hcomm.append_left (l.elements.take index)
      rw [← List.append_assoc, ← List.append_assoc, List.take_append_drop] at htail
      exact htail
  | clear =>
      cases hop
      refine ⟨fun _ => ⟨List.nodup_nil, fun x hx => by cases hx⟩, fun _ => ?_⟩
      refine ⟨List.nodup_nil, fun x => ?_⟩
      have hnone : ((l.setAll l.elements false).withElements []).notifyChange.listening x =
          if x ∈ l.elements then false else l.listening x := setAll_listening l.elements false x
      change (((l.setAll l.elements false).withElements []).notifyChange).listening x = true ↔
        x ∈ []
      rw [hnone]
      by_cases hx : x ∈ l.elements
      · simp [hx]
      · simp [hx, h.listening]
  | removeAt index =>
      obtain ⟨object, hobject, rfl⟩ := Option.map_eq_some_iff.mp hop
      obtain ⟨hindex, hget⟩ := List.getElem?_eq_some_iff.mp hobject
      refine ⟨fun _ => ⟨List.nodup_nil, fun x hx => by cases hx⟩, fun _ => ?_⟩
      have hself := List.getElem_cons_eraseIdx_perm hindex
      rw [hget] at hself
      exact listens_removed h hself.symm fun x => rfl
  | remove object =>
      cases hop
      refine ⟨fun _ => ⟨List.nodup_nil, fun x hx => by cases hx⟩, fun _ => ?_⟩
      unfold SessionList.remove
      split_ifs with hmem
      · exact listens_removed h (List.perm_cons_erase hmem) fun x => rfl
      · exact h
  | set index object =>
      rw [listens_set h hop]
      simp [ListOp.Fresh, ListOp.added]

/-- An operation that adds what is new to the list, or nothing. -/
def FreshStep (l m : SessionList S C) : Prop := ∃ op : ListOp S, op.Fresh l ∧ op.run l = some m

/-- In every run of operations that add what is new, the sessions that report changes of
their title are those of the list; and the first operation of a run that adds something
else ends that. -/
theorem listens_of_run (h : ReflTransGen FreshStep (create : SessionList S C) l) :
    Listens l ∧ ∀ (op : ListOp S) (m : SessionList S C), op.run l = some m →
      (Listens m ↔ op.Fresh l) := by
  have hcreate : Listens (create : SessionList S C) :=
    ⟨List.nodup_nil, fun _ => ⟨Bool.noConfusion, fun hmem => by cases hmem⟩⟩
  have hl : Listens l := invariant_of_step hcreate (fun a b ha hstep => by
    obtain ⟨op, hfresh, hop⟩ := hstep
    exact (listens_iff_fresh ha hop).mpr hfresh) h
  exact ⟨hl, fun op m hop => listens_iff_fresh hl hop⟩

theorem listens_of_run_sample : ∃ l : SessionList Nat Nat, ReflTransGen FreshStep create l ∧
    Listens l ∧ ∃ m : SessionList Nat Nat, l.set 0 7 = some m ∧ ¬ Listens m := by
  have hstep : FreshStep (create : SessionList Nat Nat) (create.add 7) :=
    ⟨.add 7, ⟨by decide, fun x _ hx => by cases hx⟩, rfl⟩
  obtain ⟨hlistens, hops⟩ := listens_of_run (ReflTransGen.single hstep)
  refine ⟨_, .single hstep, hlistens, _, rfl, fun hm => ?_⟩
  exact ((hops (.set 0 7) _ rfl).mp hm).2 7 List.mem_cons_self List.mem_cons_self

end Kbox.Windows
