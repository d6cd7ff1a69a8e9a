import Mathlib.Tactic.Common
import Mathlib.Data.List.Basic

/-!
# Edits of a list of fixed length

Inserting blanks into a list drops as many elements off its end, and removing
elements appends as many blanks, so that the length stays.
-/

namespace Kbox.Framework

variable {α : Type}

/-- `k` times `blank` in front of element `i`. -/
def insertBlanks (i k : Nat) (blank : α) (l : List α) : List α :=
  l.take i ++ List.replicate k blank ++ (l.drop i).take (l.length - i - k)

/-- Without the `k` elements from `i` on. -/
def removeElements (i k : Nat) (blank : α) (l : List α) : List α :=
  l.take i ++ l.drop (i + k) ++ List.replicate k blank

variable {i k : Nat} {blank : α} {l : List α}

theorem length_insertBlanks (h : i + k ≤ l.length) :
    (insertBlanks i k blank l).length = l.length := by
  simp only [insertBlanks, List.length_append, List.length_take, List.length_replicate,
    List.length_drop]
  omega

theorem length_removeElements (h : i + k ≤ l.length) :
    (removeElements i k blank l).length = l.length := by
  simp only [removeElements, List.length_append, List.length_take, List.length_replicate,
    List.length_drop]
  omega

theorem getElem?_insertBlanks (h : i + k ≤ l.length) (x : Nat) :
    (insertBlanks i k blank l)[x]? =
      if x < i then l[x]?
      else if x < i + k then some blank
      else if x < l.length then l[x - k]?
      else none := by
  have hi : min i l.length = i := by omega
  simp only [insertBlanks, List.getElem?_append, List.length_append, List.length_take,
    List.length_replicate, List.getElem?_take, List.getElem?_drop, List.getElem?_replicate, hi]
  by_cases hfront : x < i
  · rw [if_pos (by omega), if_pos hfront, if_pos hfront, if_pos hfront]
  · rw [if_neg hfront, if_neg hfront]
    by_cases hblank : x < i + k
    · rw [if_pos hblank, if_pos (by omega), if_pos hblank]
    · rw [if_neg hblank, if_neg hblank]
      by_cases hin : x < l.length
      · rw [if_pos (by omega), if_pos hin]
        congr 1
        omega
      · rw [if_neg (by omega), if_neg hin]

theorem getElem?_removeElements (h : i + k ≤ l.length) (x : Nat) :
    (removeElements i k blank l)[x]? =
      if x < i then l[x]?
      else if x + k < l.length then l[x + k]?
      else if x < l.length then some blank
      else none := by
  have hi : min i l.length = i := by omega
  simp only [removeElements, List.getElem?_append, List.length_append, List.length_take,
    List.length_drop, List.getElem?_take, List.getElem?_drop, List.getElem?_replicate, hi]
  by_cases hfront : x < i
  · rw [if_pos (by omega), if_pos hfront, if_pos hfront, if_pos hfront]
  · rw [if_neg hfront, if_neg hfront]
    by_cases hmoved : x + k < l.length
    · rw [if_pos (by omega), if_pos hmoved]
      congr 1
      omega
    · rw [if_neg (by omega), if_neg hmoved]
      by_cases hin : x < l.length
      · rw [if_pos (by omega), if_pos hin]
      · rw [if_neg (by omega), if_neg hin]

/-- Removing what was inserted restores all that was not dropped. -/
theorem removeElements_insertBlanks (h : i + k ≤ l.length) :
    removeElements i k blank (insertBlanks i k blank l) =
      l.take (l.length - k) ++ List.replicate k blank := by
  have hlen : (insertBlanks i k blank l).length = l.length := length_insertBlanks h
  apply List.ext_getElem?
  intro x
  rw [getElem?_removeElements (by rw [hlen]; exact h), getElem?_insertBlanks h,
    getElem?_insertBlanks h, hlen, List.getElem?_append, List.length_take, List.getElem?_take,
    List.getElem?_replicate, show min (l.length - k) l.length = l.length - k by omega]
  by_cases hkept : x < l.length - k
  · rw [if_pos hkept, if_pos hkept]
    by_cases hfront : x < i
    · rw [if_pos hfront, if_pos hfront]
    · rw [if_neg hfront, if_pos (by omega), if_neg (by omega), if_neg (by omega),
        if_pos (by omega), Nat.add_sub_cancel]
  · rw [if_neg hkept, if_neg (by omega), if_neg (by omega)]
    by_cases hin : x < l.length
    · rw [if_pos hin, if_pos (by omega)]
    · rw [if_neg hin, if_neg (by omega)]

/-- Lists of lists with the same elements in the same places. -/
theorem ext_rows {rows rows' : List (List α)} (hlength : rows.length = rows'.length)
    (h : ∀ y x : Nat, y < rows.length →
      rows[y]?.bind (·[x]?) = rows'[y]?.bind (·[x]?)) : rows = rows' := by
  apply List.ext_getElem hlength
  intro y hy hy'
  apply List.ext_getElem?
  intro x
  have hcell := h y x hy
  rw [List.getElem?_eq_getElem hy, List.getElem?_eq_getElem hy'] at hcell
  exact hcell

end Kbox.Framework
