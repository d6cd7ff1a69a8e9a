import Kbox.Framework.Scanf

/-!
# `strptime`

The conversions of days, months, years and times in the POSIX locale.  A number is at most as wide
as its field, leading zeros are not required, and white space in the format stands for any amount
of it.  A month is named in full or by three letters, in either case.
-/

namespace Kbox.Framework.Strptime

open Scanf

inductive Field where
  | day
  | month
  | year
  | hour
  | minute
  | yearDay
deriving DecidableEq, Repr

/-- A directive of a format. -/
inductive Item where
  | blank
  | ordinary (a : Char)
  | number (f : Field) (width lo hi : ℕ)
  | monthName
deriving DecidableEq

/-- The directives of a format. -/
def items : List Char → List Item
  | '%' :: 'e' :: s => .number .day 2 1 31 :: items s
  | '%' :: 'm' :: s => .number .month 2 1 12 :: items s
  | '%' :: 'Y' :: s => .number .year 4 0 9999 :: items s
  | '%' :: 'H' :: s => .number .hour 2 0 23 :: items s
  | '%' :: 'M' :: s => .number .minute 2 0 59 :: items s
  | '%' :: 'j' :: s => .number .yearDay 3 1 366 :: items s
  | '%' :: 'b' :: s => .monthName :: items s
  | c :: s => (if isspace c then .blank else .ordinary c) :: items s
  | [] => []

/-- The months in lower case. -/
def months : List (List Char) :=
  [['j', 'a', 'n', 'u', 'a', 'r', 'y'],
    ['f', 'e', 'b', 'r', 'u', 'a', 'r', 'y'],
    ['m', 'a', 'r', 'c', 'h'],
    ['a', 'p', 'r', 'i', 'l'],
    ['m', 'a', 'y'],
    ['j', 'u', 'n', 'e'],
    ['j', 'u', 'l', 'y'],
    ['a', 'u', 'g', 'u', 's', 't'],
    ['s', 'e', 'p', 't', 'e', 'm', 'b', 'e', 'r'],
    ['o', 'c', 't', 'o', 'b', 'e', 'r'],
    ['n', 'o', 'v', 'e', 'm', 'b', 'e', 'r'],
    ['d', 'e', 'c', 'e', 'm', 'b', 'e', 'r']]

/-- What follows a name, in either case. -/
def dropName : List Char → List Char → Option (List Char)
  | [], s => some s
  | _ :: _, [] => none
  | n :: ns, c :: s => if c.toLower = n then dropName ns s else none

/-- The first of the months whose name or first three letters the text begins with. -/
def findMonth : ℕ → List (List Char) → List Char → Option (ℕ × List Char)
  | _, [], _ => none
  | i, name :: names, s =>
      match (dropName name s).or (dropName (name.take 3) s) with
      | some rest => some (i, rest)
      | none => findMonth (i + 1) names s

/-- What a directive reads, and what it leaves of the text. -/
def Item.read : Item → List Char → Option (List (Field × ℕ) × List Char)
  | .blank, s => some ([], s.dropWhile isspace)
  | .ordinary _, [] => none
  | .ordinary a, c :: s => if c = a then some ([], s) else none
  | .number f width lo hi, s =>
      let (ds, rest) := spanDigits width s
      if ds = [] ∨ ofDigits ds < lo ∨ hi < ofDigits ds then none
      else some ([(f, ofDigits ds)], rest)
  | .monthName, s => (findMonth 1 months s).map fun p => ([(.month, p.1)], p.2)

/-- What has been read when a directive fails or the format ends, and what is left then. -/
def scan : List Item → List Char → List (Field × ℕ) × Option (List Char)
  | [], s => ([], some s)
  | i :: is, s =>
      match i.read s with
      | none => ([], none)
      | some (r, rest) => (r ++ (scan is rest).1, (scan is rest).2)

/-- What is read of a text that is read to its end. -/
def full : List Item → List Char → Option (List (Field × ℕ))
  | [], s => if s = [] then some [] else none
  | i :: is, s => (i.read s).bind fun p => (full is p.2).map (p.1 ++ ·)

theorem full_iff {is : List Item} {s : List Char} {r : List (Field × ℕ)} :
    full is s = some r ↔ scan is s = (r, some []) := by
  induction is generalizing s r with
  | nil =>
    rw [full, scan]
    split
    next h => simp [h, eq_comm]
    next h => simp [h]
  | cons i is ih =>
    rw [full, scan]
    cases i.read s with
    | none => simp
    | some p =>
      simp only [Option.bind_some, Option.map_eq_some_iff, ih, Prod.ext_iff]
      constructor
      · rintro ⟨r', ⟨hr, hrest⟩, rfl⟩
        exact ⟨by rw [hr], hrest⟩
      · rintro ⟨rfl, hrest⟩
        exact ⟨_, ⟨rfl, hrest⟩, rfl⟩

/-! ## Rules -/

variable {f : Field} {width lo hi n : ℕ} {is : List Item} {ds s rest : List Char}

/-- Digits of a number that is at most `width` wide. -/
structure Numeral (width n : ℕ) (ds : List Char) : Prop where
  digits : Digits ds
  ne_nil : ds ≠ []
  length_le : ds.length ≤ width
  value : ofDigits ds = n

/-- The text begins with no white space. -/
def NoSpace (s : List Char) : Prop := ∀ c ∈ s.head?, isspace c = false

theorem full_blank (h : NoSpace s) : full (.blank :: is) s = full is s := by
  have hdrop : s.dropWhile isspace = s := @dropWhile_isspace_append [] s (by simp [Blanks]) h
  rw [full, Item.read, hdrop, Option.bind_some]
  simp

theorem full_blank_space (h : NoSpace s) : full (.blank :: is) (' ' :: s) = full is s := by
  have hdrop : (' ' :: s).dropWhile isspace = s :=
    @dropWhile_isspace_append [' '] s (by simp [Blanks, isspace]) h
  rw [full, Item.read, hdrop, Option.bind_some]
  simp

theorem full_ordinary (a : Char) : full (.ordinary a :: is) (a :: s) = full is s := by
  simp [full, Item.read]

theorem full_ordinary_ne {a c : Char} (h : c ≠ a) : full (.ordinary a :: is) (c :: s) = none := by
  simp [full, Item.read, h]

theorem spanDigits_of_length_le (hds : Digits ds) (hlen : ds.length ≤ width)
    (hrest : NoDigit rest) :
    spanDigits width (ds ++ rest) = (ds, rest) :=
  (spanDigits_iff width (ds ++ rest) ds rest).mpr ⟨rfl, hds, hlen, fun _ => hrest⟩

theorem full_number (h : Numeral width n ds) (hn : lo ≤ n ∧ n ≤ hi) (hrest : NoDigit rest) :
    full (.number f width lo hi :: is) (ds ++ rest) = (full is rest).map ((f, n) :: ·) := by
  have hspan := spanDigits_of_length_le h.digits h.length_le hrest
  have hrange : ¬ (ds = [] ∨ n < lo ∨ hi < n) := by
    rw [not_or, not_or]
    exact ⟨h.ne_nil, Nat.not_lt.mpr hn.1, Nat.not_lt.mpr hn.2⟩
  rw [full, Item.read]
  simp only [hspan, h.value, if_neg hrange, Option.bind_some, List.singleton_append]

/-- What follows a number decides that the text is not read. -/
theorem full_number_none (hds : Digits ds) (hlen : ds.length ≤ width) (hrest : NoDigit rest)
    (h : full is rest = none) : full (.number f width lo hi :: is) (ds ++ rest) = none := by
  have hspan := spanDigits_of_length_le hds hlen hrest
  rw [full, Item.read]
  simp only [hspan]
  split
  · rfl
  · rw [Option.bind_some, h]
    rfl

theorem full_number_noDigit (h : NoDigit s) : full (.number f width lo hi :: is) s = none := by
  have hspan : spanDigits width ([] ++ s) = ([], s) :=
    spanDigits_of_length_le (by simp [Digits]) (Nat.zero_le width) h
  rw [List.nil_append] at hspan
  rw [full, Item.read]
  simp [hspan]

/-- Digits beyond the width of a field are left for the next directive. -/
theorem spanDigits_take (width : ℕ) (hds : Digits ds) (hrest : NoDigit rest) :
    spanDigits width (ds ++ rest) = (ds.take width, ds.drop width ++ rest) := by
  refine (spanDigits_iff width _ _ _).mpr ⟨?_, ?_, ?_, ?_⟩
  · rw [← List.append_assoc, List.take_append_drop]
  · exact fun c hc => hds c (List.mem_of_mem_take hc)
  · exact List.length_take_le width ds
  · intro hlt
    rw [List.length_take] at hlt
    rw [List.drop_eq_nil_of_le (by omega), List.nil_append]
    exact hrest

/-- Digits, however many, and something else than the character that must follow. -/
theorem full_number_ordinary_none {a : Char} (hds : Digits ds) (ha : a.isDigit = false)
    (hrest : NoDigit rest) (hne : rest.head? ≠ some a) :
    full (.number f width lo hi :: .ordinary a :: is) (ds ++ rest) = none := by
  have hspan := spanDigits_take width hds hrest
  have hnext : full (.ordinary a :: is) (ds.drop width ++ rest) = none := by
    cases hdrop : ds.drop width with
    | nil =>
      cases rest with
      | nil => rfl
      | cons c rest => exact full_ordinary_ne fun h => hne (congrArg some h)
    | cons c cs =>
      apply full_ordinary_ne
      rintro rfl
      have hc := hds c (List.mem_of_mem_drop (hdrop ▸ List.mem_cons_self))
      rw [ha] at hc
      cases hc
  rw [full, Item.read]
  simp only [hspan]
  split
  · rfl
  · rw [Option.bind_some, hnext]
    rfl

/-! ## Names of months -/

theorem dropName_append {name lower : List Char} (h : name.map Char.toLower = lower) :
    dropName lower (name ++ rest) = some rest := by
  subst h
  induction name with
  | nil => rfl
  | cons c name ih => rw [List.map_cons, List.cons_append, dropName, if_pos rfl, ih]

theorem prefix_of_dropName {name : List Char} (h : dropName name s = some rest) :
    name <+: s.map Char.toLower := by
  induction name generalizing s with
  | nil => exact List.nil_prefix
  | cons n name ih =>
    cases s with
    | nil => cases h
    | cons c s =>
      rw [dropName] at h
      split at h
      next hc =>
        rw [List.map_cons, hc]
        exact List.cons_prefix_cons.mpr ⟨rfl, ih h⟩
      next => cases h

/-- No name begins with the letter. -/
theorem findMonth_none {c : Char} {names : List (List Char)}
    (h : ∀ name ∈ names, name ≠ [] ∧ name.head? ≠ some c.toLower) (i : ℕ) :
    findMonth i names (c :: s) = none := by
  induction names generalizing i with
  | nil => rfl
  | cons name names ih =>
    obtain ⟨hname, hnames⟩ := List.forall_mem_cons.mp h
    cases name with
    | nil => exact absurd rfl hname.1
    | cons n name =>
      have hn : c.toLower ≠ n := fun heq => hname.2 (by rw [heq]; rfl)
      simp [findMonth, dropName, hn, ih hnames]

theorem findMonth_at {names : List (List Char)} {name : List Char} {k : ℕ}
    (hk : names[k]? = some name)
    (hbefore : ∀ j < k, ∀ other, names[j]? = some other →
      (dropName other s).or (dropName (other.take 3) s) = none)
    (hname : (dropName name s).or (dropName (name.take 3) s) = some rest) (i : ℕ) :
    findMonth i names s = some (i + k, rest) := by
  induction names generalizing k i with
  | nil => cases hk
  | cons first names ih =>
    cases k with
    | zero =>
      obtain rfl := Option.some.inj hk
      rw [findMonth, hname]
      rfl
    | succ k =>
      rw [findMonth, hbefore 0 (Nat.succ_pos k) first rfl]
      have hrec := ih hk (fun j hj other hother =>
        hbefore (j + 1) (Nat.succ_lt_succ hj) other hother) (i + 1)
      rw [hrec, Nat.add_assoc, Nat.add_comm 1]

/-- A name of the month `n`. -/
structure MonthName (n : ℕ) (name : List Char) : Prop where
  pos : 1 ≤ n
  exists_lower : ∃ lower, months[n - 1]? = some lower ∧
    (name.map Char.toLower = lower ∨ name.map Char.toLower = lower.take 3)

/-- The text ends, or goes on with a space. -/
def EndsWord (s : List Char) : Prop := ∀ c ∈ s.head?, c = ' '

theorem months_letters : ∀ lower ∈ months, ' ' ∉ lower ∧ 3 ≤ lower.length := by decide

theorem months_nodup : (months.map (List.take 3)).Nodup := by decide

/-- What is picked has the first three letters of the text. -/
theorem take_of_pick {name : List Char} (hlen : 3 ≤ name.length)
    (h : (dropName name s).or (dropName (name.take 3) s) = some rest) :
    name.take 3 = (s.map Char.toLower).take 3 := by
  have hstart : name.take 3 <+: s.map Char.toLower := by
    obtain h | ⟨-, h⟩ := Option.or_eq_some_iff.mp h
    · exact (List.take_prefix 3 name).trans (prefix_of_dropName h)
    · exact prefix_of_dropName h
  have heq := List.prefix_iff_eq_take.mp hstart
  rwa [List.length_take, Nat.min_eq_left hlen] at heq

theorem dropName_name {name lower : List Char} (hlower : lower ∈ months)
    (hname : name.map Char.toLower = lower ∨ name.map Char.toLower = lower.take 3)
    (hrest : EndsWord rest) :
    (dropName lower (name ++ rest)).or (dropName (lower.take 3) (name ++ rest)) = some rest := by
  obtain h | h := hname
  · rw [dropName_append h]
    rfl
  · cases hdrop : dropName lower (name ++ rest) with
    | none =>
      rw [dropName_append h]
      rfl
    | some r =>
      have hstart := prefix_of_dropName hdrop
      rw [List.map_append, h] at hstart
      have hsuffix : lower.drop 3 <+: rest.map Char.toLower := by
        rw [← List.prefix_append_right_inj (lower.take 3), List.take_append_drop]
        exact hstart
      -- no letter is a space, so the three letters are all of the name
      have hnil : lower.drop 3 = [] := by
        cases hcons : lower.drop 3 with
        | nil => rfl
        | cons x xs =>
          cases rest with
          | nil =>
            rw [hcons] at hsuffix
            cases List.prefix_nil.mp hsuffix
          | cons c rest =>
            obtain rfl := hrest c rfl
            rw [hcons, List.map_cons] at hsuffix
            obtain ⟨rfl, -⟩ := List.cons_prefix_cons.mp hsuffix
            have hmem : ' ' ∈ lower := List.mem_of_mem_drop (hcons ▸ List.mem_cons_self)
            exact absurd hmem (months_letters lower hlower).1
      have hwhole := List.take_append_drop 3 lower
      rw [hnil, List.append_nil] at hwhole
      rw [hwhole] at h
      rw [dropName_append h] at hdrop
      rw [← hdrop]
      rfl

theorem MonthName.findMonth {name : List Char} (h : MonthName n name) (hrest : EndsWord rest) :
    findMonth 1 months (name ++ rest) = some (n, rest) := by
  obtain ⟨hpos, lower, hk, hname⟩ := h
  have hlower := List.mem_of_getElem? hk
  have hpick := dropName_name hlower hname hrest
  have hbefore : ∀ j < n - 1, ∀ other, months[j]? = some other →
      (dropName other (name ++ rest)).or (dropName (other.take 3) (name ++ rest)) = none := by
    intro j hj other hother
    cases hpick' : (dropName other (name ++ rest)).or (dropName (other.take 3) (name ++ rest)) with
    | none => rfl
    | some r =>
      have hsame : other.take 3 = lower.take 3 := by
        rw [take_of_pick (months_letters lower hlower).2 hpick,
          take_of_pick (months_letters other (List.mem_of_getElem? hother)).2 hpick']
      have hlen : j < (months.map (List.take 3)).length := by
        rw [List.length_map]
        exact (List.getElem?_eq_some_iff.mp hother).1
      have hj' : j = n - 1 := by
        refine (List.getElem?_inj hlen months_nodup).mp ?_
        rw [List.getElem?_map, List.getElem?_map, hother, hk, Option.map_some, Option.map_some,
          hsame]
      exact absurd hj (hj' ▸ lt_irrefl j)
  rw [findMonth_at hk hbefore hpick 1, Nat.add_sub_cancel' hpos]

theorem full_monthName {name : List Char} (h : MonthName n name) (hrest : EndsWord rest) :
    full (.monthName :: is) (name ++ rest) = (full is rest).map ((.month, n) :: ·) := by
  rw [full, Item.read, h.findMonth hrest]
  rfl

/-- No month begins with the character. -/
def NoMonth (c : Char) : Prop := ∀ name ∈ months, name ≠ [] ∧ name.head? ≠ some c.toLower

theorem full_monthName_none {c : Char} (h : NoMonth c) :
    full (.monthName :: is) (c :: s) = none := by
  rw [full, Item.read, findMonth_none h]
  rfl

theorem noMonth_of_isDigit {c : Char} (h : c.isDigit = true) : NoMonth c :=
  isDigit_cases (P := NoMonth) h (by unfold NoMonth; decide)

/-- Digits, however many, where a month should follow. -/
theorem full_number_month_none {c : Char} (hds : Digits ds) (hc : c.isDigit = false)
    (hspace : isspace c = false) (hmonth : NoMonth c) :
    full (.number f width lo hi :: .blank :: .monthName :: is) (ds ++ c :: s) = none := by
  have hrest : NoDigit (c :: s) := fun x hx => by cases hx; exact hc
  have hspan := spanDigits_take width hds hrest
  have hnext : full (.blank :: .monthName :: is) (ds.drop width ++ c :: s) = none := by
    cases hdrop : ds.drop width with
    | nil =>
      rw [List.nil_append, full_blank fun x hx => by cases hx; exact hspace]
      exact full_monthName_none hmonth
    | cons x xs =>
      have hx := hds x (List.mem_of_mem_drop (hdrop ▸ List.mem_cons_self))
      rw [List.cons_append, full_blank fun y hy => by cases hy; exact not_isspace_of_isDigit hx]
      exact full_monthName_none (noMonth_of_isDigit hx)
  rw [full, Item.read]
  simp only [hspan]
  split
  · rfl
  · rw [Option.bind_some, hnext]
    rfl

theorem noMonth_of_isspace {c : Char} (h : isspace c = true) : NoMonth c :=
  isspace_cases (P := NoMonth) h (by unfold NoMonth; decide)

theorem MonthName.head {name : List Char} (h : MonthName n name) (rest : List Char) :
    ∀ c ∈ (name ++ rest).head?, ¬ NoMonth c := by
  obtain ⟨-, lower, hk, hname⟩ := h
  have hlower := List.mem_of_getElem? hk
  intro c hc hno
  obtain ⟨hne, hhead⟩ := hno lower hlower
  apply hhead
  cases name with
  | nil =>
    have hthree := (months_letters lower hlower).2
    obtain h | h := hname
    · rw [← h] at hthree
      cases hthree
    · have hlen := congrArg List.length h
      rw [List.length_take, Nat.min_eq_left hthree] at hlen
      cases hlen
  | cons x name =>
    cases hc
    cases lower with
    | nil => exact absurd rfl hne
    | cons y lower =>
      obtain h | h := hname
      · exact congrArg some (List.cons.inj h).1.symm
      · exact congrArg some (List.cons.inj h).1.symm

theorem MonthName.noDigit {name : List Char} (h : MonthName n name) (rest : List Char) :
    NoDigit (name ++ rest) := fun c hc =>
  Bool.eq_false_iff.mpr fun hdigit => h.head rest c hc (noMonth_of_isDigit hdigit)

theorem MonthName.noSpace {name : List Char} (h : MonthName n name) (rest : List Char) :
    NoSpace (name ++ rest) := fun c hc =>
  Bool.eq_false_iff.mpr fun hspace => h.head rest c hc (noMonth_of_isspace hspace)

theorem Numeral.noSpace (h : Numeral width n ds) (rest : List Char) : NoSpace (ds ++ rest) := by
  intro c hc
  rw [List.head?_append_of_ne_nil _ h.ne_nil] at hc
  exact not_isspace_of_isDigit (h.digits c (List.mem_of_mem_head? hc))

theorem Numeral.full_monthName (h : Numeral width n ds) (rest : List Char) :
    full (.monthName :: is) (ds ++ rest) = none := by
  cases ds with
  | nil => exact absurd rfl h.ne_nil
  | cons c ds => exact full_monthName_none (noMonth_of_isDigit (h.digits c List.mem_cons_self))

/-! ## Formats with a common beginning -/

theorem findSome?_full {before : List Item} {tails : List (List Item)}
    {g : List (Field × ℕ) → List (Field × ℕ)}
    (h : ∀ is, full (before ++ is) s = (full is rest).map g) :
    (tails.map (before ++ ·)).findSome? (full · s) = (tails.findSome? (full · rest)).map g := by
  induction tails with
  | nil => rfl
  | cons is tails ih =>
    rw [List.map_cons, List.findSome?_cons, List.findSome?_cons, h is]
    cases full is rest with
    | none => exact ih
    | some r => rfl

theorem findSome?_full_none {before : List Item} {tails : List (List Item)}
    (h : ∀ is, full (before ++ is) s = none) :
    (tails.map (before ++ ·)).findSome? (full · s) = none := by
  induction tails with
  | nil => rfl
  | cons is tails ih =>
    rw [List.map_cons, List.findSome?_cons, h is]
    exact ih

end Kbox.Framework.Strptime
