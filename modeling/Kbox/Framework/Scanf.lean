import Mathlib.Algebra.Order.Ring.Rat
import Mathlib.Data.List.Basic
import Mathlib.Tactic.Ring

/-!
# `sscanf`

The directives `%c`, `%Nd` and `%lf` and ordinary characters, as the C standard describes them: a
number is the longest text that is, or begins, a number of its kind, and the conversion fails if
that text is no number yet.  Numbers are exact.
-/

namespace Kbox.Framework.Scanf

/-! ## Characters -/

def isspace (c : Char) : Bool := c.toNat = 32 ∨ (9 ≤ c.toNat ∧ c.toNat ≤ 13)

def digitVal (c : Char) : ℕ := c.toNat - 48

/-- The number that a text of digits denotes. -/
def ofDigits (cs : List Char) : ℕ := cs.foldl (fun n c => 10 * n + digitVal c) 0

def Digits (cs : List Char) : Prop := ∀ c ∈ cs, c.isDigit = true

def Blanks (cs : List Char) : Prop := ∀ c ∈ cs, isspace c = true

/-- An optional sign. -/
def IsSign (cs : List Char) : Prop := cs = [] ∨ cs = ['+'] ∨ cs = ['-']

/-- A sign before a number. -/
def signed {K : Type} [Neg K] (cs : List Char) (x : K) : K := if cs = ['-'] then -x else x

theorem signed_nil {K : Type} [Neg K] (x : K) : signed [] x = x := if_neg (by simp)

theorem isDigit_iff {c : Char} : c.isDigit = true ↔ 48 ≤ c.toNat ∧ c.toNat ≤ 57 := by
  simp only [Char.isDigit, Bool.and_eq_true, decide_eq_true_eq, ge_iff_le, UInt32.le_iff_toNat_le]
  exact Iff.rfl

theorem isDigit_cases {P : Char → Prop} {c : Char} (h : c.isDigit = true)
    (hP : ∀ n ∈ [48, 49, 50, 51, 52, 53, 54, 55, 56, 57], P (Char.ofNat n)) : P c := by
  have hc : c.toNat ∈ [48, 49, 50, 51, 52, 53, 54, 55, 56, 57] := by
    obtain ⟨h1, h2⟩ := isDigit_iff.mp h
    simp only [List.mem_cons, List.not_mem_nil, or_false]
    omega
  rw [← Char.ofNat_toNat c]
  exact hP c.toNat hc

theorem isspace_cases {P : Char → Prop} {c : Char} (h : isspace c = true)
    (hP : ∀ n ∈ [32, 9, 10, 11, 12, 13], P (Char.ofNat n)) : P c := by
  have hc : c.toNat ∈ [32, 9, 10, 11, 12, 13] := by
    simp only [isspace, decide_eq_true_eq] at h
    simp only [List.mem_cons, List.not_mem_nil, or_false]
    omega
  rw [← Char.ofNat_toNat c]
  exact hP c.toNat hc

theorem not_isspace_of_isDigit {c : Char} (h : c.isDigit = true) : isspace c = false := by
  obtain ⟨h1, h2⟩ := isDigit_iff.mp h
  simp only [isspace, decide_eq_false_iff_not]
  omega

theorem ofDigits_foldl (cs : List Char) (n : ℕ) :
    cs.foldl (fun n c => 10 * n + digitVal c) n = n * 10 ^ cs.length + ofDigits cs := by
  induction cs generalizing n with
  | nil => simp [ofDigits]
  | cons c cs ih =>
    have hcons : ofDigits (c :: cs) = digitVal c * 10 ^ cs.length + ofDigits cs := by
      rw [ofDigits, List.foldl_cons, ih]
      simp
    rw [List.foldl_cons, ih, hcons, List.length_cons, pow_succ]
    ring

theorem ofDigits_append (xs ys : List Char) :
    ofDigits (xs ++ ys) = ofDigits xs * 10 ^ ys.length + ofDigits ys := by
  rw [ofDigits, List.foldl_append, ofDigits_foldl, ← ofDigits]

theorem ofDigits_cons (c : Char) (cs : List Char) :
    ofDigits (c :: cs) = digitVal c * 10 ^ cs.length + ofDigits cs := by
  rw [ofDigits, List.foldl_cons, ofDigits_foldl]
  simp

theorem ofDigits_lt {cs : List Char} (h : Digits cs) : ofDigits cs < 10 ^ cs.length := by
  induction cs with
  | nil => simp [ofDigits]
  | cons c cs ih =>
    have hrest := ih fun x hx => h x (List.mem_cons_of_mem _ hx)
    obtain ⟨h1, h2⟩ := isDigit_iff.mp (h c List.mem_cons_self)
    have hc : digitVal c ≤ 9 := by simp only [digitVal]; omega
    rw [ofDigits_cons, List.length_cons, pow_succ]
    calc digitVal c * 10 ^ cs.length + ofDigits cs
        < digitVal c * 10 ^ cs.length + 10 ^ cs.length := by omega
      _ = (digitVal c + 1) * 10 ^ cs.length := by ring
      _ ≤ 10 * 10 ^ cs.length := Nat.mul_le_mul_right _ (by omega)
      _ = 10 ^ cs.length * 10 := by ring

theorem digitVal_eq_zero {c : Char} (h : c.isDigit = true) : digitVal c = 0 ↔ c = '0' := by
  obtain ⟨h1, h2⟩ := isDigit_iff.mp h
  constructor
  · intro hc
    have hnat : c.toNat = ('0' : Char).toNat := by
      have hzero : ('0' : Char).toNat = 48 := rfl
      rw [digitVal] at hc
      omega
    exact Char.toNat_inj.mp hnat
  · rintro rfl
    rfl

/-- Digits denote zero just if all of them are zeros. -/
theorem ofDigits_eq_zero {cs : List Char} (h : Digits cs) :
    ofDigits cs = 0 ↔ ∀ c ∈ cs, c = '0' := by
  induction cs with
  | nil => simp [ofDigits]
  | cons c cs ih =>
    have hrest := ih fun x hx => h x (List.mem_cons_of_mem _ hx)
    have hc := digitVal_eq_zero (h c List.mem_cons_self)
    rw [ofDigits_cons, Nat.add_eq_zero_iff, hrest, List.forall_mem_cons, ← hc]
    simp

/-! ## Integers -/

/-- At most `width` digits, and what follows them. -/
def spanDigits : ℕ → List Char → List Char × List Char
  | 0, s => ([], s)
  | _ + 1, [] => ([], [])
  | w + 1, c :: s =>
      if c.isDigit then (c :: (spanDigits w s).1, (spanDigits w s).2) else ([], c :: s)

/-- An optional sign, and what follows it. -/
def spanSign : List Char → List Char × List Char
  | '+' :: s => (['+'], s)
  | '-' :: s => (['-'], s)
  | s => ([], s)

/-- `%Nd` -/
def readInt (width : ℕ) (s : List Char) : Option (ℤ × List Char) :=
  let (sign, s) := spanSign (s.dropWhile isspace)
  let (ds, rest) := spanDigits (width - sign.length) s
  if ds = [] then none else some (signed sign (ofDigits ds : ℤ), rest)

/-- The text does not begin with a digit. -/
def NoDigit (s : List Char) : Prop := ∀ c ∈ s.head?, c.isDigit = false

theorem spanDigits_iff (w : ℕ) (s ds rest : List Char) :
    spanDigits w s = (ds, rest) ↔
      s = ds ++ rest ∧ Digits ds ∧ ds.length ≤ w ∧ (ds.length < w → NoDigit rest) := by
  induction w generalizing s ds with
  | zero =>
    rw [spanDigits, Prod.mk.injEq]
    constructor
    · rintro ⟨rfl, rfl⟩
      simp [Digits]
    · rintro ⟨rfl, -, hlen, -⟩
      have hnil := List.eq_nil_of_length_eq_zero (Nat.le_zero.mp hlen)
      simp [hnil]
  | succ w ih =>
    cases s with
    | nil =>
      rw [spanDigits, Prod.mk.injEq]
      constructor
      · rintro ⟨rfl, rfl⟩
        simp [Digits, NoDigit]
      · rintro ⟨h, -⟩
        obtain ⟨rfl, rfl⟩ := List.append_eq_nil_iff.mp h.symm
        exact ⟨rfl, rfl⟩
    | cons c s =>
      rw [spanDigits]
      split
      next hc =>
        cases ds with
        | nil =>
          constructor
          · intro h
            cases (Prod.mk.inj h).1
          · rintro ⟨rfl, -, -, hmax⟩
            rw [hmax (Nat.zero_lt_succ w) c rfl] at hc
            cases hc
        | cons d ds =>
          constructor
          · intro h
            obtain ⟨hcons, h2⟩ := Prod.mk.inj h
            obtain ⟨rfl, h1⟩ := List.cons.inj hcons
            have hspan : spanDigits w s = (ds, rest) := Prod.ext h1 h2
            obtain ⟨rfl, hds, hlen, hmax⟩ := (ih s ds).mp hspan
            refine ⟨rfl, List.forall_mem_cons.mpr ⟨hc, hds⟩, Nat.succ_le_succ hlen, ?_⟩
            intro hlt
            exact hmax (Nat.lt_of_succ_lt_succ hlt)
          · rintro ⟨h, hds, hlen, hmax⟩
            obtain ⟨rfl, hs⟩ := List.cons.inj h
            have hspan := (ih s ds).mpr ⟨hs, (List.forall_mem_cons.mp hds).2,
              Nat.le_of_succ_le_succ hlen, fun hlt => hmax (Nat.succ_lt_succ hlt)⟩
            rw [hspan]
      next hc =>
        constructor
        · intro h
          obtain ⟨rfl, rfl⟩ := Prod.mk.inj h
          refine ⟨rfl, by simp [Digits], Nat.zero_le _, fun _ x hx => ?_⟩
          cases hx
          exact Bool.eq_false_iff.mpr hc
        · rintro ⟨h, hds, -, -⟩
          cases ds with
          | nil => rw [List.nil_append] at h; rw [h]
          | cons d ds =>
            obtain ⟨rfl, -⟩ := List.cons.inj h
            exact absurd (hds c List.mem_cons_self) hc

/-- The text begins with no sign. -/
def NoSign (s : List Char) : Prop := ∀ c ∈ s.head?, c ≠ '+' ∧ c ≠ '-'

theorem spanSign_append {sign s : List Char} (hsign : IsSign sign) (hs : NoSign s) :
    spanSign (sign ++ s) = (sign, s) := by
  obtain rfl | rfl | rfl := hsign
  · cases s with
    | nil => rfl
    | cons c s =>
      obtain ⟨hplus, hminus⟩ := hs c rfl
      rw [List.nil_append, spanSign]
      · intro t ht
        exact hplus (List.cons.inj ht).1
      · intro t ht
        exact hminus (List.cons.inj ht).1
  · rfl
  · rfl

theorem noSign_of_digits {ds s : List Char} (hne : ds ≠ []) (hds : Digits ds) :
    NoSign (ds ++ s) := by
  intro c hc
  rw [List.head?_append_of_ne_nil _ hne] at hc
  have hdigit := hds c (List.mem_of_mem_head? hc)
  constructor
  · rintro rfl
    cases hdigit
  · rintro rfl
    cases hdigit

theorem spanSign_spec (s : List Char) :
    s = (spanSign s).1 ++ (spanSign s).2 ∧ IsSign (spanSign s).1 := by
  unfold spanSign
  split
  · exact ⟨rfl, .inr (.inl rfl)⟩
  · exact ⟨rfl, .inr (.inr rfl)⟩
  · exact ⟨rfl, .inl rfl⟩

theorem dropWhile_isspace_append {blanks s : List Char} (hb : Blanks blanks)
    (hs : ∀ c ∈ s.head?, isspace c = false) : (blanks ++ s).dropWhile isspace = s := by
  rw [List.dropWhile_append_of_pos hb]
  cases s with
  | nil => rfl
  | cons c s => rw [List.dropWhile_cons_of_neg]; simp [hs c rfl]

theorem blanks_dropWhile (s : List Char) :
    ∃ blanks, s = blanks ++ s.dropWhile isspace ∧ Blanks blanks :=
  ⟨s.takeWhile isspace, List.takeWhile_append_dropWhile.symm,
    List.all_eq_true.mp List.all_takeWhile⟩

/-- A text that `%Nd` reads as the number `n` before `rest`. -/
structure IntText (width : ℕ) (blanks sign ds rest : List Char) (n : ℤ) : Prop where
  isBlanks : Blanks blanks
  isSign : IsSign sign
  digits : Digits ds
  ne_nil : ds ≠ []
  length_le : sign.length + ds.length ≤ width
  maximal : sign.length + ds.length < width → NoDigit rest
  value : n = signed sign (ofDigits ds : ℤ)

/-- The text begins with blanks and the number `n`, and goes on with `rest`. -/
def IntField (width : ℕ) (s : List Char) (n : ℤ) (rest : List Char) : Prop :=
  ∃ blanks sign ds,
    s = blanks ++ (sign ++ (ds ++ rest)) ∧ IntText width blanks sign ds rest n

theorem readInt_iff {width : ℕ} {s rest : List Char} {n : ℤ} :
    readInt width s = some (n, rest) ↔ IntField width s n rest := by
  constructor
  · intro h
    obtain ⟨blanks, hs, hblanks⟩ := blanks_dropWhile s
    obtain ⟨hsplit, hsign⟩ := spanSign_spec (s.dropWhile isspace)
    simp only [readInt] at h
    generalize spanSign (s.dropWhile isspace) = p at h hsplit hsign
    obtain ⟨sign, t⟩ := p
    generalize hspan : spanDigits (width - sign.length) t = q at h
    obtain ⟨ds, rest'⟩ := q
    obtain ⟨rfl, hds, hlen, hmax⟩ := (spanDigits_iff _ _ _ _).mp hspan
    split at h
    · cases h
    next hne =>
      obtain ⟨rfl, rfl⟩ := Prod.mk.inj (Option.some.inj h)
      have hpos := List.length_pos_of_ne_nil hne
      dsimp only at hlen hmax hpos
      refine ⟨blanks, sign, ds, hs.trans (by rw [hsplit]), hblanks, hsign, hds, hne, ?_, ?_, rfl⟩
      · omega
      · intro hlt
        apply hmax
        omega
  · rintro ⟨blanks, sign, ds, rfl, h⟩
    have hhead : ∀ c ∈ (ds ++ rest).head?, c.isDigit = true := by
      intro c hc
      rw [List.head?_append_of_ne_nil _ h.ne_nil] at hc
      exact h.digits c (List.mem_of_mem_head? hc)
    have hskip : ∀ c ∈ (sign ++ (ds ++ rest)).head?, isspace c = false := by
      intro c hc
      obtain hnil | hplus | hminus := h.isSign
      · rw [hnil] at hc
        exact not_isspace_of_isDigit (hhead c hc)
      · rw [hplus] at hc
        cases hc
        rfl
      · rw [hminus] at hc
        cases hc
        rfl
    have hspan := (spanDigits_iff (width - sign.length) (ds ++ rest) ds rest).mpr
      ⟨rfl, h.digits, by have := h.length_le; omega, fun hlt => h.maximal (by omega)⟩
    rw [readInt, dropWhile_isspace_append h.isBlanks hskip,
      spanSign_append h.isSign (noSign_of_digits h.ne_nil h.digits)]
    simp only [hspan, h.value, if_neg h.ne_nil]

/-! ## Floating point -/

/-- What `%lf` stores, without rounding. -/
inductive Number where
  | finite (q : ℚ)
  | infinity (negative : Bool)
  | nan
deriving DecidableEq

inductive Base where
  | ten
  | sixteen
deriving DecidableEq

def Base.radix : Base → ℕ
  | .ten => 10
  | .sixteen => 16

def Base.digit? (b : Base) (c : Char) : Option ℕ :=
  if c.isDigit then some (digitVal c)
  else match b with
    | .ten => none
    | .sixteen =>
        let n := c.toLower.toNat
        if 97 ≤ n ∧ n ≤ 102 then some (n - 87) else none

/-- The letter before an exponent, and what is raised. -/
def Base.mark : Base → Char
  | .ten => 'e'
  | .sixteen => 'p'

def Base.raised : Base → ℚ
  | .ten => 10
  | .sixteen => 2

inductive Word where
  | infinity
  | nan
deriving DecidableEq

def Word.letters : Word → List Char
  | .infinity => ['i', 'n', 'f', 'i', 'n', 'i', 't', 'y']
  | .nan => ['n', 'a', 'n']

/-- What has been read of a floating-point number. -/
inductive Float where
  | start
  | signed (negative : Bool)
  /-- A zero that may begin `0x`. -/
  | zero (negative : Bool)
  | hex (negative : Bool)
  | integer (b : Base) (negative : Bool) (m : ℕ)
  /-- A point without a digit. -/
  | point (b : Base) (negative : Bool)
  | fraction (b : Base) (negative : Bool) (m places : ℕ)
  | mark (b : Base) (q : ℚ)
  | markSign (b : Base) (q : ℚ) (down : Bool)
  | exponent (b : Base) (q : ℚ) (down : Bool) (n : ℕ)
  | word (negative : Bool) (w : Word) (read : ℕ)
  | payload
  | closed
deriving DecidableEq

namespace Float

def negate (negative : Bool) (q : ℚ) : ℚ := if negative then -q else q

/-- The first character after the sign. -/
def stepUnsigned (negative : Bool) (c : Char) : Option Float :=
  if c = '0' then some (zero negative)
  else if c.isDigit then some (integer .ten negative (digitVal c))
  else if c = '.' then some (point .ten negative)
  else if c.toLower = 'i' then some (word negative .infinity 1)
  else if c.toLower = 'n' then some (word negative .nan 1)
  else none

/-- A digit, the point or the exponent after the integer `m`. -/
def stepInteger (b : Base) (negative : Bool) (m : ℕ) (c : Char) : Option Float :=
  match b.digit? c with
  | some d => some (integer b negative (b.radix * m + d))
  | none =>
      if c = '.' then some (fraction b negative m 0)
      else if c.toLower = b.mark then some (mark b (negate negative m))
      else none

def stepFraction (b : Base) (negative : Bool) (m places : ℕ) (c : Char) : Option Float :=
  match b.digit? c with
  | some d => some (fraction b negative (b.radix * m + d) (places + 1))
  | none =>
      if c.toLower = b.mark then some (mark b (negate negative (m / b.radix ^ places))) else none

/-- One more character; `none` if no number goes on so. -/
def step : Float → Char → Option Float
  | start, c =>
      if c = '+' then some (signed false)
      else if c = '-' then some (signed true)
      else stepUnsigned false c
  | signed negative, c => stepUnsigned negative c
  | zero negative, c =>
      if c.toLower = 'x' then some (hex negative) else stepInteger .ten negative 0 c
  | hex negative, c =>
      match Base.sixteen.digit? c with
      | some d => some (integer .sixteen negative d)
      | none => if c = '.' then some (point .sixteen negative) else none
  | integer b negative m, c => stepInteger b negative m c
  | point b negative, c => (b.digit? c).map fun d => fraction b negative d 1
  | fraction b negative m places, c => stepFraction b negative m places c
  | mark b q, c =>
      if c = '+' then some (markSign b q false)
      else if c = '-' then some (markSign b q true)
      else if c.isDigit then some (exponent b q false (digitVal c))
      else none
  | markSign b q down, c => if c.isDigit then some (exponent b q down (digitVal c)) else none
  | exponent b q down n, c =>
      if c.isDigit then some (exponent b q down (10 * n + digitVal c)) else none
  | word negative w read, c =>
      if w.letters[read]? = some c.toLower then some (word negative w (read + 1))
      else if w = .nan ∧ read = 3 ∧ c = '(' then some payload
      else none
  | payload, c =>
      if c = ')' then some closed
      else if c.isAlphanum ∨ c = '_' then some payload
      else none
  | closed, _ => none

/-- The number, if what has been read is one. -/
def value : Float → Option Number
  | zero _ => some (.finite 0)
  | integer _ negative m => some (.finite (negate negative m))
  | fraction b negative m places => some (.finite (negate negative (m / b.radix ^ places)))
  | exponent b q down n => some (.finite (if down then q / b.raised ^ n else q * b.raised ^ n))
  | word negative .infinity read =>
      if read = 3 ∨ read = 8 then some (.infinity negative) else none
  | word _ .nan read => if read = 3 then some .nan else none
  | closed => some .nan
  | _ => none

/-- Read on as far as a number can go on. -/
def run : Float → List Char → Float × List Char
  | q, [] => (q, [])
  | q, c :: s =>
      match q.step c with
      | some q' => run q' s
      | none => (q, c :: s)

/-- Read all of a text. -/
def eat : Float → List Char → Option Float
  | q, [] => some q
  | q, c :: s => (q.step c).bind fun q' => q'.eat s

/-- No number goes on with the text. -/
def Stops (q : Float) (s : List Char) : Prop := ∀ c ∈ s.head?, q.step c = none

theorem run_iff (q q' : Float) (s rest : List Char) :
    q.run s = (q', rest) ↔ ∃ n, s = n ++ rest ∧ q.eat n = some q' ∧ q'.Stops rest := by
  induction s generalizing q with
  | nil =>
    rw [run, Prod.mk.injEq]
    constructor
    · rintro ⟨rfl, rfl⟩
      exact ⟨[], rfl, rfl, by simp [Stops]⟩
    · rintro ⟨n, h, heat, -⟩
      obtain ⟨rfl, rfl⟩ := List.append_eq_nil_iff.mp h.symm
      exact ⟨Option.some.inj heat, rfl⟩
  | cons c s ih =>
    cases hstep : q.step c with
    | none =>
      simp only [run, hstep, Prod.mk.injEq]
      constructor
      · rintro ⟨rfl, rfl⟩
        refine ⟨[], rfl, rfl, ?_⟩
        intro x hx
        cases hx
        exact hstep
      · rintro ⟨n, h, heat, -⟩
        cases n with
        | nil => exact ⟨Option.some.inj heat, h⟩
        | cons d n =>
          obtain ⟨rfl, -⟩ := List.cons.inj h
          rw [eat, hstep] at heat
          cases heat
    | some p =>
      simp only [run, hstep]
      rw [ih]
      constructor
      · rintro ⟨n, rfl, heat, hstops⟩
        refine ⟨c :: n, rfl, ?_, hstops⟩
        rw [eat, hstep]
        exact heat
      · rintro ⟨n, h, heat, hstops⟩
        cases n with
        | nil =>
          obtain rfl := Option.some.inj heat
          rw [List.nil_append] at h
          subst h
          rw [hstops c rfl] at hstep
          cases hstep
        | cons d n =>
          obtain ⟨rfl, rfl⟩ := List.cons.inj h
          rw [eat, hstep] at heat
          exact ⟨n, rfl, heat, hstops⟩

theorem eat_append (q : Float) (xs ys : List Char) :
    q.eat (xs ++ ys) = (q.eat xs).bind fun p => p.eat ys := by
  induction xs generalizing q with
  | nil => rfl
  | cons c xs ih =>
    rw [List.cons_append, eat, eat]
    cases q.step c with
    | none => rfl
    | some p => exact ih p

/-- A comma belongs to no number. -/
theorem step_comma (q : Float) : q.step ',' = none := by
  cases q with
  | word negative w read =>
    have hletters : ',' ∉ w.letters := by cases w <;> decide
    rw [step, if_neg, if_neg]
    · simp
    · intro h
      exact hletters (List.mem_of_getElem? h)
  | integer b => cases b <;> rfl
  | point b => cases b <;> rfl
  | fraction b => cases b <;> rfl
  | _ => rfl

theorem step_start_isspace {c : Char} (h : isspace c = true) : start.step c = none :=
  isspace_cases (P := fun c => start.step c = none) h (by decide)

end Float

/-- `%lf` -/
def readFloat (s : List Char) : Option (Number × List Char) :=
  let (q, rest) := Float.start.run (s.dropWhile isspace)
  q.value.map fun x => (x, rest)

/-- A text that `%lf` reads as the number `x` before `rest`. -/
structure FloatText (blanks n rest : List Char) (x : Number) : Prop where
  isBlanks : Blanks blanks
  number : ∃ q, Float.start.eat n = some q ∧ q.Stops rest ∧ q.value = some x

def FloatField (s : List Char) (x : Number) (rest : List Char) : Prop :=
  ∃ blanks n, s = blanks ++ (n ++ rest) ∧ FloatText blanks n rest x

theorem readFloat_iff {s rest : List Char} {x : Number} :
    readFloat s = some (x, rest) ↔ FloatField s x rest := by
  constructor
  · intro h
    obtain ⟨blanks, hs, hblanks⟩ := blanks_dropWhile s
    simp only [readFloat] at h
    generalize hrun : Float.start.run (s.dropWhile isspace) = p at h
    obtain ⟨q, rest'⟩ := p
    obtain ⟨n, hn, heat, hstops⟩ := (Float.run_iff _ _ _ _).mp hrun
    obtain ⟨y, hy, hpair⟩ := Option.map_eq_some_iff.mp h
    obtain ⟨rfl, rfl⟩ := Prod.mk.inj hpair
    exact ⟨blanks, n, hs.trans (by rw [hn]), hblanks, q, heat, hstops, hy⟩
  · rintro ⟨blanks, n, rfl, hblanks, q, heat, hstops, hx⟩
    have hskip : ∀ c ∈ (n ++ rest).head?, isspace c = false := by
      cases n with
      | nil =>
        obtain rfl := Option.some.inj heat
        cases hx
      | cons d n =>
        intro c hc
        cases hc
        by_contra hspace
        rw [Float.eat, Float.step_start_isspace (Bool.eq_true_of_not_eq_false hspace)] at heat
        cases heat
    rw [readFloat, dropWhile_isspace_append hblanks hskip]
    have hrun := (Float.run_iff Float.start q (n ++ rest) rest).mpr ⟨n, rfl, heat, hstops⟩
    simp only [hrun, hx, Option.map_some]

/-! ## Formats -/

inductive Directive where
  | c
  | d (width : ℕ)
  | lf
  | ordinary (a : Char)
deriving DecidableEq

inductive Value where
  | char (c : Char)
  | int (n : ℤ)
  | float (x : Number)
deriving DecidableEq

/-- What a directive stores, and what it leaves of the text. -/
def Directive.read : Directive → List Char → Option (Option Value × List Char)
  | .c, [] => none
  | .c, a :: s => some (some (.char a), s)
  | .d width, s => (readInt width s).map fun p => (some (.int p.1), p.2)
  | .lf, s => (readFloat s).map fun p => (some (.float p.1), p.2)
  | .ordinary _, [] => none
  | .ordinary a, b :: s => if b = a then some (none, s) else none

/-- The values that are stored before a directive fails. -/
def sscanf : List Directive → List Char → List Value
  | [], _ => []
  | d :: ds, s =>
      match d.read s with
      | none => []
      | some (v, rest) => v.toList ++ sscanf ds rest

theorem sscanf_c {ds : List Directive} {s : List Char} {v : Value} {vs : List Value} :
    sscanf (.c :: ds) s = v :: vs ↔ ∃ a t, s = a :: t ∧ v = .char a ∧ sscanf ds t = vs := by
  cases s with
  | nil => simp [sscanf, Directive.read]
  | cons a s => simp [sscanf, Directive.read, eq_comm]

theorem sscanf_d {w : ℕ} {ds : List Directive} {s : List Char} {v : Value} {vs : List Value} :
    sscanf (.d w :: ds) s = v :: vs ↔
      ∃ n t, readInt w s = some (n, t) ∧ v = .int n ∧ sscanf ds t = vs := by
  cases h : readInt w s with
  | none => simp [sscanf, Directive.read, h]
  | some p => simp [sscanf, Directive.read, h, Prod.ext_iff, eq_comm, and_assoc]

theorem sscanf_lf {ds : List Directive} {s : List Char} {v : Value} {vs : List Value} :
    sscanf (.lf :: ds) s = v :: vs ↔
      ∃ x t, readFloat s = some (x, t) ∧ v = .float x ∧ sscanf ds t = vs := by
  cases h : readFloat s with
  | none => simp [sscanf, Directive.read, h]
  | some p => simp [sscanf, Directive.read, h, Prod.ext_iff, eq_comm, and_assoc]

theorem sscanf_ordinary {a : Char} {ds : List Directive} {s : List Char} {v : Value}
    {vs : List Value} :
    sscanf (.ordinary a :: ds) s = v :: vs ↔ ∃ t, s = a :: t ∧ sscanf ds t = v :: vs := by
  cases s with
  | nil => simp [sscanf, Directive.read]
  | cons b s =>
    by_cases h : b = a
    · simp [sscanf, Directive.read, h]
    · simp [sscanf, Directive.read, h]

end Kbox.Framework.Scanf
