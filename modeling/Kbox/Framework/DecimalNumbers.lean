import Kbox.Framework.Scanf
import Mathlib.Algebra.Order.Field.Basic
import Mathlib.Tactic.FieldSimp
import Mathlib.Tactic.Linarith

/-!
# Decimal numbers

A decimal number is a sign, digits and perhaps a point with more digits.  `%lf` reads it with its
value.  What a part of its digits says bounds the value.
-/

namespace Kbox.Framework.Scanf

/-- A sign, digits, and a point with more digits if `tail` is not empty. -/
structure DecimalText (sign i f tail : List Char) : Prop where
  isSign : IsSign sign
  integer : Digits i
  fraction : Digits f
  ne_nil : i ++ f ≠ []
  point : tail = '.' :: f ∨ tail = [] ∧ f = []

def decimalValue (sign i f : List Char) : ℚ := signed sign ((ofDigits (i ++ f) : ℚ) / 10 ^ f.length)

namespace Float

theorem digit?_of_isDigit (b : Base) {c : Char} (h : c.isDigit = true) :
    b.digit? c = some (digitVal c) := if_pos h

theorem eat_integer {negative : Bool} {ds : List Char} (h : Digits ds) (m : ℕ) :
    (integer .ten negative m).eat ds =
      some (integer .ten negative (m * 10 ^ ds.length + ofDigits ds)) := by
  induction ds generalizing m with
  | nil => simp [eat, ofDigits]
  | cons c ds ih =>
    obtain ⟨hc, hds⟩ := List.forall_mem_cons.mp h
    have hstep : (integer .ten negative m).step c =
        some (integer .ten negative (10 * m + digitVal c)) := by
      rw [step, stepInteger, digit?_of_isDigit _ hc]
      rfl
    rw [eat, hstep, Option.bind_some, ih hds, ofDigits_cons, List.length_cons, pow_succ]
    congr 2
    ring

theorem eat_fraction {negative : Bool} {ds : List Char} (h : Digits ds) (m places : ℕ) :
    (fraction .ten negative m places).eat ds =
      some (fraction .ten negative (m * 10 ^ ds.length + ofDigits ds) (places + ds.length)) := by
  induction ds generalizing m places with
  | nil => simp [eat, ofDigits]
  | cons c ds ih =>
    obtain ⟨hc, hds⟩ := List.forall_mem_cons.mp h
    have hstep : (fraction .ten negative m places).step c =
        some (fraction .ten negative (10 * m + digitVal c) (places + 1)) := by
      rw [step, stepFraction, digit?_of_isDigit _ hc]
      rfl
    rw [eat, hstep, Option.bind_some, ih hds, ofDigits_cons, List.length_cons, pow_succ]
    congr 2
    · ring
    · ring

/-- Digits have been read that denote `m`. -/
def HasInteger (negative : Bool) (m : ℕ) (q : Float) : Prop :=
  q = integer .ten negative m ∨ q = zero negative ∧ m = 0

theorem HasInteger.value {negative : Bool} {m : ℕ} {q : Float} (h : HasInteger negative m q) :
    q.value = some (.finite (negate negative m)) := by
  obtain rfl | ⟨rfl, rfl⟩ := h
  · rfl
  · cases negative <;> simp [Float.value, negate]

theorem HasInteger.step_point {negative : Bool} {m : ℕ} {q : Float}
    (h : HasInteger negative m q) : q.step '.' = some (fraction .ten negative m 0) := by
  obtain rfl | ⟨rfl, rfl⟩ := h
  · rfl
  · rfl

theorem eat_unsigned {negative : Bool} {p : Float} {c : Char} {i : List Char}
    (hp : p.step c = stepUnsigned negative c) (h : Digits (c :: i)) :
    ∃ q, p.eat (c :: i) = some q ∧ HasInteger negative (ofDigits (c :: i)) q := by
  obtain ⟨hc, hi⟩ := List.forall_mem_cons.mp h
  rw [eat, hp, stepUnsigned]
  by_cases hzero : c = '0'
  · rw [if_pos hzero, Option.bind_some, hzero, ofDigits_cons]
    cases i with
    | nil => exact ⟨_, rfl, .inr ⟨rfl, rfl⟩⟩
    | cons d i =>
      obtain ⟨hd, hi⟩ := List.forall_mem_cons.mp hi
      have hx : d.toLower ≠ 'x' := isDigit_cases (P := fun d => d.toLower ≠ 'x') hd (by decide)
      have hstep : (zero negative).step d = some (integer .ten negative (digitVal d)) := by
        rw [step, if_neg hx, stepInteger, digit?_of_isDigit _ hd]
        simp
      rw [eat, hstep, Option.bind_some, eat_integer hi]
      refine ⟨_, rfl, .inl ?_⟩
      rw [ofDigits_cons]
      simp [digitVal]
  · rw [if_neg hzero, if_pos hc, Option.bind_some, eat_integer hi, ofDigits_cons]
    exact ⟨_, rfl, .inl rfl⟩

theorem eat_decimal_unsigned {negative : Bool} {p : Float} {i f tail : List Char}
    (hp : ∀ c, c.isDigit = true ∨ c = '.' → p.step c = stepUnsigned negative c)
    (hi : Digits i) (hf : Digits f) (hne : i ++ f ≠ [])
    (htail : tail = '.' :: f ∨ tail = [] ∧ f = []) :
    ∃ q, p.eat (i ++ tail) = some q ∧
      q.value = some (.finite (negate negative ((ofDigits (i ++ f) : ℚ) / 10 ^ f.length))) := by
  cases i with
  | nil =>
    cases f with
    | nil => exact absurd rfl hne
    | cons c f =>
      obtain rfl : tail = '.' :: c :: f := htail.resolve_right fun h => by cases h.2
      obtain ⟨hc, hf⟩ := List.forall_mem_cons.mp hf
      have hpoint : p.step '.' = some (point .ten negative) := (hp '.' (.inr rfl)).trans rfl
      have hstep : (point .ten negative).step c =
          some (fraction .ten negative (digitVal c) 1) := by
        rw [step, digit?_of_isDigit _ hc]
        rfl
      rw [List.nil_append, eat, hpoint, Option.bind_some, eat, hstep, Option.bind_some,
        eat_fraction hf]
      refine ⟨_, rfl, ?_⟩
      rw [List.nil_append, ofDigits_cons, value, Nat.add_comm 1, List.length_cons]
      rfl
  | cons c i =>
    have hc := hi c List.mem_cons_self
    obtain ⟨q, heat, hq⟩ := eat_unsigned (hp c (.inl hc)) hi
    obtain rfl | ⟨rfl, rfl⟩ := htail
    · rw [eat_append, heat, Option.bind_some, eat, hq.step_point, Option.bind_some,
        eat_fraction hf]
      refine ⟨_, rfl, ?_⟩
      rw [ofDigits_append, value, Nat.zero_add]
      rfl
    · refine ⟨q, by rw [List.append_nil]; exact heat, ?_⟩
      rw [hq.value, List.append_nil]
      simp

/-- `%lf` reads a decimal number, with its value. -/
theorem eat_decimal {sign i f tail : List Char} (h : DecimalText sign i f tail) :
    ∃ q, start.eat (sign ++ (i ++ tail)) = some q ∧
      q.value = some (.finite (decimalValue sign i f)) := by
  have hstart : ∀ c, c.isDigit = true ∨ c = '.' → start.step c = stepUnsigned false c := by
    rintro c (hc | rfl)
    · have hplus : c ≠ '+' := by rintro rfl; cases hc
      have hminus : c ≠ '-' := by rintro rfl; cases hc
      rw [step, if_neg hplus, if_neg hminus]
    · rfl
  obtain ⟨hsign, hi, hf, hne, htail⟩ := h
  obtain rfl | rfl | rfl := hsign
  · exact eat_decimal_unsigned hstart hi hf hne htail
  · exact eat_decimal_unsigned (p := signed false) (fun c _ => rfl) hi hf hne htail
  · exact eat_decimal_unsigned (p := signed true) (fun c _ => rfl) hi hf hne htail

end Float

/-! ## Its characters -/

theorem split_of_not_mem {a : Char} {X Y U V : List Char} (h : X ++ U = Y ++ a :: V)
    (hX : a ∉ X) : ∃ Z, Y = X ++ Z ∧ U = Z ++ a :: V := by
  obtain ⟨Z, hY, hU⟩ | ⟨Z, rfl, hV⟩ := List.append_eq_append_iff.mp h
  · exact ⟨Z, hY, hU⟩
  · cases Z with
    | nil => exact ⟨[], by simp, by simpa using hV.symm⟩
    | cons z Z =>
      obtain ⟨rfl, -⟩ := List.cons.inj hV
      exact absurd (by simp) hX

theorem not_mem_of_digits {a : Char} {ds : List Char} (h : Digits ds) (ha : a.isDigit = false) :
    a ∉ ds := fun hmem => by
  rw [h a hmem] at ha
  cases ha

/-- Digits that go on after some of the digits before the point. -/
theorem DecimalText.split_integer (before : List Char) {sign i f tail X U : List Char}
    (h : DecimalText sign (before ++ i) f tail) (hX : Digits X) (heq : i ++ tail = X ++ U) :
    ∃ Z, i = X ++ Z := by
  obtain rfl | ⟨rfl, -⟩ := h.point
  · obtain ⟨Z, hi, -⟩ := split_of_not_mem heq.symm (not_mem_of_digits hX rfl)
    exact ⟨Z, hi⟩
  · exact ⟨U, by rw [← heq, List.append_nil]⟩

/-- A character of a decimal number. -/
def InDecimal (c : Char) : Prop := c.isDigit = true ∨ c = '.'

theorem DecimalText.inDecimal {sign i f tail : List Char} (h : DecimalText sign i f tail) :
    ∀ c ∈ i ++ tail, InDecimal c := by
  intro c hc
  rcases List.mem_append.mp hc with hc | hc
  · exact .inl (h.integer c hc)
  · obtain rfl | ⟨rfl, -⟩ := h.point
    · rcases List.mem_cons.mp hc with rfl | hc
      · exact .inr rfl
      · exact .inl (h.fraction c hc)
    · cases hc

theorem InDecimal.not_isspace {c : Char} (h : InDecimal c) : isspace c = false := by
  obtain h | rfl := h
  · exact not_isspace_of_isDigit h
  · rfl

theorem InDecimal.ne_sign {c : Char} (h : InDecimal c) : c ≠ '+' ∧ c ≠ '-' := by
  constructor
  · rintro rfl
    obtain h | h := h <;> cases h
  · rintro rfl
    obtain h | h := h <;> cases h

/-- A sign whose characters all belong to the digits and the point is empty. -/
theorem IsSign.eq_nil {sign : List Char} (h : IsSign sign) (hall : ∀ c ∈ sign, InDecimal c) :
    sign = [] := by
  obtain rfl | rfl | rfl := h
  · rfl
  · exact absurd rfl (hall _ List.mem_cons_self).ne_sign.1
  · exact absurd rfl (hall _ List.mem_cons_self).ne_sign.2

theorem DecimalText.noSign {sign i f tail : List Char} (h : DecimalText sign i f tail) :
    NoSign (i ++ tail) := fun c hc => (h.inDecimal c (List.mem_of_mem_head? hc)).ne_sign

theorem DecimalText.append_ne_nil {sign i f tail : List Char} (h : DecimalText sign i f tail) :
    i ++ tail ≠ [] := by
  intro hnil
  obtain ⟨rfl, rfl⟩ := List.append_eq_nil_iff.mp hnil
  obtain hcons | ⟨-, rfl⟩ := h.point
  · cases hcons
  · exact h.ne_nil rfl

/-- Only the first character can be a sign. -/
theorem DecimalText.tail_inDecimal {sign i f tail r : List Char} {c : Char}
    (h : DecimalText sign i f tail) (heq : sign ++ (i ++ tail) = c :: r) :
    ∀ x ∈ r, InDecimal x := by
  intro x hx
  apply h.inDecimal
  obtain rfl | rfl | rfl := h.isSign
  · rw [List.nil_append] at heq
    rw [heq]
    exact List.mem_cons_of_mem _ hx
  · rw [← (List.cons.inj heq).2] at hx
    exact hx
  · rw [← (List.cons.inj heq).2] at hx
    exact hx

/-- All of the digits are zeros. -/
def Zeros (s : List Char) : Prop := ∀ c ∈ s, c.isDigit = true → c = '0'

theorem ofDigits_of_zeros {s ds : List Char} (h : Zeros s) (hds : Digits ds) (hsub : ds ⊆ s) :
    ofDigits ds = 0 :=
  (ofDigits_eq_zero hds).mpr fun c hc => h c (hsub hc) (hds c hc)

theorem DecimalText.zeros_iff {sign i f tail : List Char} (h : DecimalText sign i f tail) :
    Zeros (sign ++ (i ++ tail)) ↔ ofDigits (i ++ f) = 0 := by
  have hdigits : Digits (i ++ f) := by
    intro c hc
    rcases List.mem_append.mp hc with hc | hc
    · exact h.integer c hc
    · exact h.fraction c hc
  rw [ofDigits_eq_zero hdigits]
  constructor
  · intro hz c hc
    refine hz c ?_ (hdigits c hc)
    apply List.mem_append_right
    rcases List.mem_append.mp hc with hc | hc
    · exact List.mem_append_left _ hc
    · obtain rfl | ⟨-, rfl⟩ := h.point
      · exact List.mem_append_right _ (List.mem_cons_of_mem _ hc)
      · cases hc
  · intro hz c hc hdigit
    rcases List.mem_append.mp hc with hc | hc
    · obtain rfl | rfl | rfl := h.isSign
      · cases hc
      · rw [List.mem_singleton.mp hc] at hdigit
        cases hdigit
      · rw [List.mem_singleton.mp hc] at hdigit
        cases hdigit
    · rcases List.mem_append.mp hc with hc | hc
      · exact hz c (List.mem_append_left _ hc)
      · obtain rfl | ⟨rfl, -⟩ := h.point
        · rcases List.mem_cons.mp hc with rfl | hc
          · cases hdigit
          · exact hz c (List.mem_append_right _ hc)
        · cases hc

theorem decimalValue_zero {sign i f : List Char} (h : ofDigits (i ++ f) = 0) :
    decimalValue sign i f = 0 := by
  rw [decimalValue, h]
  simp [signed]

/-! ## Its size -/

theorem abs_decimalValue (sign i f : List Char) :
    |decimalValue sign i f| = (ofDigits (i ++ f) : ℚ) / 10 ^ f.length := by
  have hnonneg : (0 : ℚ) ≤ (ofDigits (i ++ f) : ℚ) / 10 ^ f.length := by positivity
  rw [decimalValue, signed]
  split
  · rw [abs_neg, abs_of_nonneg hnonneg]
  · exact abs_of_nonneg hnonneg

theorem ofDigits_le_append (xs ys : List Char) : ofDigits ys ≤ ofDigits (xs ++ ys) := by
  rw [ofDigits_append]
  exact Nat.le_add_left _ _

/-- Two numbers that begin a part of the digits before the point. -/
theorem le_abs_decimalValue (sign before d₁ d₂ i f : List Char) (hd₂ : d₂ ≠ []) :
    (10 * ofDigits d₁ + ofDigits d₂ : ℚ) ≤
      |decimalValue sign (before ++ (d₁ ++ (d₂ ++ i))) f| := by
  have hlen := List.length_pos_of_ne_nil hd₂
  have hint : 10 * ofDigits d₁ + ofDigits d₂ ≤ ofDigits (before ++ (d₁ ++ (d₂ ++ i))) := by
    calc 10 * ofDigits d₁ + ofDigits d₂
        ≤ ofDigits d₁ * 10 ^ d₂.length + ofDigits d₂ := by
          have hten : 10 ^ 1 ≤ 10 ^ d₂.length := Nat.pow_le_pow_right (by decide) hlen
          have := Nat.mul_le_mul_left (ofDigits d₁) hten
          omega
      _ = ofDigits (d₁ ++ d₂) := (ofDigits_append d₁ d₂).symm
      _ ≤ ofDigits (d₁ ++ d₂) * 10 ^ i.length + ofDigits i :=
          (Nat.le_mul_of_pos_right _ (by positivity)).trans (Nat.le_add_right _ _)
      _ = ofDigits (d₁ ++ (d₂ ++ i)) := by rw [← ofDigits_append, List.append_assoc]
      _ ≤ ofDigits (before ++ (d₁ ++ (d₂ ++ i))) := ofDigits_le_append _ _
  rw [abs_decimalValue, ofDigits_append _ f, le_div_iff₀ (by positivity)]
  have hcast : (10 * ofDigits d₁ + ofDigits d₂ : ℚ) ≤ ofDigits (before ++ (d₁ ++ (d₂ ++ i))) := by
    exact_mod_cast hint
  push_cast
  have hpow : (0 : ℚ) ≤ 10 ^ f.length := by positivity
  have hmul := mul_le_mul_of_nonneg_right hcast hpow
  have hrest : (0 : ℚ) ≤ ofDigits f := by positivity
  linarith

/-- Degrees and minutes are no such number, unless all of them are zero. -/
theorem eq_zero_of_degrees {v : ℚ} {a b : ℕ} (hle : (10 * a + b : ℚ) ≤ v) (heq : v = a + b / 60) :
    v = 0 := by
  have ha : (0 : ℚ) ≤ a := by positivity
  have hb : (0 : ℚ) ≤ b := by positivity
  linarith

/-- So are they with the sign before the degrees alone. -/
theorem eq_zero_of_signed {sign : List Char} {v : ℚ} {a b : ℕ} (hle : (10 * a + b : ℚ) ≤ |v|)
    (hv : v = signed sign |v|) (heq : v = signed sign (a : ℚ) + b / 60) : |v| = 0 := by
  have ha : (0 : ℚ) ≤ a := by positivity
  have hb : (0 : ℚ) ≤ b := by positivity
  rw [signed] at hv heq
  split at heq
  next hsign =>
    rw [if_pos hsign] at hv
    linarith
  next hsign =>
    rw [if_neg hsign] at hv
    linarith

theorem decimalValue_eq_signed (sign i f : List Char) :
    decimalValue sign i f = signed sign |decimalValue sign i f| := by
  rw [abs_decimalValue, decimalValue]

/-- Two digits, and more, after the point are no degrees and minutes either. -/
theorem eq_zero_of_fraction {sign d₁ d₂ f : List Char} (hd₁ : d₁.length = 2) (hd₂ : d₂ ≠ [])
    (hf : Digits f)
    (heq : |decimalValue sign [] (d₁ ++ (d₂ ++ f))| = ofDigits d₁ + (ofDigits d₂ : ℚ) / 60) :
    |decimalValue sign [] (d₁ ++ (d₂ ++ f))| = 0 := by
  have hlen := List.length_pos_of_ne_nil hd₂
  have hK : 10 ≤ 10 ^ d₂.length := Nat.pow_le_pow_right (n := 10) (by decide) hlen
  have hg := ofDigits_lt hf
  have hnat : ofDigits (d₁ ++ (d₂ ++ f)) * 60 =
      (60 * ofDigits d₁ + ofDigits d₂) * 10 ^ (d₁ ++ (d₂ ++ f)).length := by
    have hrat := heq
    rw [abs_decimalValue, List.nil_append, div_eq_iff (by positivity)] at hrat
    have hrat' : (ofDigits (d₁ ++ (d₂ ++ f)) * 60 : ℚ) =
        (60 * ofDigits d₁ + ofDigits d₂) * 10 ^ (d₁ ++ (d₂ ++ f)).length := by
      rw [hrat]
      ring
    exact_mod_cast hrat'
  simp only [ofDigits_append, List.length_append, hd₁, pow_add] at hnat
  generalize ofDigits d₁ = a at hnat heq
  generalize ofDigits d₂ = b at hnat heq
  generalize 10 ^ d₂.length = K at hnat hK
  generalize 10 ^ f.length = N at hnat hg
  have hC : 10 * (b * N) ≤ b * K * N := by
    calc 10 * (b * N) = b * 10 * N := by ring
      _ ≤ b * K * N := Nat.mul_le_mul_right _ (Nat.mul_le_mul_left _ hK)
  have hsum : 60 * (a * (K * N)) + 60 * (b * N) + 60 * ofDigits f =
      6000 * (a * (K * N)) + 100 * (b * K * N) := by
    calc 60 * (a * (K * N)) + 60 * (b * N) + 60 * ofDigits f
        = (a * (K * N) + (b * N + ofDigits f)) * 60 := by ring
      _ = (60 * a + b) * (10 ^ 2 * (K * N)) := hnat
      _ = 6000 * (a * (K * N)) + 100 * (b * K * N) := by ring
  have ha : a = 0 := by
    by_contra hne
    have hA : 1 * (1 * N) ≤ a * (K * N) :=
      Nat.mul_le_mul (Nat.pos_of_ne_zero hne) (Nat.mul_le_mul_right _ (by omega))
    omega
  have hb : b = 0 := by
    by_contra hne
    have hB : 1 * N ≤ b * N := Nat.mul_le_mul_right _ (Nat.pos_of_ne_zero hne)
    omega
  rw [heq, ha, hb]
  simp

theorem ofDigits_of_abs (sign : List Char) {i f : List Char} (h : |decimalValue sign i f| = 0) :
    ofDigits (i ++ f) = 0 := by
  rw [abs_decimalValue] at h
  have hpow : (10 : ℚ) ^ f.length ≠ 0 := by positivity
  have hzero := (div_eq_zero_iff.mp h).resolve_right hpow
  exact_mod_cast hzero

/-! ## Fields -/

theorem IntField.zero {w : ℕ} {s rest : List Char} {n : ℤ} (h : IntField w s n rest)
    (hs : Zeros s) : n = 0 ∧ Zeros rest := by
  obtain ⟨blanks, sign, ds, rfl, h⟩ := h
  constructor
  · have hds := ofDigits_of_zeros hs h.digits fun c hc => by simp [hc]
    rw [h.value, hds, signed]
    split <;> rfl
  · exact fun c hc => hs c (by simp [hc])

/-- No character of the text is a blank. -/
def NoBlank (s : List Char) : Prop := ∀ c ∈ s, isspace c = false

theorem IntField.noBlank {w : ℕ} {s rest : List Char} {n : ℤ} (h : IntField w s n rest)
    (hs : NoBlank s) :
    ∃ sign ds, s = sign ++ (ds ++ rest) ∧ IntText w [] sign ds rest n ∧ NoBlank rest := by
  obtain ⟨blanks, sign, ds, rfl, h⟩ := h
  cases blanks with
  | nil => exact ⟨sign, ds, rfl, h, fun c hc => hs c (by simp [hc])⟩
  | cons c blanks =>
    have hc := h.isBlanks c List.mem_cons_self
    rw [hs c (by simp)] at hc
    cases hc

section Text

variable {w w' : ℕ} {b b' sign sign' ds ds' rest rest' : List Char} {n n' : ℤ}

theorem IntText.cast_value (h : IntText w b sign ds rest n) :
    (n : ℚ) = signed sign (ofDigits ds : ℚ) := by
  rw [h.value, signed, signed]
  split <;> simp

theorem IntText.comma_not_mem (h : IntText w b sign ds rest n) : ',' ∉ sign ++ ds := by
  intro hmem
  rcases List.mem_append.mp hmem with hmem | hmem
  · obtain rfl | rfl | rfl := h.isSign
    · cases hmem
    · cases List.mem_singleton.mp hmem
    · cases List.mem_singleton.mp hmem
  · exact not_mem_of_digits h.digits rfl hmem

/-- Two fields before a comma lie before it together. -/
theorem IntText.split_comma {U Y V : List Char} (h : IntText w b sign ds rest n)
    (h' : IntText w' b' sign' ds' rest' n')
    (heq : sign ++ (ds ++ (sign' ++ (ds' ++ U))) = Y ++ ',' :: V) :
    ∃ Z, Y = sign ++ (ds ++ (sign' ++ (ds' ++ Z))) ∧ U = Z ++ ',' :: V := by
  have hcomma : ',' ∉ (sign ++ ds) ++ (sign' ++ ds') := by
    intro hmem
    rcases List.mem_append.mp hmem with hmem | hmem
    · exact h.comma_not_mem hmem
    · exact h'.comma_not_mem hmem
  have hassoc : (sign ++ ds) ++ (sign' ++ ds') ++ U = Y ++ ',' :: V := by
    rw [← heq]
    simp only [List.append_assoc]
  obtain ⟨Z, hY, hU⟩ := split_of_not_mem hassoc hcomma
  exact ⟨Z, by rw [hY]; simp only [List.append_assoc], hU⟩

/-- A field that a digit follows is full. -/
theorem IntText.length_eq (h : IntText w b [] ds (ds' ++ rest') n) (hne : ds' ≠ [])
    (hds' : Digits ds') : ds.length = w := by
  have hle := h.length_le
  have hmax := h.maximal
  rw [List.length_nil, Nat.zero_add] at hle hmax
  refine hle.antisymm (Nat.le_of_not_lt fun hlt => ?_)
  cases ds' with
  | nil => exact hne rfl
  | cons c ds' =>
    have hc := hds' c List.mem_cons_self
    rw [hmax hlt c rfl] at hc
    cases hc

end Text

theorem Zeros.append_comma {xs ys : List Char} (hx : Zeros xs) (hy : Zeros ys) :
    Zeros (xs ++ ',' :: ys) := by
  intro c hc hdigit
  rcases List.mem_append.mp hc with hc | hc
  · exact hx c hc hdigit
  · rcases List.mem_cons.mp hc with rfl | hc
    · cases hdigit
    · exact hy c hc hdigit

end Kbox.Framework.Scanf
