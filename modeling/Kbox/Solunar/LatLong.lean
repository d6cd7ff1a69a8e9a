import Kbox.Framework.DecimalNumbers

/-!
# `latlong.c`

`LatLong_new_parse` tries a format of degrees and minutes and one of two decimal numbers.  The
manual allows `+DDMM+DDDMM` with exactly four and five digits and two fractional numbers of
degrees; the formats also take what is no such string.
-/

namespace Kbox.Solunar

open Kbox.Framework.Scanf

structure LatLong where
  lat : Number
  longt : Number
deriving DecidableEq

namespace LatLong

/-- `LatLong_new_deg_min` -/
def new_deg_min (lat_deg lat_min : ℤ) (lat_south : Bool) (long_deg long_min : ℤ)
    (long_south : Bool) : LatLong :=
  let longt : ℚ := long_deg + long_min / 60
  let lat : ℚ := lat_deg + lat_min / 60
  let lat := if lat_south then -lat else lat
  let longt := if long_south then -longt else longt
  ⟨.finite lat, .finite longt⟩

/-- `"%c%2d%2d%c%3d%2d"` -/
def degMin : List Directive := [.c, .d 2, .d 2, .c, .d 3, .d 2]

/-- `"%lf,%lf"` -/
def pair : List Directive := [.lf, .ordinary ',', .lf]

def error : String := "Can't parse latitude/longitude string"

/-- `LatLong_new_parse` -/
def new_parse (s : List Char) : Except String LatLong :=
  match sscanf degMin s with
  | [.char lat_sign, .int lat_deg, .int lat_min, .char long_sign, .int long_deg,
      .int long_min] =>
      .ok (new_deg_min lat_deg lat_min (lat_sign = '-') long_deg long_min (long_sign = '-'))
  | _ =>
      match sscanf pair s with
      | [.float lat, .float longt] => .ok ⟨lat, longt⟩
      | _ => .error error

/-! ## The documented strings -/

/-- `+DDMM+DDDMM`, and what it denotes. -/
def Compact (s : List Char) (l : LatLong) : Prop :=
  ∃ c₁ d₁ m₁ c₂ d₂ m₂, s = c₁ :: (d₁ ++ m₁ ++ c₂ :: (d₂ ++ m₂)) ∧
    (c₁ = '+' ∨ c₁ = '-') ∧ Digits d₁ ∧ d₁.length = 2 ∧ Digits m₁ ∧ m₁.length = 2 ∧
    (c₂ = '+' ∨ c₂ = '-') ∧ Digits d₂ ∧ d₂.length = 3 ∧ Digits m₂ ∧ m₂.length = 2 ∧
    l = ⟨.finite (signed [c₁] ((ofDigits d₁ : ℚ) + ofDigits m₁ / 60)),
      .finite (signed [c₂] ((ofDigits d₂ : ℚ) + ofDigits m₂ / 60))⟩

/-- `DD.DD,DD.DD`, and what it denotes. -/
def Decimals (s : List Char) (l : LatLong) : Prop :=
  ∃ sign₁ i₁ f₁ tail₁ sign₂ i₂ f₂ tail₂,
    s = sign₁ ++ (i₁ ++ tail₁) ++ ',' :: (sign₂ ++ (i₂ ++ tail₂)) ∧
    DecimalText sign₁ i₁ f₁ tail₁ ∧ DecimalText sign₂ i₂ f₂ tail₂ ∧
    l = ⟨.finite (decimalValue sign₁ i₁ f₁), .finite (decimalValue sign₂ i₂ f₂)⟩

def Documented (s : List Char) (l : LatLong) : Prop := Compact s l ∨ Decimals s l

/-- The string gives its value if it is documented, and the error otherwise. -/
def AsDocumented (s : List Char) : Prop :=
  (∀ l, Documented s l → new_parse s = .ok l) ∧
    ((∀ l, ¬ Documented s l) → new_parse s = .error error)

/-! ## What the formats take -/

/-- The string begins with a character and two numbers, and again a character and two numbers. -/
def TakenAs (s : List Char) (c₁ : Char) (n₁ n₂ : ℤ) (c₂ : Char) (n₃ n₄ : ℤ) : Prop :=
  ∃ s₁ s₂ s₃ s₄ rest, s = c₁ :: s₁ ∧ IntField 2 s₁ n₁ s₂ ∧ IntField 2 s₂ n₂ (c₂ :: s₃) ∧
    IntField 3 s₃ n₃ s₄ ∧ IntField 2 s₄ n₄ rest

def TakenAsDegrees (s : List Char) : Prop := ∃ c₁ n₁ n₂ c₂ n₃ n₄, TakenAs s c₁ n₁ n₂ c₂ n₃ n₄

/-- The string begins with two floating-point numbers and a comma between them. -/
def TakenAsPair (s : List Char) : Prop :=
  ∃ x₁ t x₂ rest, FloatField s x₁ (',' :: t) ∧ FloatField t x₂ rest

theorem sscanf_degMin {s : List Char} {c₁ c₂ : Char} {n₁ n₂ n₃ n₄ : ℤ} :
    sscanf degMin s = [.char c₁, .int n₁, .int n₂, .char c₂, .int n₃, .int n₄] ↔
      TakenAs s c₁ n₁ n₂ c₂ n₃ n₄ := by
  simp only [degMin, sscanf_c, sscanf_d, readInt_iff, Value.char.injEq, Value.int.injEq]
  constructor
  · rintro ⟨_, s₁, rfl, rfl, _, s₂, h₁, rfl, _, _, h₂, rfl, _, s₃, rfl, rfl, _, s₄, h₃, rfl,
      _, rest, h₄, rfl, -⟩
    exact ⟨s₁, s₂, s₃, s₄, rest, rfl, h₁, h₂, h₃, h₄⟩
  · rintro ⟨s₁, s₂, s₃, s₄, rest, rfl, h₁, h₂, h₃, h₄⟩
    exact ⟨_, s₁, rfl, rfl, _, s₂, h₁, rfl, _, _, h₂, rfl, _, s₃, rfl, rfl, _, s₄, h₃, rfl,
      _, rest, h₄, rfl, rfl⟩

theorem sscanf_pair {s : List Char} {x₁ x₂ : Number} :
    sscanf pair s = [.float x₁, .float x₂] ↔
      ∃ t rest, FloatField s x₁ (',' :: t) ∧ FloatField t x₂ rest := by
  simp only [pair, sscanf_lf, sscanf_ordinary, readFloat_iff, Value.float.injEq]
  constructor
  · rintro ⟨_, _, h₁, rfl, t, rfl, _, rest, h₂, rfl, -⟩
    exact ⟨t, rest, h₁, h₂⟩
  · rintro ⟨t, rest, h₁, h₂⟩
    exact ⟨_, _, h₁, rfl, t, rfl, _, rest, h₂, rfl, rfl⟩

theorem new_parse_of_takenAs {s : List Char} {c₁ c₂ : Char} {n₁ n₂ n₃ n₄ : ℤ}
    (h : TakenAs s c₁ n₁ n₂ c₂ n₃ n₄) :
    new_parse s = .ok (new_deg_min n₁ n₂ (c₁ = '-') n₃ n₄ (c₂ = '-')) := by
  rw [new_parse, sscanf_degMin.mpr h]

theorem new_parse_of_pair {s : List Char} (h : ¬ TakenAsDegrees s) {x₁ x₂ : Number}
    (hpair : sscanf pair s = [.float x₁, .float x₂]) : new_parse s = .ok ⟨x₁, x₂⟩ := by
  rw [new_parse]
  split
  next heq => exact absurd ⟨_, _, _, _, _, _, sscanf_degMin.mp heq⟩ h
  · rw [hpair]

/-- The error is for the strings that neither format takes. -/
theorem new_parse_error_iff {s : List Char} :
    new_parse s = .error error ↔ ¬ TakenAsDegrees s ∧ ¬ TakenAsPair s := by
  constructor
  · intro h
    constructor
    · rintro ⟨_, _, _, _, _, _, htaken⟩
      rw [new_parse_of_takenAs htaken] at h
      cases h
    · rintro ⟨x₁, t, x₂, rest, h₁, h₂⟩
      rw [new_parse, sscanf_pair.mpr ⟨t, rest, h₁, h₂⟩] at h
      split at h <;> cases h
  · rintro ⟨hdegrees, hpair⟩
    rw [new_parse]
    split
    next heq => exact absurd ⟨_, _, _, _, _, _, sscanf_degMin.mp heq⟩ hdegrees
    · split
      next heq =>
        obtain ⟨t, rest, h₁, h₂⟩ := sscanf_pair.mp heq
        exact absurd ⟨_, t, _, rest, h₁, h₂⟩ hpair
      · rfl

/-! ## Documented strings -/

theorem new_parse_compact {s : List Char} {l : LatLong} (h : Compact s l) :
    new_parse s = .ok l := by
  obtain ⟨c₁, d₁, m₁, c₂, d₂, m₂, rfl, hc₁, hd₁, hd₁', hm₁, hm₁', hc₂, hd₂, hd₂', hm₂, hm₂',
    rfl⟩ := h
  have hfield {w : ℕ} {ds rest : List Char} (hds : Digits ds) (hlen : ds.length = w)
      (hw : 0 < w) : IntField w (ds ++ rest) (ofDigits ds) rest := by
    refine ⟨[], [], ds, rfl, by simp [Blanks], .inl rfl, hds, ?_, ?_, ?_, rfl⟩
    · exact List.ne_nil_of_length_pos (hlen.symm ▸ hw)
    · exact (Nat.zero_add _).trans_le hlen.le
    · intro hlt
      rw [hlen] at hlt
      exact absurd hlt (by simp)
  have htaken : TakenAs (c₁ :: (d₁ ++ m₁ ++ c₂ :: (d₂ ++ m₂))) c₁ (ofDigits d₁) (ofDigits m₁) c₂
      (ofDigits d₂) (ofDigits m₂) := by
    refine ⟨_, m₁ ++ c₂ :: (d₂ ++ m₂), d₂ ++ m₂, m₂, [], rfl, ?_, ?_, ?_, ?_⟩
    · rw [List.append_assoc]
      exact hfield hd₁ hd₁' (by decide)
    · exact hfield hm₁ hm₁' (by decide)
    · exact hfield hd₂ hd₂' (by decide)
    · have hlast : IntField 2 (m₂ ++ []) (ofDigits m₂) [] := hfield hm₂ hm₂' (by decide)
      rwa [List.append_nil] at hlast
  rw [new_parse_of_takenAs htaken]
  simp [new_deg_min, signed]

theorem floatField_decimal {sign i f tail rest : List Char} (h : DecimalText sign i f tail)
    (hrest : rest = [] ∨ ∃ t, rest = ',' :: t) :
    FloatField (sign ++ (i ++ tail) ++ rest) (.finite (decimalValue sign i f)) rest := by
  obtain ⟨q, heat, hq⟩ := Float.eat_decimal h
  refine ⟨[], _, rfl, by simp [Blanks], q, heat, ?_, hq⟩
  obtain rfl | ⟨t, rfl⟩ := hrest
  · simp [Float.Stops]
  · intro c hc
    cases hc
    exact Float.step_comma q

/-- Two decimal numbers that are not taken as degrees are read as they should be. -/
theorem new_parse_decimals {s : List Char} {l : LatLong} (h : Decimals s l)
    (hdegrees : ¬ TakenAsDegrees s) : new_parse s = .ok l := by
  obtain ⟨sign₁, i₁, f₁, tail₁, sign₂, i₂, f₂, tail₂, rfl, h₁, h₂, rfl⟩ := h
  apply new_parse_of_pair hdegrees
  apply sscanf_pair.mpr
  refine ⟨_, [], floatField_decimal h₁ (.inr ⟨_, rfl⟩), ?_⟩
  have := floatField_decimal h₂ (.inl rfl)
  rwa [List.append_nil] at this

/-! ## Decimal numbers that are taken as degrees -/

section Taken

variable {sign i f tail : List Char}

theorem zero_of_whole (before : List Char) {d₁ d₂ r : List Char}
    (h : DecimalText sign (before ++ i) f tail)
    (hd₁ : Digits d₁) (hd₂ : Digits d₂) (hne : d₂ ≠ []) (heq : i ++ tail = d₁ ++ (d₂ ++ r))
    (hval : |decimalValue sign (before ++ i) f| = ofDigits d₁ + (ofDigits d₂ : ℚ) / 60) :
    |decimalValue sign (before ++ i) f| = 0 := by
  have hdigits : Digits (d₁ ++ d₂) := by
    intro c hc
    rcases List.mem_append.mp hc with hc | hc
    · exact hd₁ c hc
    · exact hd₂ c hc
  rw [← List.append_assoc] at heq
  obtain ⟨Z, rfl⟩ := h.split_integer before hdigits heq
  have hle := le_abs_decimalValue sign before d₁ d₂ Z f hne
  rw [← List.append_assoc d₁] at hle
  exact eq_zero_of_degrees hle hval

/-- A latitude that is right although its first character was taken for the sign. -/
theorem zero_of_lat {c₁ : Char} {d₁ d₂ r : List Char} (h : DecimalText sign i f tail)
    (hd₁ : Digits d₁) (hlen : d₁.length = 2) (hd₂ : Digits d₂) (hne : d₂ ≠ [])
    (heq : sign ++ (i ++ tail) = c₁ :: (d₁ ++ (d₂ ++ r)))
    (hval : |decimalValue sign i f| = ofDigits d₁ + (ofDigits d₂ : ℚ) / 60) :
    ofDigits (i ++ f) = 0 := by
  apply ofDigits_of_abs sign
  cases sign with
  | nil =>
    cases i with
    | nil =>
      obtain rfl : tail = '.' :: f := h.point.resolve_right fun hnil => h.ne_nil (by simp [hnil])
      obtain ⟨-, rfl⟩ := List.cons.inj heq
      have hr : Digits r := fun c hc => h.fraction c (by simp [hc])
      exact eq_zero_of_fraction hlen hne hr hval
    | cons x i =>
      obtain ⟨-, hi⟩ := List.cons.inj heq
      exact zero_of_whole [x] h hd₁ hd₂ hne hi hval
  | cons x sign =>
    obtain ⟨rfl, hrest⟩ := List.cons.inj heq
    obtain rfl : sign = [] := by
      obtain hs | hs | hs := h.isSign
      · cases hs
      · exact (List.cons.inj hs).2
      · exact (List.cons.inj hs).2
    exact zero_of_whole [] h hd₁ hd₂ hne hrest hval

/-- A longitude that is right although its last digits were taken for the minutes. -/
theorem zero_of_longt {s₃ d₃ s₄ d₄ rest : List Char} (h : DecimalText sign i f tail)
    (hs₃ : IsSign s₃) (hd₃ : Digits d₃) (hne₃ : d₃ ≠ []) (hs₄ : IsSign s₄) (hd₄ : Digits d₄)
    (hne₄ : d₄ ≠ []) (heq : sign ++ (i ++ tail) = s₃ ++ (d₃ ++ (s₄ ++ (d₄ ++ rest))))
    (hval : decimalValue sign i f =
      signed s₃ (ofDigits d₃ : ℚ) + signed s₄ (ofDigits d₄ : ℚ) / 60) :
    ofDigits (i ++ f) = 0 := by
  -- the signs are the same, and the minutes have none
  have hspan := spanSign_append h.isSign h.noSign
  rw [heq, spanSign_append hs₃ (noSign_of_digits hne₃ hd₃)] at hspan
  obtain ⟨rfl, hrest⟩ := Prod.mk.inj hspan
  have hnil : s₄ = [] := by
    apply hs₄.eq_nil
    intro c hc
    apply h.inDecimal
    rw [← hrest]
    simp [hc]
  subst hnil
  have hdigits : Digits (d₃ ++ d₄) := by
    intro c hc
    rcases List.mem_append.mp hc with hc | hc
    · exact hd₃ c hc
    · exact hd₄ c hc
  rw [List.nil_append, ← List.append_assoc] at hrest
  obtain ⟨Z, rfl⟩ := DecimalText.split_integer [] h hdigits hrest.symm
  have hle := le_abs_decimalValue s₃ [] d₃ d₄ Z f hne₄
  rw [List.nil_append, ← List.append_assoc d₃] at hle
  apply ofDigits_of_abs s₃
  exact eq_zero_of_signed hle (decimalValue_eq_signed _ _ _) hval

end Taken

theorem Decimals.noBlank {s : List Char} {l : LatLong} (h : Decimals s l) : NoBlank s := by
  obtain ⟨sign₁, i₁, f₁, tail₁, sign₂, i₂, f₂, tail₂, rfl, h₁, h₂, rfl⟩ := h
  have hpart {sign i f tail : List Char} (h : DecimalText sign i f tail) :
      NoBlank (sign ++ (i ++ tail)) := by
    intro c hc
    rcases List.mem_append.mp hc with hc | hc
    · obtain rfl | rfl | rfl := h.isSign
      · cases hc
      · rw [List.mem_singleton.mp hc]
        rfl
      · rw [List.mem_singleton.mp hc]
        rfl
    · exact (h.inDecimal c hc).not_isspace
  intro c hc
  rcases List.mem_append.mp hc with hc | hc
  · exact hpart h₁ c hc
  · rcases List.mem_cons.mp hc with rfl | hc
    · rfl
    · exact hpart h₂ c hc

theorem abs_of_south {q v : ℚ} {south : Bool} (hq : 0 ≤ q)
    (h : (if south = true then -q else q) = v) : |v| = q := by
  cases south
  · rw [← h]
    exact abs_of_nonneg hq
  · rw [← h]
    exact (abs_neg q).trans (abs_of_nonneg hq)

/-- Two decimal numbers that are taken as degrees and minutes are zeros, if that is right. -/
theorem zeros_of_takenAs {s : List Char} {l : LatLong} (h : Decimals s l) {c₁ c₂ : Char}
    {n₁ n₂ n₃ n₄ : ℤ} (ht : TakenAs s c₁ n₁ n₂ c₂ n₃ n₄)
    (hl : new_deg_min n₁ n₂ (c₁ = '-') n₃ n₄ (c₂ = '-') = l) : Zeros s := by
  have hblank := h.noBlank
  obtain ⟨sign₁, i₁, f₁, tail₁, sign₂, i₂, f₂, tail₂, hs, h₁, h₂, rfl⟩ := h
  obtain ⟨s₁, s₂, s₃, s₄, rest, rfl, t₁, t₂, t₃, t₄⟩ := ht
  obtain ⟨S₁, D₁, rfl, t₁, hblank⟩ := IntField.noBlank t₁ fun c hc => hblank c (by simp [hc])
  obtain ⟨S₂, D₂, rfl, t₂, hblank⟩ := IntField.noBlank t₂ hblank
  obtain ⟨S₃, D₃, rfl, t₃, hblank⟩ := IntField.noBlank t₃ fun c hc => hblank c (by simp [hc])
  obtain ⟨S₄, D₄, rfl, t₄, -⟩ := IntField.noBlank t₄ hblank
  simp only [new_deg_min, LatLong.mk.injEq, Number.finite.injEq] at hl
  obtain ⟨hlat, hlong⟩ := hl
  -- the latitude: its first character was taken for the sign
  obtain ⟨x, r₁, hr₁⟩ : ∃ x r, sign₁ ++ (i₁ ++ tail₁) = x :: r := by
    apply List.exists_cons_of_ne_nil
    exact List.append_ne_nil_of_right_ne_nil _ h₁.append_ne_nil
  have hwhole := hs
  rw [hr₁] at hwhole
  obtain ⟨rfl, hafter⟩ := List.cons.inj hwhole
  have hin := h₁.tail_inDecimal hr₁
  obtain ⟨r, rfl, hcut⟩ := t₁.split_comma t₂ hafter
  obtain rfl : S₁ = [] := t₁.isSign.eq_nil fun c hc => hin c (by simp [hc])
  obtain rfl : S₂ = [] := t₂.isSign.eq_nil fun c hc => hin c (by simp [hc])
  rw [t₁.cast_value, t₂.cast_value, signed_nil, signed_nil] at hlat
  rw [List.nil_append] at t₁
  have hlen : D₁.length = 2 := t₁.length_eq t₂.ne_nil t₂.digits
  have habs := abs_of_south (by positivity) hlat
  have hzero₁ := zero_of_lat h₁ t₁.digits hlen t₂.digits t₂.ne_nil hr₁ habs
  have hzeros := h₁.zeros_iff.mpr hzero₁
  -- the longitude: what its sign was taken for is the comma, or lies before it
  have hzero₂ : ofDigits (i₂ ++ f₂) = 0 := by
    cases r with
    | nil =>
      obtain ⟨rfl, hrest⟩ := List.cons.inj hcut
      rw [t₃.cast_value, t₄.cast_value] at hlong
      exact zero_of_longt h₂ t₃.isSign t₃.digits t₃.ne_nil t₄.isSign t₄.digits t₄.ne_nil
        hrest.symm hlong.symm
    | cons c r =>
      obtain ⟨rfl, hrest⟩ := List.cons.inj hcut
      obtain ⟨Z, rfl, -⟩ := t₃.split_comma t₄ hrest
      rw [hr₁] at hzeros
      have hD₃ := ofDigits_of_zeros hzeros t₃.digits fun c hc => by simp [hc]
      have hD₄ := ofDigits_of_zeros hzeros t₄.digits fun c hc => by simp [hc]
      rw [t₃.cast_value, t₄.cast_value, hD₃, hD₄] at hlong
      have hvalue : decimalValue sign₂ i₂ f₂ = 0 := by
        rw [← hlong]
        simp [signed]
      apply ofDigits_of_abs sign₂
      rw [hvalue, abs_zero]
  rw [hs]
  exact hzeros.append_comma (h₂.zeros_iff.mpr hzero₂)

/-- Zeros are read as zeros, by either format. -/
theorem takenAs_of_zeros {s : List Char} {l : LatLong} (h : Decimals s l) {c₁ c₂ : Char}
    {n₁ n₂ n₃ n₄ : ℤ} (ht : TakenAs s c₁ n₁ n₂ c₂ n₃ n₄) (hzeros : Zeros s) :
    new_deg_min n₁ n₂ (c₁ = '-') n₃ n₄ (c₂ = '-') = l := by
  obtain ⟨sign₁, i₁, f₁, tail₁, sign₂, i₂, f₂, tail₂, hs, h₁, h₂, rfl⟩ := h
  obtain ⟨s₁, s₂, s₃, s₄, rest, rfl, t₁, t₂, t₃, t₄⟩ := ht
  have hzero₁ := h₁.zeros_iff.mp fun c hc =>
    hzeros c (by rw [hs]; exact List.mem_append_left _ hc)
  have hzero₂ := h₂.zeros_iff.mp fun c hc =>
    hzeros c (by rw [hs]; exact List.mem_append_right _ (List.mem_cons_of_mem _ hc))
  obtain ⟨rfl, hzeros⟩ := IntField.zero t₁ fun c hc => hzeros c (List.mem_cons_of_mem _ hc)
  obtain ⟨rfl, hzeros⟩ := IntField.zero t₂ hzeros
  obtain ⟨rfl, hzeros⟩ := IntField.zero t₃ fun c hc => hzeros c (List.mem_cons_of_mem _ hc)
  obtain ⟨rfl, -⟩ := IntField.zero t₄ hzeros
  rw [decimalValue_zero hzero₁, decimalValue_zero hzero₂]
  simp [new_deg_min]

/-! ## Which strings are parsed as documented -/

theorem Decimals.comma_mem {s : List Char} {l : LatLong} (h : Decimals s l) : ',' ∈ s := by
  obtain ⟨sign₁, i₁, f₁, tail₁, sign₂, i₂, f₂, tail₂, rfl, -⟩ := h
  exact List.mem_append_right _ List.mem_cons_self

theorem Compact.comma_not_mem {s : List Char} {l : LatLong} (h : Compact s l) : ',' ∉ s := by
  obtain ⟨c₁, d₁, m₁, c₂, d₂, m₂, rfl, hc₁, hd₁, -, hm₁, -, hc₂, hd₂, -, hm₂, -⟩ := h
  have hsign {c : Char} (hc : c = '+' ∨ c = '-') : ',' ≠ c := by
    rintro rfl
    obtain hc | hc := hc <;> cases hc
  simp only [List.mem_cons, List.mem_append, not_or]
  exact ⟨hsign hc₁, ⟨not_mem_of_digits hd₁ rfl, not_mem_of_digits hm₁ rfl⟩, hsign hc₂,
    not_mem_of_digits hd₂ rfl, not_mem_of_digits hm₂ rfl⟩

/-- Besides compact strings, exactly the decimal numbers are read right that the first format does
not take, or that are zeros; and of all other strings those are refused that neither takes. -/
theorem asDocumented_iff (s : List Char) :
    AsDocumented s ↔ (∃ l, Compact s l) ∨
      (∃ l, Decimals s l) ∧ (¬ TakenAsDegrees s ∨ Zeros s) ∨
      (∀ l, ¬ Documented s l) ∧ ¬ TakenAsDegrees s ∧ ¬ TakenAsPair s := by
  constructor
  · rintro ⟨hvalue, herror⟩
    by_cases hcompact : ∃ l, Compact s l
    · exact .inl hcompact
    by_cases hdecimals : ∃ l, Decimals s l
    · refine .inr (.inl ⟨hdecimals, ?_⟩)
      obtain ⟨l, hl⟩ := hdecimals
      by_contra hnot
      obtain ⟨htaken, hzeros⟩ := not_or.mp hnot
      obtain ⟨_, _, _, _, _, _, ht⟩ := not_not.mp htaken
      have hparse := hvalue l (.inr hl)
      rw [new_parse_of_takenAs ht] at hparse
      exact hzeros (zeros_of_takenAs hl ht (Except.ok.inj hparse))
    · have hnone : ∀ l, ¬ Documented s l := by
        rintro l (hl | hl)
        · exact hcompact ⟨l, hl⟩
        · exact hdecimals ⟨l, hl⟩
      exact .inr (.inr ⟨hnone, new_parse_error_iff.mp (herror hnone)⟩)
  · rintro (⟨l, hl⟩ | ⟨⟨l, hl⟩, hcond⟩ | ⟨hnone, htaken⟩)
    · constructor
      · rintro l' (hl' | hl')
        · exact new_parse_compact hl'
        · exact absurd hl'.comma_mem hl.comma_not_mem
      · exact fun hnone => absurd (.inl hl) (hnone l)
    · constructor
      · rintro l' (hl' | hl')
        · exact new_parse_compact hl'
        · by_cases htaken : TakenAsDegrees s
          · obtain ⟨_, _, _, _, _, _, ht⟩ := htaken
            have hzeros := hcond.resolve_left (not_not.mpr ⟨_, _, _, _, _, _, ht⟩)
            rw [new_parse_of_takenAs ht, takenAs_of_zeros hl' ht hzeros]
          · exact new_parse_decimals hl' htaken
      · exact fun hnone => absurd (.inr hl) (hnone l)
    · exact ⟨fun l hl => absurd hl (hnone l), fun _ => new_parse_error_iff.mpr htaken⟩

/-- A twelfth character is not seen, and five digits are no degrees before a comma. -/
theorem not_asDocumented :
    ¬ AsDocumented ['+', '5', '1', '3', '0', '-', '0', '0', '0', '1', '0', 'x'] ∧
      ¬ AsDocumented ['1', '2', '3', '4', '5', ',', '1', '2', '3', '4', '5'] := by
  constructor
  · rintro ⟨-, herror⟩
    refine (new_parse_error_iff.mp (herror ?_)).1 ⟨_, _, _, _, _, _, sscanf_degMin.mp rfl⟩
    rintro l (⟨c₁, d₁, m₁, c₂, d₂, m₂, hs, -, -, hd₁, -, hm₁, -, -, hd₂, -, hm₂, -⟩ | hl)
    · have hlen := congrArg List.length hs
      simp [hd₁, hm₁, hd₂, hm₂] at hlen
    · exact absurd hl.comma_mem (by decide)
  · rintro ⟨hvalue, -⟩
    have htaken : TakenAs ['1', '2', '3', '4', '5', ',', '1', '2', '3', '4', '5']
        '1' 23 45 ',' 123 45 := sscanf_degMin.mp rfl
    have htext : DecimalText [] ['1', '2', '3', '4', '5'] [] [] :=
      ⟨.inl rfl, by simp [Digits], by simp [Digits], by simp, .inr ⟨rfl, rfl⟩⟩
    have hl : Decimals ['1', '2', '3', '4', '5', ',', '1', '2', '3', '4', '5'] _ :=
      ⟨[], _, _, _, [], _, _, _, rfl, htext, htext, rfl⟩
    have hparse := hvalue _ (.inr hl)
    rw [new_parse_of_takenAs htaken] at hparse
    have hzeros := zeros_of_takenAs hl htaken (Except.ok.inj hparse)
    exact absurd (hzeros '1' (by decide) rfl) (by decide)

end LatLong

end Kbox.Solunar
