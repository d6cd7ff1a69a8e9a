import Kbox.Emulatorview.CodePointWriter
import Kbox.Emulatorview.ProcessBytes
import Kbox.Emulatorview.SamplePlatform

/-!
# UTF-8 sequences

The bytes of a character as `handleUTF8Sequence` tells them apart, and what is documented of the
decoders that it and `nextOSCString` hand them to.
-/

namespace Kbox.Emulatorview.TerminalEmulator

open Kbox.Framework

/-! ## §1  Lead bytes and continuations -/

/-- `Character.toChars` of a character. -/
def utf16 (c : Char) : List JChar := toChars c.toNat

/-- What is documented of the decoders of the platform: a sequence in front becomes its
character, and so does every sequence of a string. -/
structure ReadsUtf8 [Platform] : Prop where
  decode : ∀ (c : Char) (rest : List JByte) (room : Nat), 2 ≤ room →
    ∃ chars taken, Platform.decode (utf8 c ++ rest) room = (utf16 c ++ chars, taken)
  newString : ∀ text : List Char, Platform.newString (text.flatMap utf8) = text.flatMap utf16

/-- `0b10xxxxxx` -/
def continuation (n : Nat) : JByte := BitVec.ofNat 8 (n % 64 + 0x80)

theorem continuation_bits (n : Nat) :
    continuation n &&& 0xc0 = 0x80 ∧ (continuation n).toNat % 64 = n % 64 := by
  have hall : ∀ k : Fin 64, (BitVec.ofNat 8 (k + 0x80) &&& 0xc0 = 0x80) ∧
      (BitVec.ofNat 8 (k + 0x80)).toNat % 64 = k := by decide
  exact hall ⟨n % 64, Nat.mod_lt _ (by decide)⟩

/-- A lead byte, with how many bytes follow it and the bits that it carries. -/
def IsLead (b : JByte) (follow : Nat) (bits : Nat) : Prop :=
  0x80 ≤ b.toNat ∧ toFollow b = some (follow : Int) ∧
    b.toNat % 2 ^ (6 - follow) = bits

theorem isLead_two {n : Nat} (h : n < 32) :
    IsLead (BitVec.ofNat 8 (n % 32 + 0xc0)) 1 n := by
  have hall : ∀ k : Fin 32, 0x80 ≤ (BitVec.ofNat 8 (k + 0xc0)).toNat ∧
      toFollow (BitVec.ofNat 8 (k + 0xc0)) = some 1 ∧
      (BitVec.ofNat 8 (k + 0xc0)).toNat % 32 = k := by decide
  rw [Nat.mod_eq_of_lt h]
  exact hall ⟨n, h⟩

theorem isLead_three {n : Nat} (h : n < 16) :
    IsLead (BitVec.ofNat 8 (n % 16 + 0xe0)) 2 n := by
  have hall : ∀ k : Fin 16, 0x80 ≤ (BitVec.ofNat 8 (k + 0xe0)).toNat ∧
      toFollow (BitVec.ofNat 8 (k + 0xe0)) = some 2 ∧
      (BitVec.ofNat 8 (k + 0xe0)).toNat % 16 = k := by decide
  rw [Nat.mod_eq_of_lt h]
  exact hall ⟨n, h⟩

theorem isLead_four {n : Nat} (h : n < 8) :
    IsLead (BitVec.ofNat 8 (n % 8 + 0xf0)) 3 n := by
  have hall : ∀ k : Fin 8, 0x80 ≤ (BitVec.ofNat 8 (k + 0xf0)).toNat ∧
      toFollow (BitVec.ofNat 8 (k + 0xf0)) = some 3 ∧
      (BitVec.ofNat 8 (k + 0xf0)).toNat % 8 = k := by decide
  rw [Nat.mod_eq_of_lt h]
  exact hall ⟨n, h⟩

theorem utf8_ascii {c : Char} (h : c.toNat < 0x80) : utf8 c = [BitVec.ofNat 8 c.toNat] := by
  have hv : c.val.toNat ≤ 0x7f := Nat.lt_succ_iff.mp h
  unfold utf8 String.utf8EncodeChar
  rw [if_pos hv]
  rfl

/-- The bytes of a character outside of ASCII. -/
theorem utf8_cases {c : Char} (h : 0x80 ≤ c.toNat) :
    (c.toNat < 0x800 ∧ ∃ b, IsLead b 1 (c.toNat / 64) ∧ utf8 c = [b, continuation c.toNat]) ∨
    (0x800 ≤ c.toNat ∧ c.toNat < 0x10000 ∧ ∃ b, IsLead b 2 (c.toNat / 4096) ∧
      utf8 c = [b, continuation (c.toNat / 64), continuation c.toNat]) ∨
    (0x10000 ≤ c.toNat ∧ ∃ b, IsLead b 3 (c.toNat / 262144) ∧
      utf8 c = [b, continuation (c.toNat / 4096), continuation (c.toNat / 64),
        continuation c.toNat]) := by
  have hval : c.val.toNat = c.toNat := rfl
  have hrange := CodePointWriter.scalar_range c
  unfold utf8 String.utf8EncodeChar
  rw [hval, if_neg (by omega)]
  by_cases h2 : c.toNat ≤ 0x7ff
  · refine .inl ⟨by omega, _, ?_, by rw [if_pos h2]; rfl⟩
    exact isLead_two (by omega)
  · rw [if_neg h2]
    by_cases h3 : c.toNat ≤ 0xffff
    · refine .inr (.inl ⟨by omega, by omega, _, ?_, by rw [if_pos h3]; rfl⟩)
      exact isLead_three (by omega)
    · refine .inr (.inr ⟨by omega, _, ?_, by rw [if_neg h3]; rfl⟩)
      exact isLead_four (by omega)

/-! ## §2  The sample platform -/

section Sample

open SamplePlatform

theorem appendBits_continuation (n m : Nat) (bs : List JByte) :
    appendBits n (continuation m :: bs) = appendBits (n * 64 + m % 64) bs := by
  unfold appendBits
  rw [List.foldl_cons, (continuation_bits m).2]

theorem isContinuation_continuation (n : Nat) : isContinuation (continuation n) = true :=
  decide_eq_true (continuation_bits n).1

/-- The masks that `toFollow` and the sample decoder tell a lead byte by. -/
theorem toFollow_mask {b : JByte} {n : Int} (h : toFollow b = some n) :
    (n = 1 → b &&& 0xe0 = 0xc0) ∧ (n = 2 → b &&& 0xe0 ≠ 0xc0 ∧ b &&& 0xf0 = 0xe0) ∧
      (n = 3 → b &&& 0xe0 ≠ 0xc0 ∧ b &&& 0xf0 ≠ 0xe0 ∧ b &&& 0xf8 = 0xf0) := by
  unfold toFollow at h
  split_ifs at h with h1 h2 h3
  all_goals
    cases h
    refine ⟨?_, ?_, ?_⟩ <;> intro hn <;> first | cases hn; done | skip
  · exact h1
  · exact ⟨h1, h2⟩
  · exact ⟨h1, h2, h3⟩

theorem decodeOne_utf8 (c : Char) (rest : List JByte) :
    decodeOne (utf8 c ++ rest) = ((c.toNat : Int), (utf8 c).length) := by
  have hrange := CodePointWriter.scalar_range c
  have hmax : c.toNat ≤ 0x10ffff := by omega
  have hsurrogate : ¬ (0xd800 ≤ c.toNat ∧ c.toNat ≤ 0xdfff) := by omega
  by_cases hascii : c.toNat < 0x80
  · have hbyte : (BitVec.ofNat 8 c.toNat).toNat = c.toNat := by
      rw [BitVec.toNat_ofNat]
      omega
    rw [utf8_ascii hascii]
    show decodeOne (_ :: rest) = _
    simp only [decodeOne]
    rw [if_pos (by omega), hbyte]
    rfl
  · rcases utf8_cases (Nat.le_of_not_lt hascii) with
      ⟨hlt, b, ⟨hb, hfollow, hbits⟩, heq⟩ | ⟨hge, hlt, b, ⟨hb, hfollow, hbits⟩, heq⟩ |
      ⟨hge, b, ⟨hb, hfollow, hbits⟩, heq⟩
    · have hmask := (toFollow_mask hfollow).1 rfl
      have hbits' : b.toNat % 32 = c.toNat / 64 := hbits
      have hvalue : c.toNat / 64 * 64 + c.toNat % 64 = c.toNat := by omega
      rw [heq]
      show decodeOne (b :: continuation c.toNat :: rest) = _
      simp only [decodeOne]
      rw [if_neg (by omega), if_pos hmask]
      simp only [List.take_succ_cons, List.take_zero, hbits', appendBits_continuation, hvalue]
      rw [if_pos]
      · rfl
      · refine ⟨rfl, ?_, ?_, hmax, hsurrogate⟩
        · simp only [List.all_cons, List.all_nil, isContinuation_continuation, Bool.and_self]
        · show 128 ≤ c.toNat
          omega
    · obtain ⟨hmask, hmask'⟩ := (toFollow_mask hfollow).2.1 rfl
      have hbits' : b.toNat % 16 = c.toNat / 4096 := hbits
      have hvalue : (c.toNat / 4096 * 64 + c.toNat / 64 % 64) * 64 + c.toNat % 64 = c.toNat := by
        omega
      rw [heq]
      show decodeOne (b :: continuation (c.toNat / 64) :: continuation c.toNat :: rest) = _
      simp only [decodeOne]
      rw [if_neg (by omega), if_neg hmask, if_pos hmask']
      simp only [List.take_succ_cons, List.take_zero, hbits', appendBits_continuation, hvalue]
      rw [if_pos]
      · rfl
      · refine ⟨rfl, ?_, ?_, hmax, hsurrogate⟩
        · simp only [List.all_cons, List.all_nil, isContinuation_continuation, Bool.and_self]
        · exact hge
    · obtain ⟨hmask, hmask', hmask''⟩ := (toFollow_mask hfollow).2.2 rfl
      have hbits' : b.toNat % 8 = c.toNat / 262144 := hbits
      have hvalue : ((c.toNat / 262144 * 64 + c.toNat / 4096 % 64) * 64 + c.toNat / 64 % 64) * 64 +
          c.toNat % 64 = c.toNat := by
        omega
      rw [heq]
      show decodeOne (b :: continuation (c.toNat / 4096) :: continuation (c.toNat / 64) ::
        continuation c.toNat :: rest) = _
      simp only [decodeOne]
      rw [if_neg (by omega), if_neg hmask, if_neg hmask', if_pos hmask'']
      simp only [List.take_succ_cons, List.take_zero, hbits', appendBits_continuation, hvalue]
      rw [if_pos]
      · rfl
      · refine ⟨rfl, ?_, ?_, hmax, hsurrogate⟩
        · simp only [List.all_cons, List.all_nil, isContinuation_continuation, Bool.and_self]
        · exact hge

theorem length_utf8_pos (c : Char) : 0 < (utf8 c).length := by
  rw [CodePointWriter.length_utf8]
  exact c.utf8Size_pos

theorem length_utf16 (c : Char) :
    0 < (utf16 c).length ∧ (utf16 c).length ≤ 2 ∧ (utf16 c).length ≤ (utf8 c).length := by
  have hsize := (CodePointWriter.utf8Size_range c).2
  have hpos := length_utf8_pos c
  unfold utf16 toChars
  rw [CodePointWriter.length_utf8] at *
  by_cases h : (c.toNat : Int) ≥ 0x10000
  · rw [if_pos h, hsize (by omega)]
    exact ⟨Nat.two_pos, Nat.le_refl 2, Nat.le_add_left 2 2⟩
  · rw [if_neg h]
    exact ⟨Nat.one_pos, Nat.le_succ 1, hpos⟩

theorem decodeLoop_utf8 (c : Char) (rest : List JByte) {fuel room : Nat}
    (hroom : (utf16 c).length ≤ room) :
    decodeLoop (fuel + 1) (utf8 c ++ rest) room =
      (utf16 c ++ (decodeLoop fuel rest (room - (utf16 c).length)).1,
        (utf8 c).length + (decodeLoop fuel rest (room - (utf16 c).length)).2) := by
  have hdrop : (utf8 c ++ rest).drop (utf8 c).length = rest := by
    rw [List.drop_append, List.drop_length, Nat.sub_self, List.drop_zero, List.nil_append]
  have hne : utf8 c ++ rest ≠ [] := by
    have hpos := length_utf8_pos c
    intro h
    rw [(List.append_eq_nil_iff.mp h).1] at hpos
    exact absurd hpos (by decide)
  rw [decodeLoop]
  simp only [decodeOne_utf8, hdrop]
  rw [if_neg]
  · rfl
  · rintro (h | h)
    · exact hne h
    · exact absurd h (Nat.not_lt.mpr hroom)

theorem decodeLoop_text (text : List Char) {fuel room : Nat}
    (hfuel : (text.flatMap utf8).length ≤ fuel) (hroom : (text.flatMap utf8).length ≤ room) :
    (decodeLoop fuel (text.flatMap utf8) room).1 = text.flatMap utf16 := by
  induction text generalizing fuel room with
  | nil =>
      cases fuel with
      | zero => rfl
      | succ fuel =>
          rw [decodeLoop]
          simp only [List.flatMap_nil, true_or, if_true]
  | cons c text ih =>
      obtain ⟨_, _, hle⟩ := length_utf16 c
      have hpos := length_utf8_pos c
      rw [List.flatMap_cons, List.length_append] at hfuel hroom
      obtain ⟨fuel, rfl⟩ := Nat.exists_eq_add_one_of_ne_zero (show fuel ≠ 0 by omega)
      rw [List.flatMap_cons, decodeLoop_utf8 c _ (by omega), List.flatMap_cons,
        ih (by omega) (by omega)]

/-- The sample platform reads UTF-8. -/
theorem readsUtf8_sample : @ReadsUtf8 samplePlatform := by
  let _ := samplePlatform
  refine ⟨fun c rest room hroom => ?_, fun text => ?_⟩
  · have hpos := length_utf8_pos c
    obtain ⟨_, hle, _⟩ := length_utf16 c
    obtain ⟨fuel, hfuel⟩ := Nat.exists_eq_add_one_of_ne_zero
      (show (utf8 c ++ rest).length ≠ 0 by rw [List.length_append]; omega)
    have hloop := @decodeLoop_utf8 c rest fuel room (Nat.le_trans hle hroom)
    rw [← hfuel] at hloop
    exact ⟨_, _, hloop⟩
  · exact decodeLoop_text text (Nat.le_refl _) (by omega)

end Sample

end Kbox.Emulatorview.TerminalEmulator
