import Kbox.Emulatorview.Utf8Runs

/-!
# Resynchronisation

The byte that breaks off a sequence is lost.  How many bytes of a sequence are due can be told from
the bytes alone, so that can be said without looking into the decoder.
-/

namespace Kbox.Emulatorview.TerminalEmulator

open Kbox.Framework

variable [Platform] {s t : TerminalEmulator} {b : JByte} {c : Char}

/-! ## §1  Bytes that break off a sequence -/

/-- ASCII, or the first byte of a sequence. -/
def BeginsAnew (b : JByte) : Prop := b.toNat < 0x80 ∨ (toFollow b).isSome

/-- The byte is no part of what is in front of it: it is processed, or it begins a sequence. -/
def Survives (b : JByte) (s : TerminalEmulator) : Prop :=
  (b.toNat < 0x80 → handed b s = some (.process b)) ∧
    (s.mUTF8Mode = true → ∀ n, toFollow b = some n → (after (process b) s).mUTF8ToFollow = n)

/-- The byte comes in the middle of a sequence. -/
def Interrupts (b : JByte) (s : TerminalEmulator) : Prop :=
  s.mUTF8Mode = true ∧ s.mUTF8ToFollow > 0 ∧ BeginsAnew b

omit [Platform] in
theorem beginsAnew_mask (h : BeginsAnew b) : b &&& 0xc0 ≠ 0x80 := by
  have hall : ∀ b : JByte, b.toNat < 0x80 ∨ (toFollow b).isSome = true → b &&& 0xc0 ≠ 0x80 := by
    decide +kernel
  exact hall b h

theorem idle_interrupts (h : Interrupts b s) : handed b s = some (.emit unicodeReplacementChar) ∧
    Idle (after (process b) s) := by
  obtain ⟨hmode, hfollow, hb⟩ := h
  have hmask := beginsAnew_mask hb
  constructor
  · unfold handed handedInside
    rw [if_pos hmode, if_neg (by omega), if_pos hfollow, if_pos hmask]
  · refine after_of_wp ?_
    rw [wp_congr (process_continue b hmode hfollow), continueUTF8, if_pos hmask, wp_bind, wp_modify]
    exact framed_emit _ _ rfl

omit [Platform] in
theorem isSome_toFollow (h : (toFollow b).isSome) : 0x80 ≤ b.toNat := by
  have hall : ∀ b : JByte, (toFollow b).isSome = true → 0x80 ≤ b.toNat := by
    decide +kernel
  exact hall b h

/-- A lead byte with no sequence open. -/
theorem after_lead (hmode : s.mUTF8Mode = true) (hidle : s.mUTF8ToFollow = 0) {n : Int}
    (hn : toFollow b = some n) : (after (process b) s).mUTF8ToFollow = n ∧
      (after (process b) s).mUTF8Mode = true := by
  have hlarge := isSome_toFollow (Option.isSome_iff_exists.mpr ⟨n, hn⟩)
  unfold after
  rw [process_start hmode (Int.le_of_eq hidle) fun _ => hlarge, startUTF8, hn]
  simp only [bind, EStateM.bind, modify_apply]
  by_cases hroom : s.mUTF8ByteBuffer.position < s.mUTF8ByteBuffer.array.length
  · rw [putByte_ok (s := { s with mUTF8ToFollow := n }) hroom]
    exact ⟨rfl, hmode⟩
  · obtain ⟨e, he⟩ := putByte_full (s := { s with mUTF8ToFollow := n }) hroom b
    rw [he]
    exact ⟨rfl, hmode⟩

theorem survives_iff (hs : Intact s) (b : JByte) : Survives b s ↔ ¬ Interrupts b s := by
  constructor
  · rintro ⟨hascii, hlead⟩ hbreaks
    obtain ⟨hreplaced, hidle⟩ := idle_interrupts hbreaks
    obtain ⟨hmode, _, hb | hb⟩ := hbreaks
    · rw [hascii hb] at hreplaced
      cases hreplaced
    · obtain ⟨n, hn⟩ := Option.isSome_iff_exists.mp hb
      have hpos := (toFollow_range hn).1
      have hzero : n = 0 := (hlead hmode n hn).symm.trans hidle
      omega
  · intro hbreaks
    have hfollow := hs.follow
    have hidle (hmode : s.mUTF8Mode = true) (hb : BeginsAnew b) : s.mUTF8ToFollow = 0 := by
      by_contra hopen
      exact hbreaks ⟨hmode, by omega, hb⟩
    constructor
    · intro hascii
      unfold handed
      by_cases hmode : s.mUTF8Mode = true
      · rw [if_pos hmode, if_pos ⟨hidle hmode (.inl hascii), hascii⟩]
      · rw [if_neg hmode]
    · intro hmode n hn
      exact (after_lead hmode (hidle hmode (.inr (Option.isSome_iff_exists.mpr ⟨n, hn⟩))) hn).1

/-! ## §2  What is due -/

/-- How many bytes of a sequence are due behind `b`, when `n` of them are in front of it. -/
def dueAfter (b : JByte) (n : Nat) : Nat :=
  if 0 < n then if b &&& 0xc0 = 0x80 then n - 1 else 0
  else ((toFollow b).getD 0).toNat

/-- In UTF-8 mode, no byte that begins something arrives while bytes of a sequence are due. -/
def Uninterrupted : Nat → List JByte → TerminalEmulator → Prop
  | _, [], _ => True
  | n, b :: bytes, s => ¬ (s.mUTF8Mode = true ∧ 0 < n ∧ BeginsAnew b) ∧
      Uninterrupted (if s.mUTF8Mode then dueAfter b n else n) bytes (after (process b) s)

/-- The decoder waits for `n` bytes. -/
structure Due (n : Nat) (s : TerminalEmulator) : Prop where
  follow : s.mUTF8ToFollow = n
  off : s.mUTF8Mode = false → n = 0

/-- The decoder waits for `n` bytes at the least. -/
structure DueAtLeast (n : Nat) (s : TerminalEmulator) : Prop where
  follow : n ≤ s.mUTF8ToFollow
  off : s.mUTF8Mode = false → n = 0

section Due

variable {n : Nat}

omit [Platform] in
theorem due_of_idle (h : Idle s) : Due 0 s := ⟨h, fun _ => rfl⟩

omit [Platform] in
theorem dueAfter_zero (h : toFollow b = none) : dueAfter b 0 = 0 := by
  unfold dueAfter
  rw [if_neg (Nat.lt_irrefl 0), h]
  rfl

omit [Platform] in
theorem dueAfter_lead {k : Int} (h : toFollow b = some k) : (dueAfter b 0 : Int) = k := by
  have hpos := (toFollow_range h).1
  unfold dueAfter
  rw [if_neg (Nat.lt_irrefl 0), h]
  exact Int.toNat_of_nonneg (Int.le_of_lt hpos)

omit [Platform] in
theorem dueAfter_continuation (hn : 0 < n) (hb : b &&& 0xc0 = 0x80) : dueAfter b n = n - 1 := by
  unfold dueAfter
  rw [if_pos hn, if_pos hb]

omit [Platform] in
theorem dueAfter_broken (hn : 0 < n) (hb : b &&& 0xc0 ≠ 0x80) : dueAfter b n = 0 := by
  unfold dueAfter
  rw [if_pos hn, if_neg hb]

/-- A byte that begins no sequence, with none open. -/
theorem idle_first (hidle : Idle s) (hb : s.mUTF8Mode = true → toFollow b = none) :
    Idle (after (process b) s) := by
  refine after_of_wp ?_
  by_cases hraw : s.mUTF8Mode = true → s.mUTF8ToFollow = 0 ∧ b.toNat < 0x80
  · rw [wp_congr (process_undecoded hraw)]
    exact decoder_processUndecoded b s hidle
  · push Not at hraw
    obtain ⟨hmode, hstart⟩ := hraw
    rw [wp_congr (process_start hmode (Int.le_of_eq hidle) hstart), startUTF8, hb hmode]
    exact framed_emit _ s hidle

/-- A byte that is no continuation, with a sequence open. -/
theorem idle_broken (hmode : s.mUTF8Mode = true) (hfollow : s.mUTF8ToFollow > 0)
    (hb : b &&& 0xc0 ≠ 0x80) : Idle (after (process b) s) := by
  refine after_of_wp ?_
  rw [wp_congr (process_continue b hmode hfollow), continueUTF8, if_pos hb, wp_bind, wp_modify]
  exact framed_emit _ _ rfl

/-- A continuation that is not the last one. -/
theorem after_more (hmode : s.mUTF8Mode = true) (hfollow : 1 < s.mUTF8ToFollow)
    (hb : b &&& 0xc0 = 0x80)
    (hroom : s.mUTF8ByteBuffer.position < s.mUTF8ByteBuffer.array.length) :
    (after (process b) s).mUTF8ToFollow = s.mUTF8ToFollow - 1 ∧
      (after (process b) s).mUTF8Mode = true := by
  unfold after
  rw [process_continue b hmode (by omega), continueUTF8_more hb hroom (by omega)]
  exact ⟨rfl, hmode⟩

/-- A continuation for which there is no room. -/
theorem after_full (hmode : s.mUTF8Mode = true) (hfollow : s.mUTF8ToFollow > 0)
    (hb : b &&& 0xc0 = 0x80)
    (hfull : ¬ s.mUTF8ByteBuffer.position < s.mUTF8ByteBuffer.array.length) :
    after (process b) s = s := by
  obtain ⟨e, he⟩ := continueUTF8_full hb hfull
  unfold after
  rw [process_continue b hmode hfollow, he]

theorem due_process (hs : Intact s) (hclean : Clean s) (hdue : Due n s) (b : JByte) :
    Due (if s.mUTF8Mode then dueAfter b n else n) (after (process b) s) := by
  have hfollow := hdue.follow
  by_cases hmode : s.mUTF8Mode = true
  · rw [if_pos hmode]
    rcases Nat.eq_zero_or_pos n with rfl | hn
    · cases hlead : toFollow b with
      | none =>
          rw [dueAfter_zero hlead]
          exact due_of_idle (idle_first hfollow fun _ => hlead)
      | some k =>
          obtain ⟨hfollow', hmode'⟩ := after_lead hmode hfollow hlead
          exact ⟨hfollow'.trans (dueAfter_lead hlead).symm,
            fun hoff => Bool.noConfusion (hmode'.symm.trans hoff)⟩
    · by_cases hb : b &&& 0xc0 = 0x80
      · have hroom := hclean.has_room hs (by omega)
        rw [dueAfter_continuation hn hb]
        by_cases hlast : s.mUTF8ToFollow - 1 = 0
        · have hidle : Idle (after (process b) s) := by
            refine after_of_wp ?_
            rw [wp_congr (process_continue b hmode (by omega))]
            exact decoder_last hb hroom hlast hlast
          rw [show n - 1 = 0 by omega]
          exact due_of_idle hidle
        · obtain ⟨hfollow', hmode'⟩ := after_more hmode (by omega) hb hroom
          exact ⟨by omega, fun hoff => Bool.noConfusion (hmode'.symm.trans hoff)⟩
      · rw [dueAfter_broken hn hb]
        exact due_of_idle (idle_broken hmode (by omega) hb)
  · have hoff := hdue.off (Bool.eq_false_of_not_eq_true hmode)
    subst hoff
    rw [if_neg hmode]
    exact due_of_idle (idle_first hfollow fun h => absurd h hmode)

theorem dueAtLeast_process (hs : Intact s) (hdue : DueAtLeast n s) (hbreaks : ¬ Interrupts b s) :
    DueAtLeast (if s.mUTF8Mode then dueAfter b n else n) (after (process b) s) := by
  have hfollow := hdue.follow
  have hnone : DueAtLeast 0 (after (process b) s) :=
    ⟨(after_of_wp (intact_process b s hs)).follow, fun _ => rfl⟩
  by_cases hmode : s.mUTF8Mode = true
  · rw [if_pos hmode]
    rcases Nat.eq_zero_or_pos n with rfl | hn
    · cases hlead : toFollow b with
      | none =>
          rw [dueAfter_zero hlead]
          exact hnone
      | some k =>
          have hidle : s.mUTF8ToFollow = 0 := by
            by_contra hopen
            have hb : BeginsAnew b := .inr (Option.isSome_iff_exists.mpr ⟨k, hlead⟩)
            exact hbreaks ⟨hmode, by omega, hb⟩
          obtain ⟨hfollow', hmode'⟩ := after_lead hmode hidle hlead
          exact ⟨Int.le_of_eq ((dueAfter_lead hlead).trans hfollow'.symm),
            fun hoff => Bool.noConfusion (hmode'.symm.trans hoff)⟩
    · by_cases hb : b &&& 0xc0 = 0x80
      · rw [dueAfter_continuation hn hb]
        by_cases hroom : s.mUTF8ByteBuffer.position < s.mUTF8ByteBuffer.array.length
        · by_cases hlast : n = 1
          · subst hlast
            exact hnone
          · obtain ⟨hfollow', hmode'⟩ := after_more hmode (by omega) hb hroom
            exact ⟨by omega, fun hoff => Bool.noConfusion (hmode'.symm.trans hoff)⟩
        · rw [after_full hmode (by omega) hb hroom]
          exact ⟨by omega, fun hoff => Bool.noConfusion (hmode.symm.trans hoff)⟩
      · rw [dueAfter_broken hn hb]
        exact hnone
  · have hoff := hdue.off (Bool.eq_false_of_not_eq_true hmode)
    subst hoff
    rw [if_neg hmode]
    exact hnone

variable {bytes : List JByte}

theorem not_interrupts (hs : Intact s) (hclean : Clean s)
    (hreturns : Returning (bytes.map .byte) s) (hdue : Due n s) (h : Uninterrupted n bytes s) :
    ∀ w b rest, bytes = w ++ b :: rest → ¬ Interrupts b (append w s) := by
  induction bytes generalizing n s with
  | nil =>
      intro w b rest heq
      exact absurd heq.symm (List.append_ne_nil_of_right_ne_nil w (List.cons_ne_nil b rest))
  | cons b bytes ih =>
      obtain ⟨hfirst, hrest⟩ := h
      obtain ⟨hcall, hcalls⟩ := hreturns
      intro w b' rest heq
      cases w with
      | nil =>
          obtain ⟨rfl, _⟩ := List.cons.inj heq
          have hfollow := hdue.follow
          rintro ⟨hmode, hopen, hb⟩
          have hopen' : s.mUTF8ToFollow > 0 := hopen
          exact hfirst ⟨hmode, by omega, hb⟩
      | cons d w =>
          obtain ⟨rfl, htail⟩ := List.cons.inj heq
          exact ih (after_of_wp (intact_process b s hs)) (clean_process hs hclean hcall) hcalls
            (due_process hs hclean hdue b) hrest w b' rest htail

theorem uninterrupted (hs : Intact s) (hdue : DueAtLeast n s)
    (h : ∀ w b rest, bytes = w ++ b :: rest → ¬ Interrupts b (append w s)) :
    Uninterrupted n bytes s := by
  induction bytes generalizing n s with
  | nil => trivial
  | cons b bytes ih =>
      have hfirst := h [] b bytes rfl
      have hfollow := hdue.follow
      refine ⟨fun ⟨hmode, hn, hb⟩ => hfirst ⟨hmode, ?_, hb⟩, ?_⟩
      · show s.mUTF8ToFollow > 0
        omega
      · refine ih (after_of_wp (intact_process b s hs)) (dueAtLeast_process hs hdue hfirst)
          fun w b' rest heq => ?_
        exact h (b :: w) b' rest (congrArg (b :: ·) heq)

end Due

/-! ## §3  Resynchronisation -/

/-- Behind `u` the string `v` is handed on as it is, after one replacement character at most, and
no unfinished sequence swallows a byte that begins something. -/
structure Resynchronises (u : List JByte) (v : List Char) (s : TerminalEmulator) : Prop where
  text : ∃ pending, (pending = [] ∨ pending = [.emit unicodeReplacementChar]) ∧
    handedAlong (u ++ v.flatMap utf8) s = handedAlong u s ++ pending ++ v.map handedOf
  bytes : ∀ w b rest, u ++ v.flatMap utf8 = w ++ b :: rest → Survives b (append w s)

omit [Platform] in
/-- A character begins with a byte that begins something. -/
theorem exists_beginsAnew (c : Char) : ∃ b rest, utf8 c = b :: rest ∧ BeginsAnew b := by
  by_cases hascii : c.toNat < 0x80
  · refine ⟨_, _, utf8_ascii hascii, .inl ?_⟩
    rw [BitVec.toNat_ofNat]
    omega
  rcases utf8_cases (Nat.le_of_not_lt hascii) with
    ⟨_, b, hlead, heq⟩ | ⟨_, _, b, hlead, heq⟩ | ⟨_, b, hlead, heq⟩
  all_goals exact ⟨_, _, heq, .inr (Option.isSome_iff_exists.mpr ⟨_, hlead.2.1⟩)⟩

/-- **The decoder resynchronises behind every `u` only if no byte that begins something arrives
while bytes of a sequence are due, and that is enough as long as nothing is thrown on behalf of a
completed sequence.** -/
theorem resynchronises_iff (hreads : ReadsUtf8) (hs : Reachable s) (hon : s.mUTF8Mode = true)
    {u : List JByte} {v : List Char} :
    (Resynchronises u v s → Uninterrupted s.mUTF8ToFollow.toNat (u ++ v.flatMap utf8) s) ∧
    (Steady s → Returning ((u ++ v.flatMap utf8).map .byte) s → (append u s).mUTF8Mode = true →
      StaysOn v (append u s) → (Resynchronises u v s ↔
        Uninterrupted s.mUTF8ToFollow.toNat (u ++ v.flatMap utf8) s)) := by
  have hfollow := Int.toNat_of_nonneg hs.intact.follow
  have hoff : s.mUTF8Mode = false → s.mUTF8ToFollow.toNat = 0 := fun hoff =>
    Bool.noConfusion (hon.symm.trans hoff)
  have hnecessary : Resynchronises u v s →
      Uninterrupted s.mUTF8ToFollow.toNat (u ++ v.flatMap utf8) s := fun h =>
    uninterrupted hs.intact ⟨Int.le_of_eq hfollow, hoff⟩ fun w b rest heq =>
      (survives_iff (hs.append w).intact b).mp (h.bytes w b rest heq)
  refine ⟨hnecessary, fun hsteady hreturns hmode hstays => ⟨hnecessary, fun h => ?_⟩⟩
  have hbreaks := not_interrupts hs.intact hsteady.clean hreturns ⟨hfollow.symm, hoff⟩ h
  refine ⟨⟨[], .inl rfl, ?_⟩, fun w b rest heq =>
    (survives_iff (hs.append w).intact b).mpr (hbreaks w b rest heq)⟩
  rw [handedAlong_append, List.append_nil]
  congr 1
  cases v with
  | nil => rfl
  | cons c v =>
      rw [List.map_append, returning_append, ← append_eq_run] at hreturns
      have hclean := append_eq_run u s ▸ clean_run hs.intact hsteady.clean hreturns.1
      refine handedAlong_text hreads (hs.append u) hclean ?_ hreturns.2 hstays
      obtain ⟨b, rest, heq, hb⟩ := exists_beginsAnew c
      have hfollow := (hs.append u).intact.follow
      have hfirst := hbreaks u b (rest ++ v.flatMap utf8) (by
        rw [List.flatMap_cons, heq, List.cons_append])
      by_contra hopen
      have hopen' : (append u s).mUTF8ToFollow ≠ 0 := hopen
      exact hfirst ⟨hmode, by omega, hb⟩

omit [Platform] in
/-- `é` behind the letter `A`. -/
theorem resynchronises_iff_letter : let _ := samplePlatform
    ∃ s, Reachable s ∧ s.mUTF8Mode = true ∧ Resynchronises [65] ['é'] s := by
  let _ := samplePlatform
  have hcreated : (create 2 3 2).map (fun s =>
      let t := run [.setDefaultUTF8Mode true] s
      decide (t.mUTF8Mode = true ∧ t.mUTF8ToFollow = 0 ∧ (append [65] t).mUTF8Mode = true ∧
        Returning [.byte 65, .byte 0xc3, .byte 0xa9] t)) = .ok true := by
    decide +kernel
  cases hcreate : create 2 3 2 with
  | error e =>
      rw [hcreate] at hcreated
      cases hcreated
  | ok s =>
      rw [hcreate] at hcreated
      obtain ⟨hon, hidle, hmode, hreturns⟩ := of_decide_eq_true (Except.ok.inj hcreated)
      have hsteady : Steady (run [.setDefaultUTF8Mode true] s) :=
        ⟨2, 3, 2, by decide, s, [.setDefaultUTF8Mode true], hcreate, ⟨trivial, trivial⟩, rfl⟩
      have hiff := (resynchronises_iff (u := [65]) (v := ['é']) readsUtf8_sample hsteady.reachable
        hon).2 hsteady hreturns hmode ⟨fun _ => hmode, trivial⟩
      refine ⟨_, hsteady.reachable, hon, hiff.mpr ?_⟩
      have hletter : dueAfter 65 0 = 0 := by decide
      rw [hidle]
      refine ⟨fun h => absurd h.2.1 (by decide), fun h => ?_, fun h => ?_, trivial⟩
      · have hdue := h.2.1
        rw [Int.toNat_zero, hletter, ite_self] at hdue
        exact absurd hdue (by decide)
      · exact absurd h.2.2 (by unfold BeginsAnew; decide)

omit [Platform] in
/-- The letter behind an unfinished sequence is swallowed. -/
theorem swallowed_letter : let _ := samplePlatform
    ReadsUtf8 ∧ ∃ s, Reachable s ∧ s.mUTF8Mode = true ∧ (append [0xc3] s).mUTF8Mode = true ∧
      (append [0xc3] s).mEscapeState = .none ∧ ¬ Resynchronises [0xc3] ['A'] s := by
  let _ := samplePlatform
  have hcreated : (create 2 3 2).map (fun s =>
      let t := run [.setDefaultUTF8Mode true] s
      decide (t.mUTF8Mode = true ∧ (append [0xc3] t).mUTF8Mode = true ∧
        (append [0xc3] t).mEscapeState = .none ∧
        handedAlong [0xc3, 65] t = [.emit unicodeReplacementChar] ∧
        handedAlong [0xc3] t = [])) = .ok true := by
    decide +kernel
  refine ⟨readsUtf8_sample, ?_⟩
  cases hcreate : create 2 3 2 with
  | error e =>
      rw [hcreate] at hcreated
      cases hcreated
  | ok s =>
      rw [hcreate] at hcreated
      obtain ⟨hon, hmode, hground, hall, hfirst⟩ := of_decide_eq_true (Except.ok.inj hcreated)
      refine ⟨_, ⟨2, 3, 2, by decide, s, _, hcreate, rfl⟩, hon, hmode, hground, fun h => ?_⟩
      obtain ⟨pending, hpending, htext⟩ := h.text
      have hbytes : ([0xc3] : List JByte) ++ ['A'].flatMap utf8 = [0xc3, 65] := by decide
      have hletter : ['A'].map handedOf = [.process 65] := by decide
      rw [hbytes, hall, hfirst, hletter] at htext
      rcases hpending with rfl | rfl
      · exact absurd htext (by decide)
      · exact absurd htext (by decide)

end Kbox.Emulatorview.TerminalEmulator
