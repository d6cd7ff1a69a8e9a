import Kbox.Emulatorview.ByteFrames
import Kbox.Emulatorview.PrivateModes
import Kbox.Emulatorview.Utf8

/-!
# What the UTF-8 decoder hands on

Over a run of bytes, the calls of `emit` and of `process` that the decoder makes.  Its buffers are
cleared behind every call that returns, so a character is handed on whole, unless one in front of it
is unfinished.
-/

namespace Kbox.Emulatorview.TerminalEmulator

open Kbox.Framework

variable [Platform] {s t : TerminalEmulator} {b : JByte} {c : Char}

/-! ## §1  What is handed on -/

/-- A call that is made for a byte. -/
inductive Handed where
  | emit (c : Int)
  | process (b : JByte)
deriving DecidableEq

def Handed.body : Handed → EmulatorM Unit
  | .emit c => TerminalEmulator.emit c
  | .process b => processUndecoded b

/-- What a complete sequence is handed on as, by its chars. -/
def handedChars : List JChar → Option Handed
  | [] => none
  | c :: rest =>
      if 0x80 ≤ c.toNat ∧ c.toNat ≤ 0x9f then some (.process (c.setWidth 8))
      else if isHighSurrogate c then rest.head?.map fun d => .emit (toCodePoint c d)
      else some (.emit c.toNat)

/-- What is handed on when a byte arrives inside a sequence. -/
def handedInside (b : JByte) (s : TerminalEmulator) : Option Handed :=
  if b &&& 0xc0 ≠ 0x80 then some (.emit unicodeReplacementChar)
  else if s.mUTF8ToFollow - 1 = 0 then
    match (do putByte b; decodeBuffer : EmulatorM Unit) s with
    | .ok _ t => handedChars t.mInputCharBuffer.array
    | .error _ _ => none
  else none

/-- What is handed on of a byte that starts a sequence, or should. -/
def handedFirst (b : JByte) : Option Handed :=
  match toFollow b with
  | some _ => none
  | none => some (.emit unicodeReplacementChar)

/-- What is handed on when a byte arrives. -/
def handed (b : JByte) (s : TerminalEmulator) : Option Handed :=
  if s.mUTF8Mode then
    if s.mUTF8ToFollow = 0 ∧ b.toNat < 0x80 then some (.process b)
    else if s.mUTF8ToFollow > 0 then handedInside b s
    else handedFirst b
  else some (.process b)

/-- Along a run. -/
def handedAlong : List JByte → TerminalEmulator → List Handed
  | [], _ => []
  | b :: bytes, s => (handed b s).toList ++ handedAlong bytes (after (process b) s)

theorem handedAlong_append (bytes bytes' : List JByte) (s : TerminalEmulator) :
    handedAlong (bytes ++ bytes') s =
      handedAlong bytes s ++ handedAlong bytes' (append bytes s) := by
  induction bytes generalizing s with
  | nil => rfl
  | cons b bytes ih =>
      rw [List.cons_append, handedAlong, handedAlong, ih, List.append_assoc]
      rfl

omit [Platform] in
/-- The same emulator, the state of the decoder apart. -/
def SameButDecoder (s t : TerminalEmulator) : Prop :=
  ∃ follow bytes chars, t = { s with
    mUTF8ToFollow := follow, mUTF8ByteBuffer := bytes, mInputCharBuffer := chars }

omit [Platform] in
theorem SameButDecoder.refl (s : TerminalEmulator) : SameButDecoder s s := ⟨_, _, _, rfl⟩

/-- `x` makes the call `d`, and does nothing else but move the decoder. -/
def Makes (d : Handed) (x : EmulatorM Unit) (s : TerminalEmulator) : Prop :=
  ∃ t f, SameButDecoder s t ∧ (∀ u, SameButDecoder u (f u)) ∧
    x s = (do d.body; modify f : EmulatorM Unit) t

theorem makes_of_eq {d : Handed} {x : EmulatorM Unit} (hs : SameButDecoder s t)
    (h : x s = d.body t) : Makes d x s := by
  refine ⟨t, id, hs, SameButDecoder.refl, h.trans ?_⟩
  show _ = EStateM.bind d.body (fun _ => modify id) t
  unfold EStateM.bind
  cases d.body t with
  | ok a u => rfl
  | error e u => rfl

theorem emitDecoded_some {chars : List JChar} {d : Handed} (h : handedChars chars = some d) :
    emitDecoded chars = d.body := by
  cases chars with
  | nil => cases h
  | cons c rest =>
      have hfirst : arrayGet (.arrayIndexOutOfBounds .chars) (c :: rest) (0 : Int) =
          .ok (ε := Exn) c := rfl
      rw [handedChars] at h
      unfold emitDecoded emitChars
      rw [hfirst]
      simp only [checked, pure_bind]
      split_ifs at h with hc1 hhigh
      · cases h
        exact if_pos hc1
      · cases rest with
        | nil => cases h
        | cons d rest =>
            have hsecond : arrayGet (.arrayIndexOutOfBounds .chars) (c :: d :: rest) (1 : Int) =
                .ok (ε := Exn) d := rfl
            cases h
            rw [if_neg hc1, if_pos hhigh, hsecond]
            rfl
      · cases h
        rw [if_neg hc1, if_neg hhigh]
        rfl

theorem emitDecoded_none {chars : List JChar} (h : handedChars chars = none)
    (t : TerminalEmulator) : ∃ e, emitDecoded chars t = .error e t := by
  cases chars with
  | nil => exact ⟨_, rfl⟩
  | cons c rest =>
      have hfirst : arrayGet (.arrayIndexOutOfBounds .chars) (c :: rest) (0 : Int) =
          .ok (ε := Exn) c := rfl
      rw [handedChars] at h
      unfold emitDecoded emitChars
      rw [hfirst]
      simp only [checked, pure_bind]
      split_ifs at h with hc1 hhigh
      cases rest with
      | nil =>
          rw [if_neg hc1, if_pos hhigh]
          exact ⟨_, rfl⟩
      | cons d rest => cases h

/-- The buffer with one more byte. -/
def stored (b : JByte) (s : TerminalEmulator) : TerminalEmulator :=
  { s with mUTF8ByteBuffer :=
      ⟨s.mUTF8ByteBuffer.array.set s.mUTF8ByteBuffer.position b, s.mUTF8ByteBuffer.position + 1⟩ }

omit [Platform] in
theorem putByte_ok (h : s.mUTF8ByteBuffer.position < s.mUTF8ByteBuffer.array.length) (b : JByte) :
    putByte b s = .ok ⟨⟩ (stored b s) := by
  simp only [putByte, throwIf, bind, EStateM.bind, get_apply]
  rw [if_neg (Nat.not_le.mpr h)]
  rfl

omit [Platform] in
theorem putByte_full (h : ¬ s.mUTF8ByteBuffer.position < s.mUTF8ByteBuffer.array.length)
    (b : JByte) : ∃ e, putByte b s = .error e s := by
  simp only [putByte, throwIf, bind, EStateM.bind, get_apply]
  rw [if_pos (Nat.le_of_not_lt h)]
  exact ⟨_, rfl⟩

theorem putByte_decodeBuffer (h : s.mUTF8ByteBuffer.position < s.mUTF8ByteBuffer.array.length)
    (b : JByte) : (do putByte b; decodeBuffer : EmulatorM Unit) s =
      .ok ⟨⟩ (after decodeBuffer (stored b s)) := by
  simp only [bind, EStateM.bind, putByte_ok h]
  rfl

/-- The last byte of a sequence is stored, and the sequence decoded. -/
def completed (b : JByte) (s : TerminalEmulator) : TerminalEmulator :=
  after decodeBuffer { stored b s with mUTF8ToFollow := s.mUTF8ToFollow - 1 }

theorem same_completed (b : JByte) (s : TerminalEmulator) : SameButDecoder s (completed b s) :=
  ⟨_, _, _, rfl⟩

theorem continueUTF8_last (hb : b &&& 0xc0 = 0x80)
    (hroom : s.mUTF8ByteBuffer.position < s.mUTF8ByteBuffer.array.length)
    (hlast : s.mUTF8ToFollow - 1 = 0) : continueUTF8 b s = (do
      emitDecoded (completed b s).mInputCharBuffer.array
      modify fun s => { s with
        mUTF8ByteBuffer := { s.mUTF8ByteBuffer with position := 0 }
        mInputCharBuffer := { s.mInputCharBuffer with position := 0 } } : EmulatorM Unit)
      (completed b s) := by
  unfold continueUTF8
  rw [if_neg (not_not_intro hb)]
  simp only [bind, EStateM.bind, putByte_ok hroom, modify_apply, get_apply]
  show when (s.mUTF8ToFollow - 1 = 0) finishUTF8 _ = _
  rw [when, if_pos hlast]
  rfl

theorem continueUTF8_more (hb : b &&& 0xc0 = 0x80)
    (hroom : s.mUTF8ByteBuffer.position < s.mUTF8ByteBuffer.array.length)
    (hmore : s.mUTF8ToFollow - 1 ≠ 0) : continueUTF8 b s =
      .ok ⟨⟩ { stored b s with mUTF8ToFollow := s.mUTF8ToFollow - 1 } := by
  unfold continueUTF8
  rw [if_neg (not_not_intro hb)]
  simp only [bind, EStateM.bind, putByte_ok hroom, modify_apply, get_apply]
  show when (s.mUTF8ToFollow - 1 = 0) finishUTF8 _ = _
  rw [when, if_neg hmore]
  rfl

theorem continueUTF8_full (hb : b &&& 0xc0 = 0x80)
    (hfull : ¬ s.mUTF8ByteBuffer.position < s.mUTF8ByteBuffer.array.length) :
    ∃ e, continueUTF8 b s = .error e s := by
  obtain ⟨e, he⟩ := putByte_full hfull b
  refine ⟨e, ?_⟩
  unfold continueUTF8
  rw [if_neg (not_not_intro hb)]
  simp only [bind, EStateM.bind, he]

/-- `x` makes the call that is handed on, if any, and changes nothing but the decoder besides. -/
structure HandsOn (handed : Option Handed) (x : EmulatorM Unit) (s : TerminalEmulator) : Prop where
  call : ∀ d, handed = some d → Makes d x s
  rest : handed = none → SameButDecoder s (after x s)

section HandingOn

variable {o : Option Handed} {d : Handed} {x y : EmulatorM Unit}

theorem HandsOn.congr (h : HandsOn o y s) (hxy : x s = y s) : HandsOn o x s where
  call d hd := by
    obtain ⟨t, f, ht, hf, heq⟩ := h.call d hd
    exact ⟨t, f, ht, hf, hxy.trans heq⟩
  rest hnone := by
    have hrest := h.rest hnone
    unfold after at hrest ⊢
    rw [hxy]
    exact hrest

theorem handsOn_some (h : Makes d x s) : HandsOn (some d) x s where
  call := by
    rintro _ ⟨⟩
    exact h
  rest := by
    rintro ⟨⟩

theorem handsOn_none (h : SameButDecoder s (after x s)) : HandsOn none x s where
  call := by
    rintro _ ⟨⟩
  rest _ := h

theorem handsOn_ok (h : x s = .ok ⟨⟩ t) (ht : SameButDecoder s t) : HandsOn none x s := by
  refine handsOn_none ?_
  unfold after
  rw [h]
  exact ht

theorem handsOn_error (h : ∃ e, x s = .error e t) (ht : SameButDecoder s t) :
    HandsOn none x s := by
  obtain ⟨e, he⟩ := h
  refine handsOn_none ?_
  unfold after
  rw [he]
  exact ht

/-- The last byte of a sequence. -/
theorem handsOn_last (hb : b &&& 0xc0 = 0x80)
    (hroom : s.mUTF8ByteBuffer.position < s.mUTF8ByteBuffer.array.length)
    (hlast : s.mUTF8ToFollow - 1 = 0) :
    HandsOn (handedChars (completed b s).mInputCharBuffer.array) (continueUTF8 b) s := by
  have hfinish := continueUTF8_last hb hroom hlast
  have hsame := same_completed b s
  cases hchars : handedChars (completed b s).mInputCharBuffer.array with
  | some d =>
      rw [emitDecoded_some hchars] at hfinish
      exact handsOn_some ⟨_, _, hsame, fun _ => ⟨_, _, _, rfl⟩, hfinish⟩
  | none =>
      obtain ⟨e, he⟩ := emitDecoded_none hchars (completed b s)
      refine handsOn_error ⟨e, ?_⟩ hsame
      rw [hfinish]
      simp only [bind, EStateM.bind, he]

theorem handsOn_inside (b : JByte) (s : TerminalEmulator) :
    HandsOn (handedInside b s) (continueUTF8 b) s := by
  unfold handedInside
  by_cases hb : b &&& 0xc0 = 0x80
  · rw [if_neg (not_not_intro hb)]
    by_cases hroom : s.mUTF8ByteBuffer.position < s.mUTF8ByteBuffer.array.length
    · by_cases hlast : s.mUTF8ToFollow - 1 = 0
      · rw [if_pos hlast, putByte_decodeBuffer hroom]
        exact handsOn_last hb hroom hlast
      · rw [if_neg hlast]
        exact handsOn_ok (continueUTF8_more hb hroom hlast) ⟨_, _, _, rfl⟩
    · -- there is no room, so the byte is handed on in no case
      obtain ⟨e, he⟩ := putByte_full hroom b
      have hfull : (do putByte b; decodeBuffer : EmulatorM Unit) s = .error e s := by
        simp only [bind, EStateM.bind, he]
      rw [hfull]
      simp only [ite_self]
      exact handsOn_error (continueUTF8_full hb hroom) (SameButDecoder.refl s)
  · rw [if_pos hb]
    refine handsOn_some (makes_of_eq (t := { s with
      mUTF8ToFollow := 0
      mUTF8ByteBuffer := { s.mUTF8ByteBuffer with position := 0 } }) ⟨_, _, _, rfl⟩ ?_)
    rw [continueUTF8, if_pos hb]
    rfl

theorem handsOn_first (b : JByte) (s : TerminalEmulator) :
    HandsOn (handedFirst b) (startUTF8 b) s := by
  unfold handedFirst startUTF8
  cases toFollow b with
  | none => exact handsOn_some (makes_of_eq (SameButDecoder.refl s) rfl)
  | some n =>
      refine handsOn_none ?_
      unfold after
      simp only [bind, EStateM.bind, modify_apply]
      by_cases hroom : s.mUTF8ByteBuffer.position < s.mUTF8ByteBuffer.array.length
      · rw [putByte_ok (s := { s with mUTF8ToFollow := n }) hroom]
        exact ⟨_, _, _, rfl⟩
      · obtain ⟨e, he⟩ := putByte_full (s := { s with mUTF8ToFollow := n }) hroom b
        rw [he]
        exact ⟨_, _, _, rfl⟩

/-- What `handed` says is what `process` does. -/
theorem process_handsOn (b : JByte) (s : TerminalEmulator) :
    HandsOn (handed b s) (process b) s := by
  have hsame := SameButDecoder.refl s
  unfold handed
  by_cases hmode : s.mUTF8Mode = true
  · rw [if_pos hmode]
    by_cases hascii : s.mUTF8ToFollow = 0 ∧ b.toNat < 0x80
    · rw [if_pos hascii]
      exact handsOn_some (makes_of_eq hsame (process_undecoded fun _ => hascii))
    · rw [if_neg hascii]
      by_cases hfollow : s.mUTF8ToFollow > 0
      · rw [if_pos hfollow]
        exact (handsOn_inside b s).congr (process_continue b hmode hfollow)
      · rw [if_neg hfollow]
        exact (handsOn_first b s).congr (process_start hmode (by omega) (by omega))
  · rw [if_neg hmode]
    exact handsOn_some (makes_of_eq hsame (process_undecoded fun h => absurd h hmode))

end HandingOn

/-! ## §2  The decoder along a run -/

/-- An invariant about the state of the decoder alone, however far a sequence is. -/
class AboutDecoder (I : TerminalEmulator → Prop) : Prop where
  same : ∀ {s t : TerminalEmulator}, I s → (modesOf t).2 = (modesOf s).2 → I t
  cleared : ∀ {s : TerminalEmulator}, I s → I { s with
    mUTF8ToFollow := 0
    mUTF8ByteBuffer := { s.mUTF8ByteBuffer with position := 0 }
    mInputCharBuffer := { s.mInputCharBuffer with position := 0 } }
  rewound : ∀ {s : TerminalEmulator}, I s → I { s with
    mUTF8ByteBuffer := { s.mUTF8ByteBuffer with position := 0 }
    mInputCharBuffer := { s.mInputCharBuffer with position := 0 } }

section Invariants

variable {I : TerminalEmulator → Prop} [AboutDecoder I]

omit [Platform] in
instance : Framed I := ⟨fun h hsame => AboutDecoder.same h (congrArg Prod.snd hsame)⟩

omit [Platform] in
theorem decoder_modify {f : TerminalEmulator → TerminalEmulator}
    (hf : ∀ s, (modesOf (f s)).2 = (modesOf s).2) : Keeps I (modify f : EmulatorM Unit) :=
  keeps_modify fun s h => AboutDecoder.same h (hf s)

omit [Platform] in
theorem decoder_setUTF8Mode (utf8Mode : Bool) : Keeps I (setUTF8Mode utf8Mode) := by
  refine keeps_modify fun s h => ?_
  by_cases hset : utf8Mode = true ∧ ¬ s.mUTF8Mode = true
  · simp only [if_pos hset]
    exact AboutDecoder.same (AboutDecoder.cleared h) rfl
  · simp only [if_neg hset]
    exact AboutDecoder.same h rfl

omit [Platform] in
theorem decoder_doEscPercent (b : JByte) : Keeps I (doEscPercent b) := by
  have hselect (utf8Mode : Bool) : Keeps I (doEscPercent.select utf8Mode) :=
    Keeps.then (decoder_setUTF8Mode _) (decoder_modify fun _ => rfl)
  unfold doEscPercent
  split
  · exact hselect false
  · exact hselect true
  · exact keeps_pure _

omit [Platform] in
theorem decoder_changeDecFlags (b : JByte) (mask : BitVec 32) :
    Keeps I (changeDecFlags b mask) := by
  unfold changeDecFlags
  split
  case h_5 => exact framed_parseArg b
  all_goals exact decoder_modify fun _ => rfl

omit [Platform] in
/-- No sequence touches the decoder, but for `ESC %`, which empties it. -/
theorem decoder_endsKept (b : JByte) (s : TerminalEmulator) : EndsKept I b s where
  esc _ _ := keeps_get_bind fun _ =>
    (framed_setCursorRowCol _ _).then (decoder_modify fun _ => rfl)
  priv _ := decoder_changeDecFlags b
  percent _ := decoder_doEscPercent b

theorem decoder_processUndecoded (b : JByte) : Keeps I (processUndecoded b) := by
  intro s h
  unfold processUndecoded
  rw [wp_ite, wp_bind]
  refine ⟨fun _ => ?_, fun _ => framed_dispatch (decoder_endsKept b s) h⟩
  exact wp_mono (framed_dispatch (decoder_endsKept _ s) h)
    (fun _ t ht => framed_dispatch (decoder_endsKept _ t) ht) fun _ _ ht => ht

theorem decoder_reset : Keeps I reset := by
  refine Keeps.then (decoder_modify fun _ => rfl) (Keeps.then (decoder_modify fun _ => rfl)
    (Keeps.then (decoder_modify fun _ => rfl) (keeps_get_bind fun s => ?_)))
  refine (framed_blockClear _ _ _ _).then ((decoder_setUTF8Mode _).then ?_)
  exact keeps_modify fun t ht => AboutDecoder.same (AboutDecoder.cleared ht) rfl

omit [Platform] in
theorem decoder_setDefaultUTF8Mode (utf8Mode : Bool) : Keeps I (setDefaultUTF8Mode utf8Mode) :=
  Keeps.then (decoder_modify fun _ => rfl) (keeps_get_bind fun _ =>
    keeps_when fun _ => decoder_setUTF8Mode utf8Mode)

theorem decoder_emitDecoded (chars : List JChar) : Keeps I (emitDecoded chars) :=
  (keeps_checked _).bind fun _ =>
    keeps_ite (fun _ => decoder_processUndecoded _) fun _ => framed_emitChars chars

/-- What becomes of the decoder when the last byte of a sequence arrives. -/
theorem decoder_last (hb : b &&& 0xc0 = 0x80)
    (hroom : s.mUTF8ByteBuffer.position < s.mUTF8ByteBuffer.array.length)
    (hlast : s.mUTF8ToFollow - 1 = 0) (h : I (completed b s)) :
    wp (continueUTF8 b) (fun _ => I) (fun _ => I) s := by
  have hkept := (decoder_emitDecoded (completed b s).mInputCharBuffer.array).then
    (keeps_modify fun _ => AboutDecoder.rewound) _ h
  unfold wp at hkept ⊢
  rw [continueUTF8_last hb hroom hlast]
  exact hkept

end Invariants

/-- No sequence is open. -/
def Idle (s : TerminalEmulator) : Prop := s.mUTF8ToFollow = 0

omit [Platform] in
instance : AboutDecoder Idle where
  same h hsame := (congrArg Prod.fst hsame).trans h
  cleared _ := rfl
  rewound h := h

/-- The buffers have kept their sizes. -/
structure Intact (s : TerminalEmulator) : Prop where
  follow : 0 ≤ s.mUTF8ToFollow
  bytes : s.mUTF8ByteBuffer.array.length = 4
  chars : 2 ≤ s.mInputCharBuffer.array.length

omit [Platform] in
theorem decoder_fields (h : (modesOf t).2 = (modesOf s).2) :
    t.mUTF8ToFollow = s.mUTF8ToFollow ∧ t.mUTF8ByteBuffer = s.mUTF8ByteBuffer ∧
      t.mInputCharBuffer = s.mInputCharBuffer := by
  obtain ⟨hfollow, hbuffers⟩ := Prod.ext_iff.mp h
  obtain ⟨hbytes, hchars⟩ := Prod.ext_iff.mp hbuffers
  exact ⟨hfollow, hbytes, hchars⟩

omit [Platform] in
instance : AboutDecoder Intact where
  same h hsame := by
    obtain ⟨hfollow, hbytes, hchars⟩ := decoder_fields hsame
    exact ⟨hfollow ▸ h.follow, hbytes ▸ h.bytes, hchars ▸ h.chars⟩
  cleared h := ⟨Int.le_refl 0, h.bytes, h.chars⟩
  rewound h := ⟨h.follow, h.bytes, h.chars⟩

/-- The buffers hold a sequence that is open, and nothing else. -/
structure Clean (s : TerminalEmulator) : Prop where
  bytes : s.mUTF8ToFollow = 0 → s.mUTF8ByteBuffer.position = 0
  room : s.mUTF8ByteBuffer.position + s.mUTF8ToFollow ≤ 4
  chars : s.mInputCharBuffer.position = 0

omit [Platform] in
instance : AboutDecoder Clean where
  same h hsame := by
    obtain ⟨hfollow, hbytes, hchars⟩ := decoder_fields hsame
    exact ⟨fun hidle => hbytes ▸ h.bytes (hfollow ▸ hidle), hbytes ▸ hfollow ▸ h.room,
      hchars ▸ h.chars⟩
  cleared _ := ⟨fun _ => rfl, (show ((0 : Nat) : Int) + 0 ≤ 4 by decide), rfl⟩
  rewound h := ⟨fun _ => rfl, (Int.add_le_add_right (Int.natCast_nonneg _) _).trans h.room, rfl⟩

theorem Intact.completed (h : Intact s) (hfollow : s.mUTF8ToFollow > 0) (b : JByte) :
    Intact (completed b s) := by
  refine ⟨?_, List.length_set.trans h.bytes, ?_⟩
  · show 0 ≤ s.mUTF8ToFollow - 1
    omega
  · have hchars := h.chars
    show 2 ≤ (splice s.mInputCharBuffer.array s.mInputCharBuffer.position
      (Platform.decode _ _).1).length
    simp only [splice, List.length_append, List.length_take, List.length_drop]
    omega

omit [Platform] in
theorem toFollow_range {n : Int} (h : toFollow b = some n) : 0 < n ∧ n ≤ 3 := by
  unfold toFollow at h
  split_ifs at h <;> cases h <;> decide

theorem intact_process (b : JByte) : Keeps Intact (process b) := by
  intro s h
  by_cases hraw : s.mUTF8Mode = true → s.mUTF8ToFollow = 0 ∧ b.toNat < 0x80
  · rw [wp_congr (process_undecoded hraw)]
    exact decoder_processUndecoded b s h
  push Not at hraw
  obtain ⟨hmode, hstart⟩ := hraw
  by_cases hfollow : s.mUTF8ToFollow > 0
  · rw [wp_congr (process_continue b hmode hfollow)]
    by_cases hb : b &&& 0xc0 = 0x80
    · by_cases hroom : s.mUTF8ByteBuffer.position < s.mUTF8ByteBuffer.array.length
      · by_cases hlast : s.mUTF8ToFollow - 1 = 0
        · exact decoder_last hb hroom hlast (h.completed hfollow b)
        · refine (wp_of_ok (continueUTF8_more hb hroom hlast)).mpr ⟨?_, ?_, h.chars⟩
          · show 0 ≤ s.mUTF8ToFollow - 1
            omega
          · exact List.length_set.trans h.bytes
      · obtain ⟨e, he⟩ := continueUTF8_full hb hroom
        exact (wp_of_error he).mpr h
    · unfold continueUTF8
      rw [if_pos hb, wp_bind, wp_modify]
      exact framed_emit _ _ ⟨Int.le_refl 0, h.bytes, h.chars⟩
  · rw [wp_congr (process_start hmode (by omega) hstart)]
    unfold startUTF8
    cases hlead : toFollow b with
    | none => exact framed_emit _ s h
    | some n =>
        have hn : Intact { s with mUTF8ToFollow := n } :=
          ⟨Int.le_of_lt (toFollow_range hlead).1, h.bytes, h.chars⟩
        simp only []
        rw [wp_bind, wp_modify]
        by_cases hroom : s.mUTF8ByteBuffer.position < s.mUTF8ByteBuffer.array.length
        · refine (wp_of_ok (putByte_ok (s := { s with mUTF8ToFollow := n }) hroom b)).mpr ?_
          exact ⟨hn.follow, List.length_set.trans h.bytes, h.chars⟩
        · obtain ⟨e, he⟩ := putByte_full (s := { s with mUTF8ToFollow := n }) hroom b
          exact (wp_of_error he).mpr hn

theorem intact_call (call : Call) : Keeps Intact call.body := by
  cases call with
  | byte b => exact intact_process b
  | updateSize columns rows => exact framed_updateSize columns rows
  | reset => exact decoder_reset
  | setDefaultUTF8Mode utf8 => exact decoder_setDefaultUTF8Mode utf8

theorem Reachable.intact (h : Reachable s) : Intact s := by
  obtain ⟨columns, totalRows, rows, _, s₀, calls, hcreate, rfl⟩ := h
  obtain ⟨screen, _, hreset⟩ := bind_ok_iff.mp hcreate
  have hstart : Intact s₀ := by
    refine of_construct hreset (decoder_reset _ ⟨Int.le_refl 0, ?_, ?_⟩)
    · exact List.length_replicate
    · exact Nat.le_of_eq List.length_replicate.symm
  exact keeps_foldl_after (fun call _ => intact_call call) hstart

/-! ## §3  Calls that return -/

/-- The byte completes a sequence. -/
def Completes (b : JByte) (s : TerminalEmulator) : Prop :=
  s.mUTF8Mode = true ∧ s.mUTF8ToFollow = 1 ∧ b &&& 0xc0 = 0x80

/-- Nothing is thrown on behalf of a completed sequence. -/
def Call.Returns : Call → TerminalEmulator → Prop
  | .byte b, s => Completes b s → ((process b).run' s).isSome
  | _, _ => True

def Returning : List Call → TerminalEmulator → Prop
  | [], _ => True
  | call :: calls, s => call.Returns s ∧ Returning calls (after call.body s)

omit [Platform] in
instance (b : JByte) (s : TerminalEmulator) : Decidable (Completes b s) :=
  inferInstanceAs (Decidable (_ ∧ _ ∧ _))

instance : ∀ (call : Call) (s : TerminalEmulator), Decidable (call.Returns s)
  | .byte b, s => inferInstanceAs (Decidable (Completes b s → ((process b).run' s).isSome))
  | .updateSize _ _, _ | .reset, _ | .setDefaultUTF8Mode _, _ => .isTrue trivial

instance decidableReturning : ∀ (calls : List Call) (s : TerminalEmulator),
    Decidable (Returning calls s)
  | [], _ => .isTrue trivial
  | call :: calls, s =>
      let _ := decidableReturning calls (after call.body s)
      inferInstanceAs (Decidable (call.Returns s ∧ Returning calls (after call.body s)))

theorem returning_append {calls calls' : List Call} :
    Returning (calls ++ calls') s ↔ Returning calls s ∧ Returning calls' (run calls s) := by
  induction calls generalizing s with
  | nil => exact ⟨fun h => ⟨trivial, h⟩, fun h => h.2⟩
  | cons call calls ih =>
      rw [List.cons_append, Returning, Returning, ih, and_assoc]
      rfl

theorem append_eq_run (bytes : List JByte) (s : TerminalEmulator) :
    append bytes s = run (bytes.map .byte) s := by
  unfold append run
  rw [List.foldl_map]
  rfl

/-- What `finishUTF8` clears behind a call that returns. -/
theorem cleared_last (hmode : s.mUTF8Mode = true) (hfollow : s.mUTF8ToFollow = 1)
    (hb : b &&& 0xc0 = 0x80)
    (hroom : s.mUTF8ByteBuffer.position < s.mUTF8ByteBuffer.array.length)
    (h : process b s = .ok ⟨⟩ t) : Clean t := by
  have hlast : s.mUTF8ToFollow - 1 = 0 := by omega
  have hprocess := process_continue b hmode (show s.mUTF8ToFollow > 0 by omega)
  have hpositions : wp (continueUTF8 b) (fun _ u => u.mUTF8ByteBuffer.position = 0 ∧
      u.mInputCharBuffer.position = 0) (fun _ _ => True) s := by
    have hfinish : wp (do
        emitDecoded (completed b s).mInputCharBuffer.array
        modify fun s => { s with
          mUTF8ByteBuffer := { s.mUTF8ByteBuffer with position := 0 }
          mInputCharBuffer := { s.mInputCharBuffer with position := 0 } } : EmulatorM Unit)
        (fun _ u => u.mUTF8ByteBuffer.position = 0 ∧ u.mInputCharBuffer.position = 0)
        (fun _ _ => True) (completed b s) := by
      rw [wp_bind]
      exact wp_mono (wp_true _ _) (fun _ u _ => (wp_modify _ _ _ _).mpr ⟨rfl, rfl⟩) fun _ _ _ => trivial
    unfold wp at hfinish ⊢
    rw [continueUTF8_last hb hroom hlast]
    exact hfinish
  have hidle : wp (continueUTF8 b) (fun _ => Idle) (fun _ => Idle) s :=
    decoder_last hb hroom hlast hlast
  rw [hprocess] at h
  obtain ⟨hbytes, hchars⟩ := (wp_of_ok h).mp hpositions
  have hidle' : t.mUTF8ToFollow = 0 := (wp_of_ok h).mp hidle
  refine ⟨fun _ => hbytes, ?_, hchars⟩
  rw [hbytes, hidle']
  decide

omit [Platform] in
theorem Clean.has_room (h : Clean s) (hs : Intact s) (hfollow : s.mUTF8ToFollow > 0) :
    s.mUTF8ByteBuffer.position < s.mUTF8ByteBuffer.array.length := by
  have hroom := h.room
  rw [hs.bytes]
  omega

theorem clean_process (hs : Intact s) (h : Clean s) (hreturns : (Call.byte b).Returns s) :
    Clean (after (process b) s) := by
  by_cases hraw : s.mUTF8Mode = true → s.mUTF8ToFollow = 0 ∧ b.toNat < 0x80
  · refine after_of_wp ?_
    rw [wp_congr (process_undecoded hraw)]
    exact decoder_processUndecoded b s h
  push Not at hraw
  obtain ⟨hmode, hstart⟩ := hraw
  by_cases hfollow : s.mUTF8ToFollow > 0
  · by_cases hb : b &&& 0xc0 = 0x80
    · have hroom := h.has_room hs hfollow
      by_cases hlast : s.mUTF8ToFollow - 1 = 0
      · have hone : s.mUTF8ToFollow = 1 := by omega
        have hok := run_ok_iff.mpr ⟨hreturns ⟨hmode, hone, hb⟩, rfl⟩
        exact cleared_last hmode hone hb hroom hok
      · refine after_of_wp ?_
        rw [wp_congr (process_continue b hmode hfollow)]
        refine (wp_of_ok (continueUTF8_more hb hroom hlast)).mpr ⟨fun h' => absurd h' hlast, ?_,
          h.chars⟩
        have := h.room
        show ((s.mUTF8ByteBuffer.position + 1 : Nat) : Int) + (s.mUTF8ToFollow - 1) ≤ 4
        omega
    · refine after_of_wp ?_
      rw [wp_congr (process_continue b hmode hfollow), continueUTF8, if_pos hb, wp_bind, wp_modify]
      exact framed_emit _ _ ⟨fun _ => rfl, (show ((0 : Nat) : Int) + 0 ≤ 4 by decide), h.chars⟩
  · refine after_of_wp ?_
    rw [wp_congr (process_start hmode (by omega) hstart)]
    unfold startUTF8
    cases hlead : toFollow b with
    | none => exact framed_emit _ s h
    | some n =>
        obtain ⟨hpos, hle⟩ := toFollow_range hlead
        have hfollow' := hs.follow
        have hempty := h.bytes (by omega)
        have hroom : s.mUTF8ByteBuffer.position < s.mUTF8ByteBuffer.array.length := by
          rw [hempty, hs.bytes]
          decide
        simp only []
        rw [wp_bind, wp_modify]
        refine (wp_of_ok (putByte_ok (s := { s with mUTF8ToFollow := n }) hroom b)).mpr
          ⟨fun h' => ?_, ?_, h.chars⟩
        · have h' : n = 0 := h'
          omega
        · show ((s.mUTF8ByteBuffer.position + 1 : Nat) : Int) + n ≤ 4
          omega

theorem clean_run (hs : Intact s) (h : Clean s) {calls : List Call} (hreturns : Returning calls s) :
    Clean (run calls s) := by
  induction calls generalizing s with
  | nil => exact h
  | cons call calls ih =>
      obtain ⟨hcall, hcalls⟩ := hreturns
      refine ih (after_of_wp (intact_call call s hs)) ?_ hcalls
      cases call with
      | byte b => exact clean_process hs h hcall
      | updateSize columns rows => exact after_of_wp (framed_updateSize columns rows s h)
      | reset => exact after_of_wp (decoder_reset s h)
      | setDefaultUTF8Mode utf8 => exact after_of_wp (decoder_setDefaultUTF8Mode utf8 s h)

/-- What calls lead to during which nothing is thrown on behalf of a completed sequence. -/
def Steady (s : TerminalEmulator) : Prop :=
  ∃ columns totalRows rows, 0 < columns ∧
    ∃ s₀ calls, create columns totalRows rows = .ok s₀ ∧ Returning calls s₀ ∧ run calls s₀ = s

theorem Steady.reachable (h : Steady s) : Reachable s := by
  obtain ⟨columns, totalRows, rows, hpos, s₀, calls, hcreate, _, hrun⟩ := h
  exact ⟨columns, totalRows, rows, hpos, s₀, calls, hcreate, hrun⟩

theorem Steady.clean (h : Steady s) : Clean s := by
  obtain ⟨columns, totalRows, rows, hpos, s₀, calls, hcreate, hreturns, rfl⟩ := h
  have hs : Intact s₀ := Reachable.intact ⟨columns, totalRows, rows, hpos, s₀, [], hcreate, rfl⟩
  obtain ⟨screen, _, hreset⟩ := bind_ok_iff.mp hcreate
  have hclean : Clean (allocate screen columns rows) :=
    ⟨fun _ => rfl, (show ((0 : Nat) : Int) + 0 ≤ 4 by decide), rfl⟩
  exact clean_run hs (of_construct hreset (decoder_reset _ hclean)) hreturns

/-! ## §4  Characters -/

/-- What is to become of a character: a call of `process` for ASCII and the C1 controls, and one
of `emit` for every other one. -/
def handedOf (c : Char) : Handed :=
  if c.toNat ≤ 0x9f then .process (BitVec.ofNat 8 c.toNat) else .emit c.toNat

section Characters

omit [Platform] in
theorem handedChars_utf16 (hc : 0x80 ≤ c.toNat) (chars : List JChar) :
    handedChars (utf16 c ++ chars) = some (handedOf c) := by
  have hrange := CodePointWriter.scalar_range c
  unfold utf16
  by_cases hbmp : c.toNat < 0x10000
  · have hu : (toJChar (c.toNat : Int)).toNat = c.toNat := by
      unfold toJChar
      rw [BitVec.toNat_ofInt]
      omega
    obtain ⟨u, heq, hhigh, _⟩ := CodePointWriter.toChars_bmp hbmp
    have hhead : u = toJChar c.toNat := by
      unfold toChars at heq
      rw [if_neg (by omega)] at heq
      exact (List.cons.inj heq).1.symm
    rw [heq, List.singleton_append, handedChars, hhigh, hhead, hu]
    unfold handedOf
    by_cases hc1 : c.toNat ≤ 0x9f
    · rw [if_pos ⟨hc, hc1⟩, if_pos hc1]
      congr 2
      apply BitVec.eq_of_toNat_eq
      rw [BitVec.toNat_setWidth, hu, BitVec.toNat_ofNat]
    · rw [if_neg (fun h => hc1 h.2), if_neg hc1, if_neg (by decide)]
  · obtain ⟨u, v, heq, hhigh, _, hpoint⟩ := CodePointWriter.toChars_pair (Nat.le_of_not_lt hbmp)
    have hsurrogate := of_decide_eq_true hhigh
    have hvalue : toCodePoint u v = c.toNat := by omega
    rw [heq, List.cons_append, handedChars, if_neg (by omega), if_pos hhigh]
    unfold handedOf
    rw [if_neg (by omega), ← hvalue]
    rfl

theorem process_isLead (hmode : s.mUTF8Mode = true) (hidle : Idle s)
    (hroom : s.mUTF8ByteBuffer.position < s.mUTF8ByteBuffer.array.length) {follow bits : Nat}
    (hb : IsLead b follow bits) : handed b s = none ∧
      after (process b) s = { stored b s with mUTF8ToFollow := follow } := by
  have hlarge := hb.1
  have hfollow : ¬ s.mUTF8ToFollow > 0 := by
    rw [hidle]
    decide
  constructor
  · unfold handed
    rw [if_pos hmode, if_neg (by omega), if_neg hfollow, handedFirst, hb.2.1]
  · unfold after
    rw [process_start hmode (Int.le_of_eq hidle) fun _ => hlarge, startUTF8, hb.2.1]
    simp only [bind, EStateM.bind, modify_apply]
    rw [putByte_ok (s := { s with mUTF8ToFollow := (follow : Int) }) hroom]
    rfl

theorem process_middle (hmode : s.mUTF8Mode = true) (hfollow : 1 < s.mUTF8ToFollow)
    (hroom : s.mUTF8ByteBuffer.position < s.mUTF8ByteBuffer.array.length) (n : Nat) :
    handed (continuation n) s = none ∧ after (process (continuation n)) s =
      { stored (continuation n) s with mUTF8ToFollow := s.mUTF8ToFollow - 1 } := by
  have hbits := (continuation_bits n).1
  constructor
  · unfold handed handedInside
    rw [if_pos hmode, if_neg (by omega), if_pos (by omega), if_neg (not_not_intro hbits),
      if_neg (by omega)]
  · unfold after
    rw [process_continue _ hmode (by omega), continueUTF8_more hbits hroom (by omega)]

theorem process_last (hreads : ReadsUtf8) (hmode : s.mUTF8Mode = true)
    (hfollow : s.mUTF8ToFollow = 1)
    (hroom : s.mUTF8ByteBuffer.position < s.mUTF8ByteBuffer.array.length)
    (hlength : 2 ≤ s.mInputCharBuffer.array.length) (hchars : s.mInputCharBuffer.position = 0)
    {n : Nat} (hc : 0x80 ≤ c.toNat) {rest : List JByte}
    (harray : s.mUTF8ByteBuffer.array.set s.mUTF8ByteBuffer.position (continuation n) =
      utf8 c ++ rest) :
    handed (continuation n) s = some (handedOf c) ∧ Idle (after (process (continuation n)) s) := by
  have hbits := (continuation_bits n).1
  have hlast : s.mUTF8ToFollow - 1 = 0 := by omega
  constructor
  · obtain ⟨chars, taken, hdecode⟩ := hreads.decode c rest s.mInputCharBuffer.array.length hlength
    have hread : (after decodeBuffer (stored (continuation n) s)).mInputCharBuffer.array =
        utf16 c ++ (chars ++ s.mInputCharBuffer.array.drop (utf16 c ++ chars).length) := by
      show splice s.mInputCharBuffer.array s.mInputCharBuffer.position
        (Platform.decode (s.mUTF8ByteBuffer.array.set s.mUTF8ByteBuffer.position (continuation n))
          (s.mInputCharBuffer.array.length - s.mInputCharBuffer.position)).1 = _
      rw [harray, hchars, Nat.sub_zero, hdecode, splice, List.take_zero, List.nil_append,
        Nat.zero_add, List.append_assoc]
    unfold handed handedInside
    rw [if_pos hmode, if_neg (by omega), if_pos (by omega), if_neg (not_not_intro hbits),
      if_pos hlast, putByte_decodeBuffer hroom]
    simp only [hread]
    exact handedChars_utf16 hc _
  · refine after_of_wp ?_
    rw [wp_congr (process_continue _ hmode (by omega))]
    exact decoder_last hbits hroom hlast hlast

omit [Platform] in
theorem set_eq_splice {α : Type} {xs : List α} {p : Nat} (h : p < xs.length) (x : α) :
    xs.set p x = splice xs p [x] := by
  rw [List.set_eq_take_append_cons_drop, if_pos h, splice, List.append_assoc]
  rfl

/-- The continuations of a sequence. -/
theorem handedAlong_continuations (hreads : ReadsUtf8) (hc : 0x80 ≤ c.toNat) {rest : List JByte}
    {n : Nat} {ns : List Nat} (hmode : s.mUTF8Mode = true)
    (hfollow : s.mUTF8ToFollow = (ns.length + 1 : Nat))
    (hroom : s.mUTF8ByteBuffer.position + ns.length < s.mUTF8ByteBuffer.array.length)
    (hlength : 2 ≤ s.mInputCharBuffer.array.length) (hchars : s.mInputCharBuffer.position = 0)
    (harray : splice s.mUTF8ByteBuffer.array s.mUTF8ByteBuffer.position
      ((n :: ns).map continuation) = utf8 c ++ rest) :
    handedAlong ((n :: ns).map continuation) s = [handedOf c] ∧
      Idle (append ((n :: ns).map continuation) s) := by
  induction ns generalizing s n with
  | nil =>
      have hset : s.mUTF8ByteBuffer.array.set s.mUTF8ByteBuffer.position (continuation n) =
          utf8 c ++ rest := by
        rw [set_eq_splice (by simpa using hroom), ← harray, List.map_singleton]
      obtain ⟨hlast, hidle⟩ := process_last hreads hmode hfollow (by simpa using hroom) hlength
        hchars hc hset
      refine ⟨?_, hidle⟩
      show (handed (continuation n) s).toList ++ [] = _
      rw [hlast]
      rfl
  | cons n' ns ih =>
      rw [List.length_cons] at hfollow hroom
      have hmore : 1 < s.mUTF8ToFollow := by omega
      have hroom' : s.mUTF8ByteBuffer.position < s.mUTF8ByteBuffer.array.length := by omega
      obtain ⟨hnone, hnext⟩ := process_middle hmode hmore hroom' n
      have hset : splice (s.mUTF8ByteBuffer.array.set s.mUTF8ByteBuffer.position (continuation n))
          (s.mUTF8ByteBuffer.position + 1) ((n' :: ns).map continuation) = utf8 c ++ rest := by
        rw [set_eq_splice hroom', ← harray]
        refine @splice_splice _ _ [continuation n] _ _ ?_
        rw [List.length_map, List.length_singleton, List.length_cons]
        omega
      obtain ⟨hhanded, hidle⟩ := ih
        (s := { stored (continuation n) s with mUTF8ToFollow := s.mUTF8ToFollow - 1 }) hmode
        (show s.mUTF8ToFollow - 1 = _ by omega)
        (by
          show s.mUTF8ByteBuffer.position + 1 + ns.length < (List.set _ _ _).length
          rw [List.length_set]
          omega) hlength hchars hset
      rw [List.map_cons, handedAlong, hnone, hnext]
      refine ⟨hhanded, ?_⟩
      show Idle (append _ (after (process (continuation n)) s))
      rw [hnext]
      exact hidle

/-- A character on its own. -/
theorem handedAlong_char (hreads : ReadsUtf8) (hs : Intact s) (hclean : Clean s) (hidle : Idle s)
    (hon : 0x80 ≤ c.toNat → s.mUTF8Mode = true) :
    handedAlong (utf8 c) s = [handedOf c] ∧ Idle (append (utf8 c) s) := by
  by_cases hascii : c.toNat < 0x80
  · have hbyte : (BitVec.ofNat 8 c.toNat).toNat = c.toNat := by
      rw [BitVec.toNat_ofNat]
      omega
    have hraw : s.mUTF8Mode = true →
        s.mUTF8ToFollow = 0 ∧ (BitVec.ofNat 8 c.toNat).toNat < 0x80 :=
      fun _ => ⟨hidle, by omega⟩
    rw [utf8_ascii hascii]
    constructor
    · have hhanded : handed (BitVec.ofNat 8 c.toNat) s = some (handedOf c) := by
        unfold handed handedOf
        rw [if_pos (show c.toNat ≤ 0x9f by omega)]
        by_cases hmode : s.mUTF8Mode = true
        · rw [if_pos hmode, if_pos (hraw hmode)]
        · rw [if_neg hmode]
      rw [handedAlong, hhanded]
      rfl
    · show Idle (after (process _) s)
      refine after_of_wp ?_
      rw [wp_congr (process_undecoded hraw)]
      exact decoder_processUndecoded _ s hidle
  have hc := Nat.le_of_not_lt hascii
  have hmode := hon hc
  have hbytes := hclean.bytes hidle
  obtain ⟨a0, a1, a2, a3, harray⟩ := List.length_eq_four.mp hs.bytes
  have hsequence (n : Nat) (ns : List Nat) (rest : List JByte) {follow bits : Nat} {b : JByte}
      (hlead : IsLead b (follow + 1) bits) (hlength : ns.length = follow) (hshort : follow < 3)
      (heq : utf8 c = b :: (n :: ns).map continuation)
      (hrest : splice [b, a1, a2, a3] 1 ((n :: ns).map continuation) = utf8 c ++ rest) :
      handedAlong (utf8 c) s = [handedOf c] ∧ Idle (append (utf8 c) s) := by
    have hroom : s.mUTF8ByteBuffer.position < s.mUTF8ByteBuffer.array.length := by
      rw [hbytes, hs.bytes]
      decide
    have hstored : (stored b s).mUTF8ByteBuffer = ⟨[b, a1, a2, a3], 1⟩ := by
      unfold stored
      rw [hbytes, harray]
      rfl
    obtain ⟨hnone, hnext⟩ := process_isLead hmode hidle hroom hlead
    obtain ⟨hhanded, hidle'⟩ := handedAlong_continuations
      (s := { stored b s with mUTF8ToFollow := (follow + 1 : Nat) }) hreads hc hmode
      (show ((follow + 1 : Nat) : Int) = _ by rw [hlength])
      (by
        rw [hstored, hlength]
        show 1 + follow < 4
        omega) hs.chars hclean.chars (by
        rw [hstored]
        exact hrest)
    rw [heq, handedAlong, hnone, hnext]
    refine ⟨hhanded, ?_⟩
    show Idle (append _ (after (process b) s))
    rw [hnext]
    exact hidle'
  rcases utf8_cases hc with
    ⟨_, b, hlead, heq⟩ | ⟨_, _, b, hlead, heq⟩ | ⟨_, b, hlead, heq⟩
  · exact hsequence c.toNat [] [a2, a3] hlead rfl (by decide) heq (by rw [heq]; rfl)
  · exact hsequence (c.toNat / 64) [c.toNat] [a3] hlead rfl (by decide) heq (by rw [heq]; rfl)
  · exact hsequence (c.toNat / 4096) [c.toNat / 64, c.toNat] [] hlead rfl (by decide) heq
      (by rw [heq]; rfl)

/-- UTF-8 mode is on at every character of more than one byte. -/
def StaysOn : List Char → TerminalEmulator → Prop
  | [], _ => True
  | c :: v, s => (0x80 ≤ c.toNat → s.mUTF8Mode = true) ∧ StaysOn v (append (utf8 c) s)

/-- A string. -/
theorem handedAlong_text (hreads : ReadsUtf8) (hs : Reachable s) (hclean : Clean s) (hidle : Idle s)
    {v : List Char} (hreturns : Returning ((v.flatMap utf8).map .byte) s) (hon : StaysOn v s) :
    handedAlong (v.flatMap utf8) s = v.map handedOf := by
  induction v generalizing s with
  | nil => rfl
  | cons c v ih =>
      obtain ⟨hchar, hidle'⟩ := handedAlong_char hreads hs.intact hclean hidle hon.1
      rw [List.flatMap_cons, List.map_append, returning_append, ← append_eq_run] at hreturns
      have hclean' := append_eq_run _ _ ▸ clean_run hs.intact hclean hreturns.1
      rw [List.flatMap_cons, handedAlong_append, hchar,
        ih (hs.append _) hclean' hidle' hreturns.2 hon.2]
      rfl

end Characters

end Kbox.Emulatorview.TerminalEmulator
