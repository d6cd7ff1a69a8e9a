import Kbox.Emulatorview.OscStrings
import Kbox.Emulatorview.Utf8Runs

/-!
# Payloads that are opaque

Behind a full row every character that is drawn moves the cursor to the next one.  That is where a
character outside of ASCII shows, and the second byte that does not fit into the buffer.
-/

namespace Kbox.Emulatorview.TerminalEmulator

open Kbox.Framework

variable [Platform] {s : TerminalEmulator} {b : JByte}

/-! ## §1  Characters drawn in the middle of a string -/

/-- The next character, of whatever width, goes to the next row. -/
structure AtEdge (s : TerminalEmulator) : Prop where
  wrapping : Wrapping s
  row : s.mCursorRow + 1 < s.mBottomMargin
  lineWrap : ((TranscriptScreen.setLineWrap s.mCursorRow).run' s.mScreen).isSome

/-- At the edge in UTF-8 mode, with nothing buffered and nothing set yet. -/
structure Fresh (s : TerminalEmulator) : Prop extends AtEdge s where
  utf8 : s.mUTF8Mode = true ∧ s.mUTF8ToFollow = 0
  byteBuffer : s.mUTF8ByteBuffer = ⟨[0, 0, 0, 0], 0⟩
  charBuffer : s.mInputCharBuffer = ⟨[0, 0], 0⟩
  plain : s.mUseAlternateCharSet = false
  title : s.mSession.title = none

section Drawn

/-- The cursor is in row `r`. -/
def InRow (r : Int) (t : TerminalEmulator) : Prop := t.mCursorRow = r

variable {r : Int}

omit [Platform] in
theorem inRow_onScreen {α : Type} (x : ScreenM α) : Keeps (InRow r) (onScreen x) :=
  fun _ ht => wp_onScreen_other (fun _ _ => ht) fun _ _ => ht

theorem inRow_moveRight (width : Int) : Keeps (InRow r) (moveRight width) :=
  keeps_get_bind fun _ => keeps_ite (fun _ => inRow_onScreen _) fun _ => keeps_pure _

theorem inRow_placeChar (c : Int) (style : Style) (width : Int) :
    Keeps (InRow r) (placeChar c style width) := by
  refine keeps_get_bind fun u => keeps_ite (fun _ => ?_) fun _ => ?_
  · exact keeps_ite (fun _ => inRow_onScreen _) fun _ => inRow_onScreen _
  · exact (inRow_onScreen _).then (keeps_modify fun _ ht => ht)

omit [Platform] in
theorem moved_wrapCursor (hs : AtEdge s) (width : Int) :
    wp (wrapCursor width) (fun _ => InRow (s.mCursorRow + 1)) (fun _ => InRow (s.mCursorRow + 1))
      s := by
  obtain ⟨_, hcol, habout⟩ := hs.wrapping
  have hscreen := run_ok_iff.mpr ⟨hs.lineWrap, rfl⟩
  have hwrap : onScreen (TranscriptScreen.setLineWrap s.mCursorRow) s = .ok ⟨⟩ { s with
      mScreen := after (TranscriptScreen.setLineWrap s.mCursorRow) s.mScreen } := by
    simp only [onScreen, onField, hscreen]
  unfold wrapCursor
  rw [wp_bind, wp_get, wp_ite]
  refine ⟨fun _ => ?_, fun hstay => absurd ⟨hcol, .inl habout⟩ hstay⟩
  rw [wp_bind, wp_of_ok hwrap, wp_bind, wp_modify, wp_ite, wp_modify]
  exact ⟨fun _ => rfl, fun hlast => absurd hs.row hlast⟩

theorem moved_emit (hs : AtEdge s) (c : Int) :
    wp (emit c) (fun _ => InRow (s.mCursorRow + 1)) (fun _ => InRow (s.mCursorRow + 1)) s := by
  have hrest (style : Style) : Keeps (InRow (s.mCursorRow + 1)) (do
      when ((← get).mInsertMode ∧ charWidth c ≠ 0) (moveRight (charWidth c))
      placeChar c style (charWidth c)
      advanceCursor s.autoWrapEnabled (charWidth c) : EmulatorM Unit) := by
    refine keeps_get_bind fun _ => Keeps.then (keeps_when fun _ => inRow_moveRight _) ?_
    exact (inRow_placeChar _ _ _).then (keeps_modify fun _ ht => ht)
  unfold emit emitStyled
  rw [wp_bind, wp_get, wp_bind, wp_get, wp_bind, wp_when]
  refine ⟨fun _ => ?_, fun hoff => absurd hs.wrapping.1 hoff⟩
  exact wp_mono (moved_wrapCursor hs _) (fun _ t ht => hrest _ t ht) fun _ _ ht => ht

theorem moved_emitDecoded (hs : AtEdge s) {c : JChar} {rest : List JChar}
    (hc1 : ¬ (0x80 ≤ c.toNat ∧ c.toNat ≤ 0x9f)) (hpair : isHighSurrogate c = true → rest ≠ []) :
    wp (emitDecoded (c :: rest)) (fun _ => InRow (s.mCursorRow + 1))
      (fun _ => InRow (s.mCursorRow + 1)) s := by
  have hfirst : arrayGet (.arrayIndexOutOfBounds .chars) (c :: rest) (0 : Int) =
      .ok (ε := Exn) c := rfl
  unfold emitDecoded emitChars
  rw [hfirst, wp_bind, wp_checked_ok, wp_ite, wp_bind, wp_checked_ok, wp_ite]
  refine ⟨fun h => absurd h hc1, fun _ => ⟨fun hhigh => ?_, fun _ => moved_emit hs _⟩⟩
  obtain ⟨d, rest', rfl⟩ := List.exists_cons_of_ne_nil (hpair hhigh)
  have hsecond : arrayGet (.arrayIndexOutOfBounds .chars) (c :: d :: rest') (1 : Int) =
      .ok (ε := Exn) d := rfl
  rw [hsecond, wp_bind, wp_checked_ok]
  exact moved_emit hs _

/-- A printable ASCII character outside of a sequence. -/
theorem moved_ground (hs : Fresh s) (hground : s.mEscapeState = .none) (hb : IsText b) :
    (after (process b) s).mCursorRow = s.mCursorRow + 1 := by
  obtain ⟨hlo, hhi⟩ := hb
  have hint : b.toInt = b.toNat := BitVec.toInt_eq_toNat_of_lt (by omega)
  have hedge : AtEdge { s with mContinueSequence := false, mEscapeState := .none } :=
    ⟨hs.wrapping, hs.row, hs.lineWrap⟩
  refine after_of_wp (I := InRow (s.mCursorRow + 1)) ?_
  rw [wp_congr (process_dispatch (fun _ => hs.utf8.2) (by omega)),
    dispatch_text ⟨hlo, by omega⟩, wp_bind, wp_modify, wp_bind]
  unfold processInState
  rw [wp_bind, wp_get]
  simp only [hground]
  unfold emitByte
  rw [wp_when, wp_bind, wp_get, wp_ite]
  refine ⟨fun _ => ⟨fun halt => ?_, fun _ => ?_⟩, fun hlow => absurd (by omega) hlow⟩
  · exact absurd (halt.symm.trans hs.plain) (by decide)
  · have hemit : wp (emit b.toInt) (fun _ => InRow (s.mCursorRow + 1))
        (fun _ => InRow (s.mCursorRow + 1))
        { s with mContinueSequence := false, mEscapeState := .none } :=
      moved_emit hedge _
    refine wp_mono hemit (fun _ u hu => ?_) fun _ _ hu => hu
    rw [wp_bind, wp_get, wp_when]
    exact ⟨fun _ => (wp_modify _ _ _ _).mpr hu, fun _ => hu⟩

omit [Platform] in
/-- The first char of a character that is no C1 control. -/
theorem utf16_head {c : Char} (hc : 0xa0 ≤ c.toNat) : ∃ u rest, utf16 c = u :: rest ∧
    ¬ (0x80 ≤ u.toNat ∧ u.toNat ≤ 0x9f) ∧ (isHighSurrogate u = true → rest ≠ []) := by
  unfold utf16
  by_cases hbmp : c.toNat < 0x10000
  · have hu : (toJChar (c.toNat : Int)).toNat = c.toNat := by
      unfold toJChar
      rw [BitVec.toNat_ofInt]
      omega
    obtain ⟨u, heq, hhigh, _⟩ := CodePointWriter.toChars_bmp hbmp
    have hhead : u = toJChar c.toNat := by
      unfold toChars at heq
      rw [if_neg (by omega)] at heq
      exact (List.cons.inj heq).1.symm
    refine ⟨u, [], heq, ?_, fun h => absurd (h.symm.trans hhigh) (by decide)⟩
    rw [hhead, hu]
    omega
  · obtain ⟨u, v, heq, hhigh, _⟩ := CodePointWriter.toChars_pair (Nat.le_of_not_lt hbmp)
    refine ⟨u, [v], heq, ?_, fun _ => List.cons_ne_nil _ _⟩
    have hrange := of_decide_eq_true hhigh
    omega

/-- In the middle of a UTF-8 sequence. -/
def midway (s : TerminalEmulator) (follow : Int) (array : List JByte) (position : Nat) :
    TerminalEmulator :=
  { s with mUTF8ToFollow := follow, mUTF8ByteBuffer := ⟨array, position⟩ }

theorem process_lead (hs : Fresh s) {follow bits : Nat} (hb : IsLead b follow bits) :
    after (process b) s = midway s follow [b, 0, 0, 0] 1 := by
  have hroom : s.mUTF8ByteBuffer.position < s.mUTF8ByteBuffer.array.length := by
    rw [hs.byteBuffer]
    decide
  rw [(process_isLead hs.utf8.1 hs.utf8.2 hroom hb).2, stored, hs.byteBuffer]
  rfl

/-- A continuation that is not the last one. -/
theorem process_midway (hs : Fresh s) {follow : Int} (hfollow : 1 < follow) {array : List JByte}
    {position : Nat} (hroom : position < array.length) (n : Nat) :
    after (process (continuation n)) (midway s follow array position) =
      midway s (follow - 1) (array.set position (continuation n)) (position + 1) :=
  (process_middle (s := midway s follow array position) hs.utf8.1 hfollow hroom n).2

theorem decodeBuffer_ok (hreads : ReadsUtf8) {c : Char} {rest : List JByte}
    (hbytes : s.mUTF8ByteBuffer.array = utf8 c ++ rest)
    (hchars : s.mInputCharBuffer = ⟨[0, 0], 0⟩) :
    ∃ chars taken position, decodeBuffer s = .ok ⟨⟩ { s with
      mUTF8ByteBuffer := { s.mUTF8ByteBuffer with position := taken }
      mInputCharBuffer := ⟨utf16 c ++ chars, position⟩ } := by
  obtain ⟨chars, taken, hdecode⟩ := hreads.decode c rest 2 (Nat.le_refl 2)
  refine ⟨chars ++ ([0, 0] : List JChar).drop (utf16 c ++ chars).length, taken,
    0 + (utf16 c ++ chars).length, ?_⟩
  have hroom : ([0, 0] : List JChar).length - 0 = 2 := rfl
  simp only [decodeBuffer, modify_apply, hbytes,
    hchars, hroom, hdecode]
  rw [splice, List.take_zero, List.nil_append, Nat.zero_add, List.append_assoc]

/-- The last continuation: the character is drawn. -/
theorem moved_last (hreads : ReadsUtf8) (hs : Fresh s) {array : List JByte} {position : Nat}
    (hroom : position < array.length) (n : Nat) {c : Char} (hc : 0xa0 ≤ c.toNat)
    {rest : List JByte} (harray : array.set position (continuation n) = utf8 c ++ rest) :
    (after (process (continuation n)) (midway s 1 array position)).mCursorRow =
      s.mCursorRow + 1 := by
  refine after_of_wp (I := InRow (s.mCursorRow + 1)) ?_
  rw [wp_congr (process_continue (s := midway s 1 array position) _ hs.utf8.1
    (show (1 : Int) > 0 by decide))]
  obtain ⟨u, tail, hunits, hc1, hpair⟩ := utf16_head hc
  have hfull : ¬ (midway s 1 array position).mUTF8ByteBuffer.position ≥
      (midway s 1 array position).mUTF8ByteBuffer.array.length := Nat.not_le.mpr hroom
  unfold continueUTF8 putByte
  rw [if_neg (not_not_intro (continuation_bits n).1), wp_bind, wp_bind, wp_get, wp_bind, wp_throwIf]
  refine ⟨fun h => absurd h hfull, fun _ => ?_⟩
  rw [wp_set, wp_bind, wp_modify, wp_bind, wp_get, wp_when]
  refine ⟨fun _ => ?_, fun hmore => absurd rfl hmore⟩
  obtain ⟨chars, taken, read, hdecoded⟩ := decodeBuffer_ok
    (s := midway s (1 - 1) (array.set position (continuation n)) (position + 1)) hreads harray
    hs.charBuffer
  unfold finishUTF8
  rw [wp_bind]
  refine (wp_of_ok hdecoded).mpr ?_
  rw [wp_bind, wp_get, wp_bind]
  have hdrawn := moved_emitDecoded (s := { midway s (1 - 1) (array.set position (continuation n))
      (position + 1) with
        mUTF8ByteBuffer := ⟨array.set position (continuation n), taken⟩
        mInputCharBuffer := ⟨utf16 c ++ chars, read⟩ })
    ⟨hs.wrapping, hs.row, hs.lineWrap⟩ hc1
    (fun hhigh => List.append_ne_nil_of_left_ne_nil (hpair hhigh) chars)
  rw [← List.cons_append, ← hunits] at hdrawn
  refine wp_mono hdrawn (fun _ t ht => ?_) fun _ _ ht => ht
  rw [wp_modify]
  exact ht

/-- A character outside of ASCII is drawn, wherever it stands. -/
theorem moved_char (hreads : ReadsUtf8) (hs : Fresh s) {c : Char} (hc : 0xa0 ≤ c.toNat) :
    (append (utf8 c) s).mCursorRow = s.mCursorRow + 1 := by
  rcases utf8_cases (show 0x80 ≤ c.toNat by omega) with
    ⟨_, b, hlead, hbytes⟩ | ⟨_, _, b, hlead, hbytes⟩ | ⟨_, b, hlead, hbytes⟩
  · rw [hbytes]
    show (after (process (continuation c.toNat)) (after (process b) s)).mCursorRow = _
    rw [process_lead hs hlead]
    refine moved_last hreads hs (by simp) _ hc (show List.set _ _ _ = utf8 c ++ [0, 0] from ?_)
    rw [hbytes]
    rfl
  · rw [hbytes]
    show (after (process (continuation c.toNat)) (after (process (continuation (c.toNat / 64)))
      (after (process b) s))).mCursorRow = _
    rw [process_lead hs hlead, process_midway hs (by decide) (by simp)]
    refine moved_last hreads hs (by simp) _ hc (show List.set _ _ _ = utf8 c ++ [0] from ?_)
    rw [hbytes]
    rfl
  · rw [hbytes]
    show (after (process (continuation c.toNat)) (after (process (continuation (c.toNat / 64)))
      (after (process (continuation (c.toNat / 4096))) (after (process b) s)))).mCursorRow = _
    rw [process_lead hs hlead, process_midway hs (by decide) (by simp),
      process_midway hs (by decide) (by simp)]
    refine moved_last hreads hs (by simp) _ hc (show List.set _ _ _ = utf8 c ++ [] from ?_)
    rw [hbytes]
    rfl

end Drawn

/-! ## §2  Payloads that do not fit -/

section Misfits

omit [Platform] in
theorem Fresh.gathering (hs : Fresh s) (arg : List JByte) : Fresh (gathering s arg) :=
  ⟨⟨hs.wrapping, hs.row, hs.lineWrap⟩, hs.utf8, hs.byteBuffer, hs.charBuffer, hs.plain, hs.title⟩

omit [Platform] in
theorem Fresh.overflown (hs : Fresh s) (arg : List JByte) : Fresh (overflown s arg) :=
  ⟨⟨hs.wrapping, hs.row, hs.lineWrap⟩, hs.utf8, hs.byteBuffer, hs.charBuffer, hs.plain, hs.title⟩

omit [Platform] in
theorem Fresh.opened (hs : Fresh s) : Fresh (opened s) := by
  unfold TerminalEmulator.opened
  split
  · exact hs
  · exact ⟨⟨hs.wrapping, hs.row, hs.lineWrap⟩, hs.utf8, hs.byteBuffer, hs.charBuffer, hs.plain,
      hs.title⟩

omit [Platform] in
theorem Fresh.decoded (hs : Fresh s) : s.mUTF8Mode = true → s.mUTF8ToFollow = 0 :=
  fun _ => hs.utf8.2

omit [Platform] in
theorem opened_row (s : TerminalEmulator) : (opened s).mCursorRow = s.mCursorRow :=
  (undisturbed_opened s).cursor.1

/-- The second byte without room is drawn. -/
theorem moved_overflow (hs : Fresh s) {text : List JByte} {b b' : JByte}
    (htext : ∀ b ∈ text, IsText b) (hb : IsText b) (hb' : IsText b')
    (hroom : (begun (openString s)).length + text.length = maxOscStringLength) :
    (append ([27, 93] ++ (text ++ [b, b'])) s).mCursorRow = s.mCursorRow + 1 := by
  have hsplit : text ++ [b, b'] = text ++ [b] ++ [b'] := by
    rw [List.append_assoc, List.singleton_append]
  rw [append_front hs.decoded, hsplit, append_snoc,
    append_text_full hs.opened.decoded htext hb hroom, ← opened_row s]
  exact moved_ground (hs.opened.overflown _) rfl hb'

omit [Platform] in
theorem exists_first_not {p : Char → Prop} {l : List Char} (h : ¬ ∀ c ∈ l, p c) :
    ∃ a c rest, l = a ++ c :: rest ∧ (∀ c ∈ a, p c) ∧ ¬ p c := by
  induction l with
  | nil => exact absurd (fun _ hc => absurd hc List.not_mem_nil) h
  | cons c l ih =>
      by_cases hc : p c
      · obtain ⟨a, d, rest, rfl, ha, hd⟩ := ih fun hl => h (List.forall_mem_cons.mpr ⟨hc, hl⟩)
        exact ⟨c :: a, d, rest, rfl, List.forall_mem_cons.mpr ⟨hc, ha⟩, hd⟩
      · exact ⟨[], c, l, rfl, fun _ hd => absurd hd List.not_mem_nil, hc⟩

variable {payload : List Char} {terminator : StringTerminator}

/-- No beginning of a sequence that is opaque moves the cursor. -/
theorem OscOpaque.row (h : OscOpaque payload terminator s) {q : List JByte}
    (hq : q <+: payload.flatMap utf8) :
    (append ([27, 93] ++ q) s).mCursorRow ≠ s.mCursorRow + 1 := by
  have hbegin : [27, 93] ++ q <+: oscBytes payload terminator :=
    (List.prefix_append_right_inj _).mpr (hq.trans (List.prefix_append _ _))
  rw [(h.undisturbed _ hbegin).cursor.1]
  omega

/-- Printable ASCII for which there are two bytes too few. -/
theorem OscOpaque.length_le (h : OscOpaque payload terminator s) (hs : Fresh s)
    (hfront : (begun (openString s)).length ≤ maxOscStringLength) {text : List JByte}
    (htext : text <+: payload.flatMap utf8) (hbytes : ∀ b ∈ text, IsText b) :
    (begun (openString s)).length + text.length ≤ maxOscStringLength + 1 := by
  by_contra hlong
  obtain ⟨room, hroom⟩ := Nat.exists_eq_add_of_le hfront
  have hlength : (text.take room).length = room := by
    rw [List.length_take]
    omega
  obtain ⟨b, b', rest, hrest⟩ : ∃ b b' rest, text.drop room = b :: b' :: rest := by
    have hdrop : 2 ≤ (text.drop room).length := by
      rw [List.length_drop]
      omega
    match text.drop room, hdrop with
    | b :: b' :: rest, _ => exact ⟨b, b', rest, rfl⟩
  have hsplit : text = text.take room ++ [b, b'] ++ rest := by
    rw [List.append_assoc, List.cons_append, List.cons_append, List.nil_append, ← hrest,
      List.take_append_drop]
  have hbegin : text.take room ++ [b, b'] <+: text := ⟨rest, hsplit.symm⟩
  have hmem : ∀ d ∈ text.take room ++ [b, b'], IsText d := fun d hd =>
    hbytes d (hbegin.subset hd)
  refine h.row (hbegin.trans htext) (moved_overflow hs
    (fun d hd => hmem d (List.mem_append_left _ hd)) (hmem b ?_) (hmem b' ?_) (by omega))
  · exact List.mem_append_right _ List.mem_cons_self
  · exact List.mem_append_right _ (List.mem_cons_of_mem _ List.mem_cons_self)

theorem OscOpaque.ascii (hreads : ReadsUtf8) (h : OscOpaque payload terminator s) (hs : Fresh s)
    (hfront : (begun (openString s)).length ≤ maxOscStringLength)
    (hprintable : ∀ c ∈ payload, Printable c) : ∀ c ∈ payload, c.toNat < 0x80 := by
  by_contra hascii
  obtain ⟨a, c, rest, rfl, ha, hc⟩ := exists_first_not hascii
  have hlarge : 0xa0 ≤ c.toNat := by
    obtain ⟨_, hcontrol⟩ := hprintable c (List.mem_append_right _ List.mem_cons_self)
    omega
  have hbytes := isText_ascii (fun d hd => hprintable d (List.mem_append_left _ hd)) ha
  have hflat : (a ++ c :: rest).flatMap utf8 =
      a.flatMap utf8 ++ utf8 c ++ rest.flatMap utf8 := by
    rw [List.flatMap_append, List.flatMap_cons, List.append_assoc]
  have hshort := h.length_le hs hfront
    (hflat ▸ (List.prefix_append _ (utf8 c)).trans (List.prefix_append _ _)) hbytes
  refine h.row (hflat ▸ List.prefix_append _ _) ?_
  rw [append_front hs.decoded, append_append, ← opened_row s]
  by_cases hroom : (begun (openString s)).length + (a.flatMap utf8).length ≤ maxOscStringLength
  · rw [append_text hs.opened.decoded hbytes hroom]
    exact moved_char hreads (hs.opened.gathering _) hlarge
  · obtain hnil | ⟨text, b, heq⟩ := List.eq_nil_or_concat (a.flatMap utf8)
    · rw [hnil] at hroom
      exact absurd hfront hroom
    · rw [List.concat_eq_append] at heq
      rw [heq] at hbytes hroom hshort ⊢
      rw [List.length_append, List.length_singleton] at hroom hshort
      rw [append_text_full hs.opened.decoded
        (fun b' hb' => hbytes b' (List.mem_append_left _ hb'))
        (hbytes b (List.mem_append_right _ List.mem_cons_self)) (by omega)]
      exact moved_char hreads (hs.opened.overflown _) hlarge

/-- Bytes of ASCII are as many chars. -/
theorem length_nextOSCString (hreads : ReadsUtf8) {bytes : List JByte}
    (h : ∀ b ∈ bytes, b.toNat < 0x80) : (nextOSCString bytes).length = bytes.length := by
  obtain ⟨text, hascii, rfl⟩ : ∃ text : List Char, (∀ c ∈ text, c.toNat < 0x80) ∧
      text.flatMap utf8 = bytes := by
    induction bytes with
    | nil => exact ⟨[], fun _ hc => absurd hc List.not_mem_nil, rfl⟩
    | cons b bytes ih =>
        obtain ⟨hb, hbytes⟩ := List.forall_mem_cons.mp h
        obtain ⟨text, htext, heq⟩ := ih hbytes
        have hvalid : b.toNat.isValidChar := .inl (by omega)
        have hvalue : (Char.ofNat b.toNat).toNat = b.toNat := by
          unfold Char.ofNat
          rw [dif_pos hvalid]
          rfl
        refine ⟨Char.ofNat b.toNat :: text, List.forall_mem_cons.mpr ⟨hvalue.symm ▸ hb, htext⟩, ?_⟩
        rw [List.flatMap_cons, utf8_ascii (hvalue.symm ▸ hb), hvalue, BitVec.ofNat_toNat, heq]
        rfl
  rw [nextOSCString_ascii hreads h]
  clear h
  induction text with
  | nil => rfl
  | cons c text ih =>
      obtain ⟨hc, htext⟩ := List.forall_mem_cons.mp hascii
      obtain ⟨hpos, _, hle⟩ := length_utf16 c
      rw [utf8_ascii hc, List.length_singleton] at hle
      rw [List.flatMap_cons, List.flatMap_cons, List.length_append, List.length_append, ih htext,
        utf8_ascii hc, List.length_singleton]
      omega

/-- A semicolon in front of the payload lengthens the title. -/
theorem titled_front (hreads : ReadsUtf8) {front : List JByte} {text : List Char}
    (hascii : ∀ b ∈ front ++ payload.flatMap utf8, b.toNat < 0x80)
    (htitle : titleOf payload = some text)
    (hnumber : ReadAsTitle (front ++ payload.flatMap utf8)) (hfront : 59 ∈ front)
    (log : SessionLog) :
    (titled (front ++ payload.flatMap utf8) log).title ≠ some (text.flatMap utf16) := by
  obtain ⟨digits, rest, rfl, hdigits⟩ := List.eq_append_cons_of_mem hfront
  obtain ⟨b, _, hpayload⟩ := titleOf_eq_some htitle
  have hall : ∀ b ∈ rest ++ payload.flatMap utf8, b.toNat < 0x80 := fun b hb =>
    hascii b (List.append_assoc _ _ _ ▸ List.mem_append_right digits (List.mem_cons_of_mem _ hb))
  have htext : ∀ b ∈ text.flatMap utf8, b.toNat < 0x80 := fun b' hb' =>
    hall b' (List.mem_append_right _
      (hpayload ▸ List.mem_cons_of_mem _ (List.mem_cons_of_mem _ hb')))
  have hrest : (nextOSCInt 59 (digits ++ 59 :: rest ++ payload.flatMap utf8) (-1)).2 =
      rest ++ payload.flatMap utf8 := by
    rw [List.append_assoc, List.cons_append]
    exact nextOSCInt_rest hdigits _ _
  have hset := titled_read hnumber log
  rw [hrest] at hset
  intro heq
  have hlength := congrArg List.length (Option.some.inj (hset.symm.trans heq))
  rw [length_nextOSCString hreads hall, ← nextOSCString_ascii hreads htext,
    length_nextOSCString hreads htext, List.length_append, hpayload, List.length_cons,
    List.length_cons] at hlength
  omega

/-- The number of a string whose title is set as it is to be. -/
theorem numbersAgree_of_title (hreads : ReadsUtf8) {front : List JByte}
    (hascii : ∀ b ∈ front ++ payload.flatMap utf8, b.toNat < 0x80)
    (hroom : (payload.flatMap utf8).length ≤ maxOscStringLength)
    (hnone : s.mSession.title = none) {t : TerminalEmulator}
    (ht : t.mSession = titled (front ++ payload.flatMap utf8) s.mSession)
    (hset : TitleSet payload s t) : NumbersAgree front payload := by
  unfold TitleSet at hset
  rw [ht] at hset
  unfold NumbersAgree
  cases htitle : titleOf payload with
  | none =>
      rw [htitle] at hset
      intro hnumber
      have hlost : (titled (front ++ payload.flatMap utf8) s.mSession).title = none :=
        hset.trans hnone
      rw [titled_read hnumber] at hlost
      cases hlost
  | some text =>
      rw [htitle] at hset
      obtain ⟨title, htitled, hwhole | ⟨hlong, _⟩⟩ := hset
      · have hnumber : ReadAsTitle (front ++ payload.flatMap utf8) := by
          by_contra hother
          rw [titled_none hother, hnone] at htitled
          cases htitled
        exact ⟨hnumber, fun hfront =>
          titled_front hreads hascii htitle hnumber hfront _ (hwhole ▸ htitled)⟩
      · exact absurd hroom (Nat.not_le.mpr hlong)

theorem fits_of_oscOpaque (hreads : ReadsUtf8) (h : OscOpaque payload terminator s) (hs : Fresh s)
    (hfront : (begun (openString s)).length ≤ maxOscStringLength)
    (hfrontAscii : ∀ b ∈ begun (openString s), b.toNat < 0x80)
    (hprintable : ∀ c ∈ payload, Printable c) : FitsOsc (begun (openString s)) payload := by
  have hascii := h.ascii hreads hs hfront hprintable
  have hbytes := isText_ascii hprintable hascii
  have hlength := length_flatMap_ascii hascii
  have hshort := h.length_le hs hfront (List.prefix_refl _) hbytes
  have htitleSet := h.title
  unfold oscBytes at htitleSet
  rw [← List.append_assoc, append_append, append_front hs.decoded] at htitleSet
  refine ⟨hascii, ?_⟩
  by_cases hroom : (begun (openString s)).length + payload.length ≤ maxOscStringLength
  · refine .inl ⟨hroom, ?_⟩
    obtain ⟨continues, hclosed⟩ := append_terminator hs.opened.decoded
      (begun (openString s) ++ payload.flatMap utf8) terminator
    rw [append_text hs.opened.decoded hbytes (hlength ▸ hroom), hclosed] at htitleSet
    refine numbersAgree_of_title hreads (fun b hb => ?_) (by omega) hs.title
      (opened_session s ▸ rfl) htitleSet
    rcases List.mem_append.mp hb with hb | hb
    · exact hfrontAscii b hb
    · exact Nat.lt_succ_of_lt (hbytes b hb).2
  · have hnonempty : payload ≠ [] := by
      rintro rfl
      exact hroom hfront
    refine .inr ⟨hnonempty, by omega, ?_⟩
    cases htitle : titleOf payload with
    | none => rfl
    | some text =>
        obtain hnil | ⟨text', b, heq⟩ := List.eq_nil_or_concat (payload.flatMap utf8)
        · rw [hnil] at hlength
          exact absurd (List.length_eq_zero_iff.mp hlength.symm) hnonempty
        · rw [List.concat_eq_append] at heq
          rw [heq] at hbytes hlength htitleSet hshort
          rw [List.length_append, List.length_singleton] at hlength hshort
          rw [append_text_full hs.opened.decoded
            (fun b' hb' => hbytes b' (List.mem_append_left _ hb'))
            (hbytes b (List.mem_append_right _ List.mem_cons_self)) (by omega)] at htitleSet
          unfold TitleSet at htitleSet
          rw [htitle] at htitleSet
          obtain ⟨title, hset, _⟩ := htitleSet
          rw [(terminator_overflown hs.opened.decoded _ terminator).2.2, opened_session,
            hs.title] at hset
          cases hset

end Misfits

/-! ## §3  Open strings -/

section Open

/-- What printable ASCII, and `ESC` in front of it, leave in an open string. -/
inductive Gathered : List JByte → Prop where
  | start : Gathered []
  | text {arg : List JByte} {b : JByte} : Gathered arg → IsText b →
      arg.length < maxOscStringLength → Gathered (arg ++ [b])
  | escaped {arg : List JByte} {b : JByte} : Gathered arg → IsText b → b ≠ 92 →
      Gathered (collect (collect arg 27) b)

/-- No more bytes than there is room for, and all of ASCII. -/
def Bounded (arg : List JByte) : Prop :=
  arg.length ≤ maxOscStringLength ∧ ∀ b ∈ arg, b.toNat < 0x80

variable {arg : List JByte}

omit [Platform] in
theorem Bounded.collect (h : Bounded arg) (hb : b.toNat < 0x80) : Bounded (collect arg b) := by
  unfold TerminalEmulator.collect
  split
  · rename_i hroom
    refine ⟨by rwa [List.length_append, List.length_singleton], fun b' hb' => ?_⟩
    rcases List.mem_append.mp hb' with hb' | hb'
    · exact h.2 b' hb'
    · exact List.mem_singleton.mp hb' ▸ hb
  · exact h

omit [Platform] in
theorem Gathered.bounded (h : Gathered arg) : Bounded arg := by
  induction h with
  | start => exact ⟨Nat.zero_le _, fun _ hb => absurd hb List.not_mem_nil⟩
  | @text arg b _ hb hroom ih =>
      have hcollect : TerminalEmulator.collect arg b = arg ++ [b] := if_pos hroom
      exact hcollect ▸ ih.collect (Nat.lt_succ_of_lt hb.2)
  | escaped _ hb _ ih => exact (ih.collect (by decide)).collect (Nat.lt_succ_of_lt hb.2)

omit [Platform] in
theorem bounded_begun {string : Option (List JByte)}
    (h : ∀ arg, string = some arg → Gathered arg) : Bounded (begun string) := by
  cases string with
  | none => exact ⟨Nat.zero_le _, fun _ hb => absurd hb List.not_mem_nil⟩
  | some arg => exact ((h arg rfl).bounded.collect (by decide)).collect (by decide)

/-- The bytes that leave it there. -/
theorem Gathered.reached (h : Gathered arg) (hd : s.mUTF8Mode = true → s.mUTF8ToFollow = 0) :
    ∃ bytes, append bytes (gathering s []) = gathering s arg := by
  induction h with
  | start => exact ⟨[], rfl⟩
  | @text arg b _ hb hroom ih =>
      obtain ⟨bytes, hbytes⟩ := ih
      exact ⟨bytes ++ [b], by rw [append_snoc, hbytes, process_text hd hb hroom]⟩
  | @escaped arg b _ hb hbackslash ih =>
      obtain ⟨bytes, hbytes⟩ := ih
      refine ⟨bytes ++ [27] ++ [b], ?_⟩
      rw [append_snoc, append_snoc, hbytes, process_esc hd, process_escaped hd hb hbackslash]

omit [Platform] in
instance (s : TerminalEmulator) : Decidable (Fresh s) :=
  decidable_of_iff ((Wrapping s ∧ s.mCursorRow + 1 < s.mBottomMargin ∧
      ((TranscriptScreen.setLineWrap s.mCursorRow).run' s.mScreen).isSome) ∧
    (s.mUTF8Mode = true ∧ s.mUTF8ToFollow = 0) ∧ s.mUTF8ByteBuffer = ⟨[0, 0, 0, 0], 0⟩ ∧
    s.mInputCharBuffer = ⟨[0, 0], 0⟩ ∧ s.mUseAlternateCharSet = false ∧ s.mSession.title = none)
    ⟨fun ⟨⟨h1, h2, h3⟩, h4, h5, h6, h7, h8⟩ => ⟨⟨h1, h2, h3⟩, h4, h5, h6, h7, h8⟩,
      fun ⟨⟨h1, h2, h3⟩, h4, h5, h6, h7, h8⟩ => ⟨⟨h1, h2, h3⟩, h4, h5, h6, h7, h8⟩⟩

omit [Platform] in
/-- A row of two columns, full. -/
theorem exists_fresh : let _ := samplePlatform
    ∃ s, Reachable s ∧ openString s = none ∧ Fresh s := by
  let _ := samplePlatform
  have hcreated : (create 2 3 2).map (fun s =>
      let t := run [.setDefaultUTF8Mode true, .byte 65, .byte 66] s
      decide (t.mEscapeState ≠ .rightSquareBracket ∧ Fresh t)) = .ok true := by
    decide +kernel
  cases hcreate : create 2 3 2 with
  | error e =>
      rw [hcreate] at hcreated
      cases hcreated
  | ok s =>
      rw [hcreate] at hcreated
      obtain ⟨hground, hfresh⟩ := of_decide_eq_true (Except.ok.inj hcreated)
      exact ⟨_, ⟨2, 3, 2, by decide, s, _, hcreate, rfl⟩, if_neg hground, hfresh⟩

omit [Platform] in
/-- The same behind any string. -/
theorem exists_fresh_open {string : Option (List JByte)}
    (h : ∀ arg, string = some arg → Gathered arg) : let _ := samplePlatform
    ∃ s, Reachable s ∧ openString s = string ∧ Fresh s := by
  let _ := samplePlatform
  obtain ⟨s, hreachable, hnone, hfresh⟩ := exists_fresh
  cases string with
  | none => exact ⟨s, hreachable, hnone, hfresh⟩
  | some arg =>
      obtain ⟨bytes, hbytes⟩ := (h arg rfl).reached hfresh.opened.decoded
      have hstring : append ([27, 93] ++ bytes) s = gathering (opened s) arg := by
        rw [append_front hfresh.decoded, hnone]
        exact hbytes
      exact ⟨gathering (opened s) arg, hstring ▸ hreachable.append _, if_pos rfl,
        hfresh.opened.gathering arg⟩

end Open

/-! ## §4  The exact condition -/

omit [Platform] in
/-- **A payload is opaque, on every platform and in every state, if what the open string holds and
the payload fit together.**  Behind every string that printable ASCII and `ESC` in front of it
leave open, and behind none, it is opaque in all of the states only if they do. -/
theorem osc_opaque_iff {payload : List Char} (hprintable : ∀ c ∈ payload, Printable c) :
    (∀ _ : Platform, ReadsUtf8 → ∀ s, Reachable s → s.mUTF8Mode = true → s.mUTF8ToFollow = 0 →
      FitsOsc (begun (openString s)) payload → ∀ terminator, OscOpaque payload terminator s) ∧
    ∀ string : Option (List JByte), (∀ arg, string = some arg → Gathered arg) →
      ((∀ _ : Platform, ReadsUtf8 → ∀ s, Reachable s → s.mUTF8Mode = true →
          s.mUTF8ToFollow = 0 → openString s = string →
          ∀ terminator, OscOpaque payload terminator s) ↔ FitsOsc (begun string) payload) := by
  refine ⟨fun _ hreads s _ _ hfollow hfits terminator =>
    oscOpaque_of_fits hreads (fun _ => hfollow) hprintable hfits terminator, ?_⟩
  intro string hstring
  constructor
  · intro hall
    obtain ⟨s, hreachable, hopen, hfresh⟩ := exists_fresh_open hstring
    let _ := samplePlatform
    have hopaque := hall samplePlatform readsUtf8_sample s hreachable hfresh.utf8.1 hfresh.utf8.2
      hopen .bel
    obtain ⟨hlength, hascii⟩ := bounded_begun hstring
    subst hopen
    exact fits_of_oscOpaque readsUtf8_sample hopaque hfresh hlength hascii hprintable
  · rintro hfits _ hreads s _ _ hfollow rfl terminator
    exact oscOpaque_of_fits hreads (fun _ => hfollow) hprintable hfits terminator

omit [Platform] in
/-- `0;T` behind no other string, and behind `4;x`. -/
theorem osc_opaque_iff_title :
    (∀ _ : Platform, ReadsUtf8 → ∀ s, Reachable s → s.mUTF8Mode = true → s.mUTF8ToFollow = 0 →
      openString s = none → ∀ terminator, OscOpaque ['0', ';', 'T'] terminator s) ∧
    ¬ ∀ _ : Platform, ReadsUtf8 → ∀ s, Reachable s → s.mUTF8Mode = true → s.mUTF8ToFollow = 0 →
      openString s = some [52, 59, 120] → ∀ terminator, OscOpaque ['0', ';', 'T'] terminator s := by
  have hprintable : ∀ c ∈ ['0', ';', 'T'], Printable c := by simp [Printable]
  have hagree : NumbersAgree [] ['0', ';', 'T'] := ⟨.inl (by decide +kernel), by decide⟩
  have hascii : ∀ c ∈ ['0', ';', 'T'], c.toNat < 0x80 := by simp
  refine ⟨((osc_opaque_iff hprintable).2 none nofun).mpr ⟨hascii, .inl ⟨by decide, hagree⟩⟩, ?_⟩
  have hcollected : Gathered [52, 59, 120] :=
    .text (b := 120) (.text (b := 59) (.text (b := 52) .start ⟨by decide, by decide⟩ (by decide))
      ⟨by decide, by decide⟩ (by decide)) ⟨by decide, by decide⟩ (by decide)
  intro hall
  have hfits := ((osc_opaque_iff hprintable).2 (some [52, 59, 120]) fun arg harg =>
    Option.some.inj harg ▸ hcollected).mp hall
  rcases hfits.room with ⟨_, _, hfront⟩ | ⟨_, hlength, _⟩
  · exact hfront (by decide)
  · exact absurd hlength (by decide)

omit [Platform] in
/-- `é` in a title is drawn on the screen. -/
theorem drawn_in_title : let _ := samplePlatform
    ReadsUtf8 ∧ (∀ c ∈ ['é'], Printable c) ∧
      ∃ s, Reachable s ∧ s.mUTF8Mode = true ∧ s.mUTF8ToFollow = 0 ∧ ¬ OscOpaque ['é'] .bel s := by
  let _ := samplePlatform
  have hcreated : (create 2 3 2).map (fun s =>
      let t := run [.setDefaultUTF8Mode true] s
      decide (t.mUTF8Mode = true ∧ t.mUTF8ToFollow = 0 ∧
        (append (oscBytes ['é'] .bel) t).mScreen ≠ t.mScreen)) = .ok true := by
    decide +kernel
  refine ⟨readsUtf8_sample, by simp [Printable], ?_⟩
  cases hcreate : create 2 3 2 with
  | error e =>
      rw [hcreate] at hcreated
      cases hcreated
  | ok s =>
      rw [hcreate] at hcreated
      obtain ⟨hmode, hfollow, hdrawn⟩ := of_decide_eq_true (Except.ok.inj hcreated)
      exact ⟨_, ⟨2, 3, 2, by decide, s, _, hcreate, rfl⟩, hmode, hfollow,
        fun h => hdrawn (h.undisturbed _ (List.prefix_refl _)).screen⟩

end Kbox.Emulatorview.TerminalEmulator
