import Kbox.Exception
import Kbox.Framework.JavaInt
import Kbox.Framework.Arrays
import Mathlib.Data.List.Rotate

/-!
# `ByteQueue`

The bounded byte queue of `kevinboone.androidterm.util` and, word for word,
of `jackpal.androidterm.emulatorview`.  `wait()` splits a call into critical
sections, so a call is modelled by the part that runs between two waits:
`readLoop` and `writeLoop` are the inner loops, which stop where the source
leaves its loop or waits.  `contents` is what is stored, oldest byte first, and
the two loops take from its front and append at its end.
-/

namespace Kbox.Util

open Kbox.Framework

structure ByteQueue where
  mBuffer : List JByte
  mHead : Nat
  mStoredBytes : Nat
deriving DecidableEq, Repr

namespace ByteQueue

/-- `new ByteQueue(size)`. -/
def create (size : Nat) : ByteQueue := ⟨List.replicate size 0, 0, 0⟩

def getBytesAvailable (q : ByteQueue) : Nat := q.mStoredBytes

/-- The checks both methods make first. -/
def checkArguments (buffer : List JByte) (offset length : Int) : Except Exn Unit :=
  if iadd length offset > buffer.length then .error .illegalArgument
  else if length < 0 then .error .illegalArgument
  else .ok ⟨⟩

/-- `mHead += n; if (mHead >= bufferLength) mHead = 0; mStoredBytes -= n;` -/
def discard (q : ByteQueue) (n : Nat) : ByteQueue :=
  { q with
    mHead := if q.mHead + n ≥ q.mBuffer.length then 0 else q.mHead + n
    mStoredBytes := q.mStoredBytes - n }

/-- One pass of the loop of `read`: a run of stored bytes up to the end of `mBuffer`. -/
def readRun (q : ByteQueue) (buffer : List JByte) (offset length : Nat) :
    Except Exn (ByteQueue × List JByte × Nat) := do
  let bufferLength := q.mBuffer.length
  let oneRun := min (bufferLength - q.mHead) q.mStoredBytes
  let bytesToCopy := min length oneRun
  let buffer ← arraycopy (.arrayIndexOutOfBounds .mBuffer) q.mBuffer q.mHead buffer offset
    bytesToCopy
  return (q.discard bytesToCopy, buffer, bytesToCopy)

/-- `while (length > 0 && mStoredBytes > 0)`; every pass copies a byte, so `length`
passes are enough. -/
def readLoop (q : ByteQueue) (buffer : List JByte) (offset length totalRead : Nat) :
    Nat → Except Exn (ByteQueue × List JByte × Nat)
  | 0 => .ok (q, buffer, totalRead)
  | fuel + 1 =>
      if length > 0 ∧ q.mStoredBytes > 0 then
        match readRun q buffer offset length with
        | .error e => .error e
        | .ok (q, buffer, n) =>
            readLoop q buffer (offset + n) (length - n) (totalRead + n) fuel
      else .ok (q, buffer, totalRead)

/-- One pass of the loop of `write`: a run of free room up to the end of `mBuffer` or
up to the head.  The end of the stored bytes is computed as an `int`. -/
def writeRun (q : ByteQueue) (buffer : List JByte) (offset length : Nat) :
    Except Exn (ByteQueue × Nat) := do
  let bufferLength : Int := q.mBuffer.length
  let last := iadd q.mHead q.mStoredBytes
  let tail := if last ≥ bufferLength then isub last bufferLength else last
  let oneRun := if last ≥ bufferLength then isub q.mHead tail else isub bufferLength tail
  let bytesToCopy := min oneRun length
  let mBuffer ← arraycopy (.arrayIndexOutOfBounds .mBuffer) buffer offset q.mBuffer tail
    bytesToCopy
  return ({ q with
    mBuffer := mBuffer
    mStoredBytes := q.mStoredBytes + bytesToCopy.toNat }, bytesToCopy.toNat)

/-- `while (length > 0)`, up to the point where the queue is full and `write` waits.
Only the first pass can throw (`writeLoop_ok`), so a throw leaves the queue as it was. -/
def writeLoop (q : ByteQueue) (buffer : List JByte) (offset length : Nat) :
    Nat → Except Exn (ByteQueue × Nat × Nat)
  | 0 => .ok (q, offset, length)
  | fuel + 1 =>
      if length > 0 ∧ q.mBuffer.length ≠ q.mStoredBytes then do
        let (q, n) ← writeRun q buffer offset length
        writeLoop q buffer (offset + n) (length - n) fuel
      else .ok (q, offset, length)

/-- A call `write(data, offset, count)` with arguments that name a part of `data`. -/
structure WriteCall where
  data : List JByte
  offset : Nat
  count : Nat
  fits : offset + count ≤ data.length
  isInt : (data.length : Int) ≤ intMax

def WriteCall.bytes (c : WriteCall) : List JByte := stretch c.data c.offset c.count

/-- The locals of `write` while it waits for room. -/
structure WriteFrame where
  call : WriteCall
  offset : Nat
  length : Nat
  wasEmpty : Bool

/-- How a critical section of `write` ends. -/
inductive WriteOutcome where
  | returned (notify : Bool)
  | waits (frame : WriteFrame)

def WriteOutcome.notifies : WriteOutcome → Bool
  | returned notify => notify
  | waits _ => false

/-- The critical section of `write` from a frame on, to its end or to a `wait()`. -/
def runWrite (q : ByteQueue) (f : WriteFrame) : Except Exn (ByteQueue × WriteOutcome) := do
  let (q, offset, length) ← writeLoop q f.call.data f.offset f.length f.length
  return (q, if length = 0 then .returned f.wasEmpty
    else .waits { f with offset := offset, length := length })

/-- `write(data, offset, count)` up to its end or its first `wait()`. -/
def write (q : ByteQueue) (c : WriteCall) : Except Exn (ByteQueue × WriteOutcome) := do
  checkArguments c.data c.offset c.count
  if c.count = 0 then return (q, .returned false)
  else runWrite q ⟨c, c.offset, c.count, q.mStoredBytes = 0⟩

/-- How a critical section of `read` ends; `notify` is `wasFull`. -/
inductive ReadOutcome where
  | returned (buffer : List JByte) (totalRead : Nat) (notify : Bool)
  | waits

/-- `read(buffer, offset, length)`, which may have to wait for a first byte. -/
def read (q : ByteQueue) (buffer : List JByte) (offset length : Nat) :
    Except Exn (ByteQueue × ReadOutcome) := do
  checkArguments buffer offset length
  if length = 0 then return (q, .returned buffer 0 false)
  else if q.mStoredBytes = 0 then return (q, .waits)
  else
    let (q', buffer, totalRead) ← readLoop q buffer offset length 0 length
    return (q', .returned buffer totalRead (q.mBuffer.length = q.mStoredBytes))

/-! ## §1  Contents -/

def contents (q : ByteQueue) : List JByte := (q.mBuffer.rotate q.mHead).take q.mStoredBytes

structure Valid (q : ByteQueue) : Prop where
  head_lt : q.mHead < q.mBuffer.length
  stored_le : q.mStoredBytes ≤ q.mBuffer.length

theorem valid_create {size : Nat} (h : 0 < size) : Valid (create size) :=
  ⟨by simpa only [create, List.length_replicate] using h, Nat.zero_le _⟩

theorem contents_create (size : Nat) : (create size).contents = [] := by
  simp only [contents, create, List.take_zero]

theorem Valid.length_contents {q : ByteQueue} (h : Valid q) :
    q.contents.length = q.mStoredBytes := by
  have := h.stored_le
  simp only [contents, List.length_take, List.length_rotate]
  omega

/-- The `i`-th stored byte lies `i` places behind the head, around the end. -/
theorem Valid.getElem?_contents {q : ByteQueue} (h : Valid q) (i : Nat) :
    q.contents[i]? = if i < q.mStoredBytes then
      if q.mHead + i < q.mBuffer.length then q.mBuffer[q.mHead + i]?
      else q.mBuffer[q.mHead + i - q.mBuffer.length]?
    else none := by
  have hhead := h.head_lt
  have hstored := h.stored_le
  unfold contents
  rw [List.getElem?_take]
  by_cases hi : i < q.mStoredBytes
  · rw [if_pos hi, if_pos hi, List.getElem?_rotate (by omega), Nat.add_comm]
    by_cases hend : q.mHead + i < q.mBuffer.length
    · rw [if_pos hend, Nat.mod_eq_of_lt hend]
    · rw [if_neg hend, Nat.mod_eq_sub_mod (by omega), Nat.mod_eq_of_lt (by omega)]
  · rw [if_neg hi, if_neg hi]

/-- Stored bytes up to the end of the array are a stretch of it. -/
theorem Valid.stretch_head {q : ByteQueue} (h : Valid q) {n : Nat}
    (hend : q.mHead + n ≤ q.mBuffer.length) (hn : n ≤ q.mStoredBytes) :
    stretch q.mBuffer q.mHead n = q.contents.take n := by
  apply List.ext_getElem?
  intro i
  rw [getElem?_stretch, List.getElem?_take, h.getElem?_contents]
  by_cases hi : i < n
  · rw [if_pos hi, if_pos hi, if_pos (by omega), if_pos (by omega)]
  · rw [if_neg hi, if_neg hi]

theorem Valid.discard {q : ByteQueue} (h : Valid q) {n : Nat}
    (hend : q.mHead + n ≤ q.mBuffer.length) (hn : n ≤ q.mStoredBytes) :
    Valid (q.discard n) ∧ (q.discard n).contents = q.contents.drop n := by
  have hhead := h.head_lt
  have hstored := h.stored_le
  have hv : Valid (q.discard n) := by
    refine ⟨?_, ?_⟩
    · show (if q.mHead + n ≥ q.mBuffer.length then 0 else q.mHead + n) < q.mBuffer.length
      split <;> omega
    · show q.mStoredBytes - n ≤ q.mBuffer.length
      omega
  refine ⟨hv, ?_⟩
  apply List.ext_getElem?
  intro i
  rw [hv.getElem?_contents, List.getElem?_drop, h.getElem?_contents]
  unfold ByteQueue.discard
  simp only
  by_cases hi : i < q.mStoredBytes - n
  · have hni : n + i < q.mStoredBytes := by omega
    rw [if_pos hi, if_pos hni]
    by_cases hwrap : q.mHead + n ≥ q.mBuffer.length
    · rw [if_pos hwrap, if_pos (by omega), if_neg (by omega)]
      congr 1
      omega
    · rw [if_neg hwrap, Nat.add_assoc]
  · rw [if_neg hi, if_neg (by omega)]

/-- What one pass of the loop of `read` does, on a valid queue with room in `buffer`. -/
theorem readRun_ok {q : ByteQueue} (h : Valid q) {buffer : List JByte} {offset length : Nat}
    (hfit : offset + length ≤ buffer.length) :
    ∃ q' n, n ≤ length ∧ n ≤ q.mStoredBytes ∧
      (0 < length → 0 < q.mStoredBytes → 0 < n) ∧
      readRun q buffer offset length =
        .ok (q', splice buffer offset (q.contents.take n), n) ∧
      Valid q' ∧ q'.mBuffer.length = q.mBuffer.length ∧
      q'.contents = q.contents.drop n := by
  have hhead := h.head_lt
  generalize hn : min length (min (q.mBuffer.length - q.mHead) q.mStoredBytes) = n
  have hcopy : arraycopy (Exn.arrayIndexOutOfBounds .mBuffer) q.mBuffer q.mHead buffer offset n =
      .ok (splice buffer offset (stretch q.mBuffer q.mHead n)) :=
    arraycopy_of_le (by omega) (by omega)
  obtain ⟨hv, hcontents⟩ := h.discard (n := n) (by omega) (by omega)
  refine ⟨q.discard n, n, by omega, by omega, by omega, ?_, hv, rfl, hcontents⟩
  simp only [readRun, hn, hcopy, h.stretch_head (n := n) (by omega) (by omega)]
  rfl

/-- The loop of `read` takes as much as is asked for and stored. -/
theorem readLoop_ok {q : ByteQueue} (h : Valid q) {buffer : List JByte}
    {offset length fuel : Nat} (totalRead : Nat) (hfit : offset + length ≤ buffer.length)
    (hfuel : length ≤ fuel) :
    ∃ q', readLoop q buffer offset length totalRead fuel =
        .ok (q', splice buffer offset (q.contents.take length),
          totalRead + min length q.mStoredBytes) ∧
      Valid q' ∧ q'.mBuffer.length = q.mBuffer.length ∧
      q'.contents = q.contents.drop length := by
  have hlen := h.length_contents
  induction fuel generalizing q buffer offset length totalRead with
  | zero =>
      obtain rfl : length = 0 := by omega
      rw [List.take_zero, splice_nil, Nat.zero_min]
      exact ⟨q, rfl, h, rfl, rfl⟩
  | succ fuel ih =>
      unfold readLoop
      by_cases hgo : length > 0 ∧ q.mStoredBytes > 0
      · obtain ⟨q₁, n, hn, hns, hpos, hrun, h₁, hcap₁, hcontents₁⟩ := readRun_ok h hfit
        have hnpos := hpos hgo.1 hgo.2
        have htake : (q.contents.take n).length = n := by
          rw [List.length_take]
          omega
        have hlen₁ := h₁.length_contents
        have hstored₁ : q₁.mStoredBytes = q.mStoredBytes - n := by
          rw [← hlen₁, hcontents₁, List.length_drop, hlen]
        have hfit₁ : offset + n + (length - n) ≤
            (splice buffer offset (q.contents.take n)).length := by
          rw [length_splice (by omega)]
          omega
        obtain ⟨q₂, hloop, h₂, hcap₂, hcontents₂⟩ :=
          ih h₁ (totalRead + n) hfit₁ (by omega) hlen₁
        refine ⟨q₂, ?_, h₂, hcap₂.trans hcap₁, ?_⟩
        · have hsplice : splice (splice buffer offset (q.contents.take n))
              (offset + (q.contents.take n).length) (q₁.contents.take (length - n)) =
              splice buffer offset (q.contents.take n ++ q₁.contents.take (length - n)) :=
            splice_splice (by
              rw [List.length_take, List.length_take]
              omega)
          rw [htake, hcontents₁, ← List.take_add, show n + (length - n) = length by omega,
            ← hcontents₁] at hsplice
          rw [if_pos hgo, hrun]
          simp only [hloop, hsplice, hstored₁]
          congr 3
          omega
        · rw [hcontents₂, hcontents₁, List.drop_drop]
          congr 1
          omega
      · rw [if_neg hgo]
        have hnil : q.contents.take length = [] := by
          apply List.eq_nil_of_length_eq_zero
          rw [List.length_take]
          omega
        refine ⟨q, ?_, h, rfl, ?_⟩
        · rw [hnil, splice_nil, show min length q.mStoredBytes = 0 by omega]
          rfl
        · have := List.take_append_drop length q.contents
          rw [hnil, List.nil_append] at this
          exact this.symm

/-- Free room up to the end of the array, or up to the head, takes a stretch. -/
theorem Valid.append {q : ByteQueue} (h : Valid q) (tail : Nat) {n : Nat} {ys : List JByte}
    (hys : ys.length = n) (hroom : q.mStoredBytes + n ≤ q.mBuffer.length)
    (htail : (tail = q.mHead + q.mStoredBytes ∧ tail + n ≤ q.mBuffer.length) ∨
      (tail + q.mBuffer.length = q.mHead + q.mStoredBytes ∧ tail + n ≤ q.mHead)) :
    Valid { q with mBuffer := splice q.mBuffer tail ys, mStoredBytes := q.mStoredBytes + n } ∧
      contents { q with
        mBuffer := splice q.mBuffer tail ys, mStoredBytes := q.mStoredBytes + n } =
        q.contents ++ ys := by
  have hhead := h.head_lt
  have hfit : tail + ys.length ≤ q.mBuffer.length := by omega
  have hcap := length_splice hfit
  have hlen := h.length_contents
  have hv : Valid { q with
      mBuffer := splice q.mBuffer tail ys, mStoredBytes := q.mStoredBytes + n } := by
    refine ⟨?_, ?_⟩
    · exact hhead.trans_eq hcap.symm
    · exact hroom.trans_eq hcap.symm
  refine ⟨hv, ?_⟩
  apply List.ext_getElem?
  intro i
  rw [hv.getElem?_contents, List.getElem?_append, hlen, h.getElem?_contents]
  simp only [hcap, getElem?_splice hfit]
  by_cases hi : i < q.mStoredBytes
  · -- a byte stored before: the new run does not reach it
    rw [if_pos (show i < q.mStoredBytes + n by omega), if_pos hi, if_pos hi]
    by_cases hend : q.mHead + i < q.mBuffer.length
    · rw [if_pos hend, if_pos hend, if_neg (by omega)]
    · rw [if_neg hend, if_neg hend, if_neg (by omega)]
  · rw [if_neg hi]
    by_cases hin : i < q.mStoredBytes + n
    · rw [if_pos hin]
      by_cases hend : q.mHead + i < q.mBuffer.length
      · rw [if_pos hend, if_pos (by omega)]
        congr 1
        omega
      · rw [if_neg hend, if_pos (by omega)]
        congr 1
        omega
    · rw [if_neg hin, List.getElem?_eq_none (by omega)]

/-- What one pass of the loop of `write` does, on a valid queue that is not full.  A
second pass starts at the end of the array. -/
theorem writeRun_ok {q : ByteQueue} (h : Valid q) {buffer : List JByte} {offset length : Nat}
    (hfit : offset + length ≤ buffer.length) (hroom : q.mStoredBytes < q.mBuffer.length)
    (hint : (q.mBuffer.length : Int) ≤ intMax)
    (htail : (q.mHead : Int) + q.mStoredBytes ≤ intMax) :
    ∃ q' n, n ≤ length ∧ q.mStoredBytes + n ≤ q.mBuffer.length ∧ (0 < length → 0 < n) ∧
      writeRun q buffer offset length = .ok (q', n) ∧
      Valid q' ∧ q'.mBuffer.length = q.mBuffer.length ∧
      q'.contents = q.contents ++ stretch buffer offset n ∧
      (n = length ∨ q'.mStoredBytes = q.mBuffer.length ∨
        q'.mHead + q'.mStoredBytes = q.mBuffer.length) := by
  have hhead := h.head_lt
  have hsum : iadd (q.mHead : Int) q.mStoredBytes = ((q.mHead + q.mStoredBytes : Nat) : Int) :=
    iadd_natCast (n := q.mHead + q.mStoredBytes) (Nat.le_refl _) (by push_cast; exact htail)
  unfold intMax at hint
  by_cases hwrap : q.mHead + q.mStoredBytes ≥ q.mBuffer.length
  · generalize htail : q.mHead + q.mStoredBytes - q.mBuffer.length = tail
    generalize hn : min (q.mHead - tail) length = n
    have hlen : (stretch buffer offset n).length = n := length_stretch (by omega)
    have hcopy : arraycopy (Exn.arrayIndexOutOfBounds .mBuffer) buffer offset q.mBuffer tail n =
        .ok (splice q.mBuffer tail (stretch buffer offset n)) :=
      arraycopy_of_le (by omega) (by omega)
    have hsub : isub ((q.mHead + q.mStoredBytes : Nat) : Int) q.mBuffer.length = (tail : Int) := by
      rw [isub_of_isInt (by unfold IsInt; omega)]
      omega
    have hrunLength : isub (q.mHead : Int) (tail : Int) = ((q.mHead - tail : Nat) : Int) := by
      rw [isub_of_isInt (by unfold IsInt; omega)]
      omega
    have hmin : min ((q.mHead - tail : Nat) : Int) length = (n : Int) := by omega
    obtain ⟨hv, hcontents⟩ := h.append tail hlen (by omega) (by omega)
    refine ⟨_, n, by omega, by omega, by omega, ?_, hv,
      length_splice (by rw [hlen]; omega), hcontents, ?_⟩
    · unfold writeRun
      simp only [hsum, if_pos (show ((q.mHead + q.mStoredBytes : Nat) : Int) ≥
        q.mBuffer.length by omega), hsub, hrunLength, hmin, hcopy, Int.toNat_natCast]
      rfl
    · show n = length ∨ q.mStoredBytes + n = q.mBuffer.length ∨ _
      omega
  · generalize htail : q.mHead + q.mStoredBytes = tail at hwrap hsum
    generalize hn : min (q.mBuffer.length - tail) length = n
    have hlen : (stretch buffer offset n).length = n := length_stretch (by omega)
    have hcopy : arraycopy (Exn.arrayIndexOutOfBounds .mBuffer) buffer offset q.mBuffer tail n =
        .ok (splice q.mBuffer tail (stretch buffer offset n)) :=
      arraycopy_of_le (by omega) (by omega)
    have hrunLength : isub (q.mBuffer.length : Int) (tail : Int) =
        ((q.mBuffer.length - tail : Nat) : Int) := by
      rw [isub_of_isInt (by unfold IsInt; omega)]
      omega
    have hmin : min ((q.mBuffer.length - tail : Nat) : Int) length = (n : Int) := by omega
    obtain ⟨hv, hcontents⟩ := h.append tail hlen (by omega) (by omega)
    refine ⟨_, n, by omega, by omega, by omega, ?_, hv,
      length_splice (by rw [hlen]; omega), hcontents, ?_⟩
    · unfold writeRun
      simp only [hsum, if_neg (show ¬ (tail : Int) ≥ q.mBuffer.length by omega), hrunLength,
        hmin, hcopy, Int.toNat_natCast]
      rfl
    · show n = length ∨ _ ∨ q.mHead + (q.mStoredBytes + n) = q.mBuffer.length
      omega

/-- The end of the stored bytes is an `int`, or `writeLoop` does not compute it. -/
def TailFits (q : ByteQueue) (length : Nat) : Prop :=
  length = 0 ∨ q.mStoredBytes = q.mBuffer.length ∨
    (q.mHead : Int) + q.mStoredBytes ≤ intMax

/-- The loop of `write` puts in as much as there is room for. -/
theorem writeLoop_ok {q : ByteQueue} (h : Valid q) {buffer : List JByte}
    {offset length fuel : Nat} (hfit : offset + length ≤ buffer.length)
    (hint : (q.mBuffer.length : Int) ≤ intMax) (htail : q.TailFits length)
    (hfuel : length ≤ fuel) :
    ∃ q' n, n = min length (q.mBuffer.length - q.mStoredBytes) ∧
      writeLoop q buffer offset length fuel = .ok (q', offset + n, length - n) ∧
      Valid q' ∧ q'.mBuffer.length = q.mBuffer.length ∧
      q'.contents = q.contents ++ stretch buffer offset n := by
  have hlen := h.length_contents
  have hstored := h.stored_le
  induction fuel generalizing q offset length with
  | zero =>
      obtain rfl : length = 0 := by omega
      refine ⟨q, 0, by omega, rfl, h, rfl, ?_⟩
      simp only [stretch, List.take_zero, List.append_nil]
  | succ fuel ih =>
      unfold writeLoop
      by_cases hgo : length > 0 ∧ q.mBuffer.length ≠ q.mStoredBytes
      · have hsum : (q.mHead : Int) + q.mStoredBytes ≤ intMax := by
          rcases htail with hzero | hfull | hsum
          · exact absurd hzero (by omega)
          · exact absurd hfull.symm hgo.2
          · exact hsum
        obtain ⟨q₁, n₁, hn₁, hroom₁, hpos, hrun, h₁, hcap₁, hcontents₁, hnext⟩ :=
          writeRun_ok h hfit (by omega) hint hsum
        have hnpos := hpos hgo.1
        have hlen₁ := h₁.length_contents
        have hseg : (stretch buffer offset n₁).length = n₁ := length_stretch (by omega)
        have hstored₁ : q₁.mStoredBytes = q.mStoredBytes + n₁ := by
          rw [← hlen₁, hcontents₁, List.length_append, hlen, hseg]
        have htail₁ : q₁.TailFits (length - n₁) := by
          rcases hnext with hdone | hfull | hend
          · exact .inl (by omega)
          · exact .inr (.inl (hfull.trans hcap₁.symm))
          · exact .inr (.inr (by omega))
        have hfit₁ : offset + n₁ + (length - n₁) ≤ buffer.length := by omega
        obtain ⟨q₂, n₂, hn₂, hloop, h₂, hcap₂, hcontents₂⟩ :=
          ih h₁ hfit₁ (by omega) htail₁ (by omega) hlen₁ (by omega)
        rw [if_pos hgo, hrun]
        refine ⟨q₂, n₁ + n₂, by omega, ?_, h₂, hcap₂.trans hcap₁, ?_⟩
        · refine hloop.trans ?_
          congr 3 <;> omega
        · rw [hcontents₂, hcontents₁, stretch_add, List.append_assoc]
      · rw [if_neg hgo]
        refine ⟨q, 0, by omega, rfl, h, rfl, ?_⟩
        simp only [stretch, List.take_zero, List.append_nil]

/-- Past the largest `int` the copy has a negative destination, and throws. -/
theorem writeLoop_error {q : ByteQueue} (h : Valid q) {buffer : List JByte}
    {offset length : Nat} (hint : (q.mBuffer.length : Int) ≤ intMax)
    (htail : ¬ q.TailFits length) :
    writeLoop q buffer offset length length =
      .error (.arrayIndexOutOfBounds .mBuffer) := by
  unfold TailFits at htail
  push Not at htail
  obtain ⟨hlength, hroom, hsum⟩ := htail
  have hhead := h.head_lt
  have hstored := h.stored_le
  have hneg : iadd (q.mHead : Int) q.mStoredBytes < 0 :=
    iadd_neg_of_overflow (by omega) (by omega)
      (by unfold IsInt intMax at *; omega) (by unfold IsInt intMax at *; omega) hsum
  have hrun : writeRun q buffer offset length = .error (.arrayIndexOutOfBounds .mBuffer) := by
    unfold writeRun
    generalize iadd (q.mHead : Int) q.mStoredBytes = last at hneg
    simp only [if_neg (show ¬ last ≥ (q.mBuffer.length : Int) by omega), arraycopy,
      if_pos (show (offset : Int) < 0 ∨ last < 0 ∨ _ from .inr (.inl hneg))]
    rfl
  obtain ⟨fuel, rfl⟩ := Nat.exists_eq_succ_of_ne_zero hlength
  unfold writeLoop
  rw [if_pos ⟨by omega, Ne.symm hroom⟩, hrun]
  rfl

/-! ## §2  The methods -/

theorem checkArguments_ok {buffer : List JByte} {offset length : Nat}
    (hfit : offset + length ≤ buffer.length) (hint : (buffer.length : Int) ≤ intMax) :
    checkArguments buffer offset length = .ok ⟨⟩ := by
  have hadd : iadd (length : Int) offset = ((length + offset : Nat) : Int) :=
    iadd_natCast (by omega) hint
  unfold checkArguments
  rw [hadd, if_neg (by omega), if_neg (by omega)]

/-- A critical section of `write` leaves a valid queue that holds as many more of the
frame's bytes as there was room for. -/
theorem runWrite_ok {q : ByteQueue} (h : Valid q) {f : WriteFrame}
    (hfit : f.offset + f.length ≤ f.call.data.length)
    (hint : (q.mBuffer.length : Int) ≤ intMax) (htail : q.TailFits f.length) :
    ∃ q' n, n = min f.length (q.mBuffer.length - q.mStoredBytes) ∧
      runWrite q f = .ok (q', if f.length - n = 0 then .returned f.wasEmpty
        else .waits { f with offset := f.offset + n, length := f.length - n }) ∧
      Valid q' ∧ q'.mBuffer.length = q.mBuffer.length ∧
      q'.contents = q.contents ++ stretch f.call.data f.offset n := by
  obtain ⟨q', n, hn, hloop, hv, hcap, hcontents⟩ :=
    writeLoop_ok h hfit hint htail (Nat.le_refl _)
  refine ⟨q', n, hn, ?_, hv, hcap, hcontents⟩
  unfold runWrite
  rw [hloop]
  rfl

theorem write_ok {q : ByteQueue} (c : WriteCall) :
    write q c = if c.count = 0 then .ok (q, .returned false)
      else runWrite q ⟨c, c.offset, c.count, q.mStoredBytes = 0⟩ := by
  unfold write
  rw [checkArguments_ok c.fits c.isInt]
  rfl

/-- Reading takes as much as is asked for and stored off the front. -/
theorem read_ok {q : ByteQueue} (h : Valid q) {buffer : List JByte} {offset length : Nat}
    (hfit : offset + length ≤ buffer.length) (hint : (buffer.length : Int) ≤ intMax)
    (hpos : 0 < length) (hstored : 0 < q.mStoredBytes) :
    ∃ q', read q buffer offset length =
        .ok (q', .returned (splice buffer offset (q.contents.take length))
          (min length q.mStoredBytes) (q.mBuffer.length = q.mStoredBytes)) ∧
      Valid q' ∧ q'.mBuffer.length = q.mBuffer.length ∧
      q'.contents = q.contents.drop length := by
  obtain ⟨q', hloop, hv, hcap, hcontents⟩ := readLoop_ok h 0 hfit (Nat.le_refl _)
  refine ⟨q', ?_, hv, hcap, hcontents⟩
  have hcheck := checkArguments_ok hfit hint
  unfold read
  rw [hcheck]
  show (if length = 0 then _ else if q.mStoredBytes = 0 then _ else _) = _
  rw [if_neg (by omega), if_neg (by omega), hloop, Nat.zero_add]
  rfl

theorem read_empty {q : ByteQueue} {buffer : List JByte} {offset length : Nat}
    (hfit : offset + length ≤ buffer.length) (hint : (buffer.length : Int) ≤ intMax)
    (hpos : 0 < length) (hempty : q.mStoredBytes = 0) :
    read q buffer offset length = .ok (q, .waits) := by
  have hcheck := checkArguments_ok hfit hint
  unfold read
  rw [hcheck]
  show (if length = 0 then _ else if q.mStoredBytes = 0 then _ else _) = _
  rw [if_neg (by omega), if_pos hempty]
  rfl

theorem read_zero (q : ByteQueue) {buffer : List JByte} {offset : Nat}
    (hfit : offset ≤ buffer.length) (hint : (buffer.length : Int) ≤ intMax) :
    read q buffer offset 0 = .ok (q, .returned buffer 0 false) := by
  have hcheck : checkArguments buffer (offset : Nat) (0 : Nat) = .ok ⟨⟩ :=
    checkArguments_ok hfit hint
  unfold read
  rw [hcheck]
  rfl

/-- The bytes read lie at the front of the destination. -/
theorem take_splice_zero (buffer bytes : List JByte) :
    (splice buffer 0 bytes).take bytes.length = bytes := by
  simp only [splice, List.take_zero, List.nil_append, List.take_left']

end ByteQueue

end Kbox.Util
