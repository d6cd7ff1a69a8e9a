import Kbox.Util.QueueThreads

/-!
# Wakeups between one reader and one writer

`read` notifies when it found the queue full, `write` when the queue was empty
as the call began.  The first is enough for a writer that waits for room.  The
second is not enough for a reader that waits for bytes: the writer may have
begun on a queue that was not empty, and have waited for room meanwhile.
`Covered` is what a critical section of the writer has to meet so that the
reader is not left behind.
-/

namespace Kbox.Util.QueueThreads

open Kbox.Framework Kbox.Util.ByteQueue
open Relation (ReflTransGen)

inductive Role where
  | producer
  | consumer
deriving DecidableEq, Repr

namespace Role

open QueueThread

/-- The producer makes the calls of `write`, the consumer those of `read`. -/
abbrev Takes (i : Role) (s s' : State Role) : Prop :=
  Step (· = producer) (· = consumer) i s s'

/-- Running inside a call that ends in a `notify()`, if nothing intervenes. -/
def WillNotify (q : ByteQueue) : QueueThread → Prop
  | .outside => False
  | .entersWrite c => 0 < c.count ∧ q.mStoredBytes = 0
  | .inWrite f waiting => waiting = false ∧ f.wasEmpty = true
  | .entersRead c => 0 < c.length ∧ q.mStoredBytes = q.mBuffer.length
  | .inRead _ waiting => waiting = false ∧ q.mStoredBytes = q.mBuffer.length

/-- A side waits for what is there, and nobody is about to tell it. -/
def LostWakeup (s : State Role) : Prop :=
  ((s.thread consumer).Waits ∧ 0 < s.queue.mStoredBytes ∧
    ¬ WillNotify s.queue (s.thread producer)) ∨
  ((s.thread producer).Waits ∧ s.queue.mStoredBytes < s.queue.mBuffer.length ∧
    ¬ WillNotify s.queue (s.thread consumer))

def BothWait (s : State Role) : Prop := ∀ i, (s.thread i).Waits

/-- If the reader waits as a critical section of the writer starts, then the call began
on an empty queue and what is left of it fits. -/
def Covered (i : Role) (s : State Role) : Prop :=
  i = producer → (s.thread consumer).Waits → ∀ f r,
    Writes s.queue (s.thread producer) f r → 0 < f.length →
    f.wasEmpty = true ∧ f.length ≤ s.queue.mBuffer.length

/-! ## §1  What a waiting side waits for -/

/-- Between two calls of this side, or inside one. -/
def InRole : Role → QueueThread → Prop
  | _, .outside => True
  | producer, .entersWrite _ | producer, .inWrite _ _ => True
  | consumer, .entersRead _ | consumer, .inRead _ _ => True
  | _, _ => False

/-- Each side waits only for what is not there. -/
structure Awake (q : ByteQueue) (t : Role → QueueThread) : Prop where
  roles : ∀ i, InRole i (t i)
  full : (t producer).Waits → q.mStoredBytes = q.mBuffer.length
  empty : (t consumer).Waits → q.mStoredBytes = 0

theorem InRole.wake {i : Role} {x : QueueThread} (h : InRole i x) : InRole i x.wake := by
  cases i <;> cases x <;> exact h

theorem not_reads {x : QueueThread} (h : InRole producer x) (c : ReadCall) : ¬ Reads x c := by
  rintro (_ | _) <;> exact h

theorem not_writes {q : ByteQueue} {x : QueueThread} (h : InRole consumer x) (f : WriteFrame)
    (r : Except Exn (ByteQueue × WriteOutcome)) : ¬ Writes q x f r := by
  rintro (_ | _) <;> exact h

theorem roles_update {t : Role → QueueThread} (h : ∀ i, InRole i (t i)) {i : Role}
    {x : QueueThread} (hx : InRole i x) (j : Role) : InRole j (Function.update t i x j) := by
  by_cases hij : j = i
  · subst hij
    rwa [Function.update_self]
  · rw [Function.update_of_ne hij]
    exact h j

/-- A thread that stops waiting, or does not start to. -/
theorem Awake.update {q : ByteQueue} {t : Role → QueueThread} (h : Awake q t) {i : Role}
    {x : QueueThread} (hx : InRole i x) (hwaits : ¬ x.Waits) :
    Awake q (Function.update t i x) := by
  refine ⟨roles_update h.roles hx, ?_, ?_⟩
  · intro hw
    by_cases hi : producer = i
    · subst hi
      rw [Function.update_self] at hw
      exact absurd hw hwaits
    · rw [Function.update_of_ne hi] at hw
      exact h.full hw
  · intro hw
    by_cases hi : consumer = i
    · subst hi
      rw [Function.update_self] at hw
      exact absurd hw hwaits
    · rw [Function.update_of_ne hi] at hw
      exact h.empty hw

theorem waits_of_notify {t t' : Role → QueueThread} {b : Bool}
    (h : Notify QueueThread.Waits QueueThread.wake t b t') {i : Role} (hi : (t' i).Waits) :
    (t i).Waits := by
  rcases h.same_or_woken i with heq | ⟨_, hwaits, _⟩
  · rwa [heq] at hi
  · exact hwaits

theorem Awake.notify {q : ByteQueue} {t t' : Role → QueueThread} {b : Bool} (h : Awake q t)
    (hn : Notify QueueThread.Waits QueueThread.wake t b t') : Awake q t' where
  roles := fun i => by
    rcases hn.same_or_woken i with heq | ⟨_, _, heq⟩
    · rw [heq]
      exact h.roles i
    · rw [heq]
      exact (h.roles i).wake
  full := fun hw => h.full (waits_of_notify hn hw)
  empty := fun hw => h.empty (waits_of_notify hn hw)

/-- The one side that waits is told. -/
theorem not_waits_of_notify {t t' : Role → QueueThread} {i : Role}
    (hn : Notify QueueThread.Waits QueueThread.wake t true t')
    (honly : ∀ j, (t j).Waits → j = i) : ¬ (t' i).Waits := by
  intro hw
  rw [hn.wakes_only (waits_of_notify hn hw) honly] at hw
  exact not_waits_wake _ hw

/-! ## §2  Steps -/

theorem awake_write {s : State Role} {f : WriteFrame} {q : ByteQueue} {o : WriteOutcome}
    {t : Role → QueueThread} (h : Awake s.queue s.thread) (hsec : WriteSection s.queue f q o)
    (hnotify : Notify QueueThread.Waits QueueThread.wake
      (Function.update s.thread producer (leaveWrite o)) o.notifies t)
    (hcovered : (s.thread consumer).Waits → 0 < f.length →
      f.wasEmpty = true ∧ f.length ≤ s.queue.mBuffer.length) : Awake q t := by
  have hother : Function.update s.thread producer (leaveWrite o) consumer = s.thread consumer :=
    Function.update_of_ne (by decide) ..
  rcases Nat.eq_zero_or_pos f.length with hzero | hpos
  · obtain ⟨rfl, rfl⟩ := hsec.nothing hzero
    exact (h.update (i := producer) (x := .outside) trivial id).notify hnotify
  · have hroles : ∀ i, InRole i (Function.update s.thread producer (leaveWrite o) i) :=
      roles_update h.roles (by cases o <;> trivial)
    by_cases hwaits : (s.thread consumer).Waits
    · -- what is left fits the empty queue, so the reader is told
      obtain ⟨hempty, hfits⟩ := hcovered hwaits hpos
      rw [← Nat.sub_zero s.queue.mBuffer.length, ← h.empty hwaits] at hfits
      rcases hsec.outcome hpos with ⟨rfl, _⟩ | ⟨_, hlong, _⟩
      · refine ⟨fun i => ?_, fun hw => ?_, fun hw => ?_⟩
        · rcases hnotify.same_or_woken i with heq | ⟨_, _, heq⟩
          · rw [heq]
            exact hroles i
          · rw [heq]
            exact (hroles i).wake
        · have := waits_of_notify hnotify hw
          rw [Function.update_self] at this
          exact this.elim
        · have honly : ∀ j, (Function.update s.thread producer
              (leaveWrite (.returned f.wasEmpty)) j).Waits → j = consumer := by
            rintro (_ | _) hj
            · rw [Function.update_self] at hj
              exact hj.elim
            · rfl
          rw [hempty] at hnotify honly
          exact absurd hw (not_waits_of_notify hnotify honly)
      · omega
    · have hawake : Awake q (Function.update s.thread producer (leaveWrite o)) := by
        refine ⟨hroles, fun hw => ?_, fun hw => ?_⟩
        · rw [Function.update_self] at hw
          rcases hsec.outcome hpos with ⟨rfl, _⟩ | ⟨_, _, hfull⟩
          · exact hw.elim
          · exact hfull
        · rw [hother] at hw
          exact absurd hw hwaits
      exact hawake.notify hnotify

/-- A read from a full queue that leaves room tells the writer. -/
theorem awake_read {s : State Role} {q : ByteQueue} {notify : Bool} {t : Role → QueueThread}
    (h : Awake s.queue s.thread)
    (hnotify : Notify QueueThread.Waits QueueThread.wake
      (Function.update s.thread consumer .outside) notify t)
    (hnotifies : s.queue.mStoredBytes = s.queue.mBuffer.length →
      q.mStoredBytes ≠ q.mBuffer.length → notify = true) : Awake q t := by
  have hroles : ∀ i, InRole i (Function.update s.thread consumer .outside i) :=
    roles_update h.roles trivial
  refine ⟨fun i => ?_, fun hw => ?_, fun hw => ?_⟩
  · rcases hnotify.same_or_woken i with heq | ⟨_, _, heq⟩
    · rw [heq]
      exact hroles i
    · rw [heq]
      exact (hroles i).wake
  · have hwaits := waits_of_notify hnotify hw
    rw [Function.update_of_ne (by decide)] at hwaits
    by_contra hroom
    obtain rfl := hnotifies (h.full hwaits) hroom
    have honly : ∀ j, (Function.update s.thread consumer .outside j).Waits → j = producer := by
      rintro (_ | _) hj
      · rfl
      · rw [Function.update_self] at hj
        exact hj.elim
    exact not_waits_of_notify hnotify honly hw
  · have := waits_of_notify hnotify hw
    rw [Function.update_self] at this
    exact this.elim

theorem awake_step {size : Nat} (hint : (size : Int) ≤ intMax) {i : Role} {s s' : State Role}
    (hinv : Inv size s) (h : Awake s.queue s.thread) (hstep : i.Takes s s')
    (hcovered : i.Covered s) : Awake s'.queue s'.thread := by
  cases hstep with
  | @callWrite c hmay _ => exact h.update (x := .entersWrite c) (by subst hmay; trivial) id
  | @callRead c hmay _ => exact h.update (x := .entersRead c) (by subst hmay; trivial) id
  | @write f r q o t hwrites hr hnotify =>
      have hcap : (s.queue.mBuffer.length : Int) ≤ intMax := by
        rw [hinv.capacity]
        exact hint
      have hsec := hwrites.spec hinv.queue hcap (hinv.threads i) hr
      cases i with
      | consumer => exact absurd hwrites (not_writes (h.roles consumer) f r)
      | producer =>
          exact awake_write h hsec hnotify fun hw => hcovered rfl hw f r hwrites
  | writeThrows _ _ => exact h.update (x := .outside) (by cases i <;> trivial) id
  | @read c q buffer n notify t hreads hread hnotify =>
      cases i with
      | producer => exact absurd hreads (not_reads (h.roles producer) c)
      | consumer =>
          rcases read_section hinv.queue c with
            ⟨_, _, hwaits⟩ | ⟨q', _, _, _, hread', hq', _, _, hnotifies⟩
          · rw [hwaits] at hread
            cases hread
          · rw [hread'] at hread
            cases hread
            exact awake_read h hnotify hnotifies
  | @readWaits c q hreads hread =>
      cases i with
      | producer => exact absurd hreads (not_reads (h.roles producer) c)
      | consumer =>
          rcases read_section hinv.queue c with ⟨_, hempty, hwaits⟩ | ⟨_, _, _, _, hread', _⟩
          · rw [hwaits] at hread
            cases hread
            refine ⟨roles_update h.roles trivial, ?_, fun _ => hempty⟩
            intro hw
            have hsame : Function.update s.thread consumer (.inRead c true) producer =
                s.thread producer := Function.update_of_ne (by decide) ..
            exact h.full (hsame ▸ hw)
          · rw [hread'] at hread
            cases hread
  | readThrows _ _ => exact h.update (x := .outside) (by cases i <;> trivial) id
  | spurious _ => exact h.update (h.roles i).wake (not_waits_wake _)
  | interrupted _ => exact h.update (x := .outside) (by cases i <;> trivial) id

/-- A section that is not covered leaves the reader behind. -/
theorem lost_of_not_covered {size : Nat} (hint : (size : Int) ≤ intMax) {i : Role}
    {s s' : State Role} (hinv : Inv size s) (h : Awake s.queue s.thread)
    (hstep : i.Takes s s') (hcovered : ¬ i.Covered s) : LostWakeup s' := by
  unfold Covered at hcovered
  push Not at hcovered
  obtain ⟨rfl, hwaits, f, r, hwrites, hpos, huncovered⟩ := hcovered
  have hempty := h.empty hwaits
  have hcap : (s.queue.mBuffer.length : Int) ≤ intMax := by
    rw [hinv.capacity]
    exact hint
  have hvalid := hinv.threads producer
  cases hstep with
  | callWrite _ hout =>
      rw [hout] at hwrites
      cases hwrites
  | callRead hmay _ => cases hmay
  | read hreads _ _ => exact absurd hreads (not_reads (h.roles producer) _)
  | readWaits hreads _ => exact absurd hreads (not_reads (h.roles producer) _)
  | readThrows hreads _ => exact absurd hreads (not_reads (h.roles producer) _)
  | spurious hw => exact absurd hw hwrites.not_waits
  | interrupted hw => exact absurd hw hwrites.not_waits
  | writeThrows hwrites' hr =>
      obtain ⟨_, rfl⟩ := hwrites.unique hwrites'
      obtain ⟨_, _, hok⟩ := hwrites.ok_of_empty hinv.queue hcap hvalid hempty
      rw [hok] at hr
      cases hr
  | @write f _ q o t hwrites' hr hnotify =>
      obtain ⟨rfl, rfl⟩ := hwrites.unique hwrites'
      have hsec := hwrites.spec hinv.queue hcap hvalid hr
      have hother : Function.update s.thread producer (leaveWrite o) consumer =
          s.thread consumer := Function.update_of_ne (by decide) ..
      have hself : Function.update s.thread producer (leaveWrite o) producer =
          leaveWrite o := Function.update_self ..
      -- the writer does not notify, and leaves bytes behind
      have hsilent : o.notifies = false ∧ 0 < q.mStoredBytes ∧ ¬ WillNotify q (leaveWrite o) := by
        rcases hsec.outcome hpos with ⟨rfl, hfits⟩ | ⟨⟨f', rfl⟩, _, hfull⟩
        · refine ⟨?_, ?_, id⟩
          · by_contra htrue
            have := huncovered (Bool.eq_true_of_not_eq_false htrue)
            omega
          · rw [← hsec.valid.length_contents, hsec.contents, List.length_append, unwritten,
              Nat.sub_zero, length_stretch (hwrites.fits hvalid)]
            omega
        · refine ⟨rfl, ?_, ?_⟩
          · have := hsec.valid.head_lt
            omega
          · rintro ⟨hfalse, _⟩
            cases hfalse
      obtain ⟨hquiet, hstored, hnot⟩ := hsilent
      rw [hquiet] at hnotify
      obtain rfl := hnotify.eq_of_silent
      refine .inl ⟨(congrArg QueueThread.Waits hother).mpr hwaits, hstored, fun hnotify => ?_⟩
      exact hnot ((congrArg (WillNotify q) hself).mp hnotify)

/-! ## §3  Runs -/

/-- Runs whose steps are all covered. -/
def CoveredRuns : State Role → State Role → Prop :=
  ReflTransGen fun s s' => ∃ i : Role, i.Covered s ∧ i.Takes s s'

theorem good_run {size : Nat} (hsize : 0 < size) (hint : (size : Int) ≤ intMax)
    {s : State Role} (h : CoveredRuns (initial Role size) s) :
    Inv size s ∧ Awake s.queue s.thread := by
  refine invariant_of_step (I := fun s : State Role => Inv size s ∧ Awake s.queue s.thread)
    ⟨inv_initial hsize, ?_⟩ ?_ h
  · exact ⟨fun i => by cases i <;> trivial, False.elim, False.elim⟩
  · rintro s s' ⟨hinv, hawake⟩ ⟨i, hcovered, hstep⟩
    exact ⟨inv_step hint hinv hstep, awake_step hint hinv hawake hstep hcovered⟩

theorem Awake.not_lost {s : State Role} (h : Awake s.queue s.thread) : ¬ LostWakeup s := by
  rintro (⟨hwaits, hstored, _⟩ | ⟨hwaits, hroom, _⟩)
  · have := h.empty hwaits
    omega
  · have := h.full hwaits
    omega

theorem Awake.not_both {s : State Role} (hq : s.queue.Valid) (h : Awake s.queue s.thread) :
    ¬ BothWait s := by
  intro hboth
  have hfull := h.full (hboth producer)
  have hempty := h.empty (hboth consumer)
  have hhead := hq.head_lt
  omega

/-- No wakeup is lost on a covered run, and every step that is not covered loses one. -/
theorem no_lost_wakeup {size : Nat} (hsize : 0 < size) (hint : (size : Int) ≤ intMax)
    {s : State Role} (h : CoveredRuns (initial Role size) s) :
    ¬ LostWakeup s ∧ ¬ BothWait s ∧
      ∀ (i : Role) s', i.Takes s s' → (¬ LostWakeup s' ∧ ¬ BothWait s' ↔ i.Covered s) := by
  obtain ⟨hinv, hawake⟩ := good_run hsize hint h
  refine ⟨hawake.not_lost, hawake.not_both hinv.queue, fun i s' hstep => ⟨?_, ?_⟩⟩
  · rintro ⟨hnone, _⟩
    by_contra hcovered
    exact hnone (lost_of_not_covered hint hinv hawake hstep hcovered)
  · intro hcovered
    have hawake' := awake_step hint hinv hawake hstep hcovered
    exact ⟨hawake'.not_lost, hawake'.not_both (inv_step hint hinv hstep).queue⟩

/-- The reader waits on the empty queue, is told of the two letters, and takes the
first. -/
theorem no_lost_wakeup_two_letters : ∃ s₁ s : State Role,
    (s₁.thread consumer).Waits ∧ CoveredRuns s₁ s ∧ s.taken = [65, 66] ∧ s.returned = [65] ∧
      s.thread consumer = .outside ∧ ¬ LostWakeup s ∧ ¬ BothWait s ∧
      ∀ (i : Role) s', i.Takes s s' → (¬ LostWakeup s' ∧ ¬ BothWait s' ↔ i.Covered s) := by
  have hsound : BlockWriter.Sound 2 (ByteQueue.create 2) :=
    ⟨valid_create (by decide), rfl, by decide⟩
  have hempty := read_empty (q := ByteQueue.create 2) oneByte.fits oneByte.isInt Nat.one_pos rfl
  obtain ⟨q₁, n, hn, hwrite, hsound₁, hcontents₁⟩ := hsound.runWrite_ok
    (f := ⟨twoLetters, 0, 2, true⟩) (by decide)
  obtain rfl : n = 2 := hn
  replace hcontents₁ : q₁.contents = [65, 66] := hcontents₁
  have hstored₁ : 1 ≤ q₁.mStoredBytes := by
    rw [← hsound₁.length_contents, hcontents₁]
    decide
  obtain ⟨q₂, hread, -⟩ := read_ok hsound₁.toValid oneByte.fits oneByte.isInt Nat.one_pos
    (Nat.lt_of_lt_of_le Nat.one_pos hstored₁)
  rw [Nat.min_eq_left (show oneByte.length ≤ q₁.mStoredBytes from hstored₁), hcontents₁] at hread
  -- the reader comes first, and waits
  let s₁ : State Role := { initial Role 2 with
    thread := Function.update (initial Role 2).thread consumer (.entersRead oneByte) }
  let s₂ : State Role := { s₁ with
    thread := Function.update s₁.thread consumer (.inRead oneByte true) }
  have hcallRead : consumer.Takes (initial Role 2) s₁ := .callRead rfl rfl
  have hwait : consumer.Takes s₁ s₂ := .readWaits (.enter oneByte) hempty
  -- the writer begins on the empty queue, and its notification reaches the reader
  let s₃ : State Role := { s₂ with
    thread := Function.update s₂.thread producer (.entersWrite twoLetters) }
  let s₄ : State Role :=
    ⟨q₁, Function.update (Function.update s₃.thread producer .outside) consumer
      (.inRead oneByte false), [] ++ [65, 66], []⟩
  have hcallWrite : producer.Takes s₂ s₃ := .callWrite rfl rfl
  have hwrites : Writes s₃.queue (s₃.thread producer) ⟨twoLetters, 0, 2, true⟩
      (s₃.queue.write twoLetters) := .enter twoLetters
  have hput : producer.Takes s₃ s₄ :=
    .write hwrites ((write_ok twoLetters).trans hwrite) (.wakes (i := consumer) rfl)
  have htake : consumer.Takes s₄ _ :=
    .read (.resume oneByte) hread (.of_nobody (t := Function.update s₄.thread consumer .outside)
      (fun i => by cases i <;> exact id) _)
  have hreader (s : State Role) : Covered consumer s := fun h => by cases h
  have hbegins : Covered producer s₂ := fun _ _ f r h => by cases h
  have hfits : Covered producer s₃ := by
    intro _ _ f r h _
    obtain ⟨rfl, -⟩ := hwrites.unique h
    exact ⟨rfl, by decide⟩
  have hwaiting : CoveredRuns (initial Role 2) s₂ :=
    (ReflTransGen.single ⟨_, hreader _, hcallRead⟩).tail ⟨_, hreader _, hwait⟩
  have htold : CoveredRuns s₂ _ :=
    ((ReflTransGen.single ⟨_, hbegins, hcallWrite⟩).tail ⟨_, hfits, hput⟩).tail
      ⟨_, hreader _, htake⟩
  exact ⟨s₂, _, rfl, htold, rfl, rfl, rfl,
    no_lost_wakeup (by decide) (by decide) (hwaiting.trans htold)⟩

/-! ## §4  A wakeup that is lost -/

def sides (p c : QueueThread) : Role → QueueThread
  | producer => p
  | consumer => c

theorem update_producer (p c x : QueueThread) :
    Function.update (sides p c) producer x = sides x c := by
  funext i
  cases i <;> rfl

theorem update_consumer (p c x : QueueThread) :
    Function.update (sides p c) consumer x = sides p x := by
  funext i
  cases i <;> rfl

/-- Some run leads to the queue `q` with the two sides at `p` and `c`. -/
def Reached (size : Nat) (q : ByteQueue) (p c : QueueThread) : Prop :=
  ∃ taken returned, Runs (· = producer) (· = consumer) (initial Role size)
    ⟨q, sides p c, taken, returned⟩

variable {size : Nat} {q q' : ByteQueue} {p c : QueueThread}

theorem reached_initial (size : Nat) : Reached size (ByteQueue.create size) .outside .outside := by
  refine ⟨[], [], ?_⟩
  have hthreads : sides .outside .outside = (initial Role size).thread := by
    funext i
    cases i <;> rfl
  rw [hthreads]
  exact .refl

theorem Reached.callWrite (h : Reached size q .outside c) (w : WriteCall) :
    Reached size q (.entersWrite w) c := by
  obtain ⟨taken, returned, hrun⟩ := h
  have hstep : producer.Takes ⟨q, sides .outside c, taken, returned⟩
      ⟨q, Function.update (sides .outside c) producer (.entersWrite w), taken, returned⟩ :=
    .callWrite rfl rfl
  rw [update_producer] at hstep
  exact ⟨taken, returned, hrun.tail ⟨producer, hstep⟩⟩

theorem Reached.callRead (h : Reached size q p .outside) (r : ReadCall) :
    Reached size q p (.entersRead r) := by
  obtain ⟨taken, returned, hrun⟩ := h
  have hstep : consumer.Takes ⟨q, sides p .outside, taken, returned⟩
      ⟨q, Function.update (sides p .outside) consumer (.entersRead r), taken, returned⟩ :=
    .callRead rfl rfl
  rw [update_consumer] at hstep
  exact ⟨taken, returned, hrun.tail ⟨consumer, hstep⟩⟩

/-- A section of the writer that tells nobody. -/
theorem Reached.write (h : Reached size q p c) {f : WriteFrame}
    {r : Except Exn (ByteQueue × WriteOutcome)} {o : WriteOutcome} (hwrites : Writes q p f r)
    (hr : r = .ok (q', o)) (hquiet : o.notifies = false ∨ ¬ c.Waits) :
    Reached size q' (leaveWrite o) c := by
  obtain ⟨taken, returned, hrun⟩ := h
  have hnotify : Notify QueueThread.Waits QueueThread.wake
      (Function.update (sides p c) producer (leaveWrite o)) o.notifies
      (sides (leaveWrite o) c) := by
    rw [update_producer]
    cases o with
    | waits f => exact .silent
    | returned b =>
        rcases hquiet with hfalse | hreader
        · rw [hfalse]
          exact .silent
        · refine .of_nobody (fun i => ?_) _
          cases i with
          | producer => exact id
          | consumer => exact hreader
  exact ⟨_, returned, hrun.tail ⟨producer, .write hwrites hr hnotify⟩⟩

theorem Reached.readWaits (h : Reached size q p c) {r : ReadCall} (hreads : Reads c r)
    (hread : q.read r.buffer r.offset r.length = .ok (q, .waits)) :
    Reached size q p (.inRead r true) := by
  obtain ⟨taken, returned, hrun⟩ := h
  have hstep : consumer.Takes ⟨q, sides p c, taken, returned⟩
      ⟨q, Function.update (sides p c) consumer (.inRead r true), taken, returned⟩ :=
    .readWaits hreads hread
  rw [update_consumer] at hstep
  exact ⟨taken, returned, hrun.tail ⟨consumer, hstep⟩⟩

/-- A read that tells the waiting writer. -/
theorem Reached.readWakes (h : Reached size q p c) {r : ReadCall} {buffer : List JByte}
    {n : Nat} (hreads : Reads c r)
    (hread : q.read r.buffer r.offset r.length = .ok (q', .returned buffer n true))
    (hwaits : p.Waits) : Reached size q' p.wake .outside := by
  obtain ⟨taken, returned, hrun⟩ := h
  have hnotify : Notify QueueThread.Waits QueueThread.wake (sides p .outside) true
      (Function.update (sides p .outside) producer p.wake) := .wakes (i := producer) hwaits
  rw [update_producer, ← update_consumer p c] at hnotify
  exact ⟨taken, _, hrun.tail ⟨consumer, .read hreads hread hnotify⟩⟩

/-- `n` bytes to write, and room for them to be read into. -/
def letters (n : Nat) (h : n ≤ 2) : WriteCall where
  data := List.replicate n 65
  offset := 0
  count := n
  fits := by rw [List.length_replicate, Nat.zero_add]
  isInt := by
    unfold intMax
    rw [List.length_replicate]
    omega

theorem fits_twoBytes : 0 + 2 ≤ ([0, 0] : List JByte).length := Nat.le_refl _

theorem isInt_twoBytes : (([0, 0] : List JByte).length : Int) ≤ intMax := by decide

def twoBytes : ReadCall := ⟨[0, 0], 0, 2, fits_twoBytes, isInt_twoBytes⟩

/-- The writer finds the queue of one byte full after its first byte. -/
theorem both_wait : ∃ s, Runs (· = producer) (· = consumer) (initial Role 1) s ∧ BothWait s := by
  have hsound : BlockWriter.Sound 1 (ByteQueue.create 1) :=
    ⟨valid_create (by decide), rfl, by decide⟩
  obtain ⟨q, f, hwrite, _⟩ := BlockWriter.write_waits hsound rfl
    (c := letters 2 (by decide)) (by decide)
  have hread := read_empty (q := ByteQueue.create 1) twoBytes.fits twoBytes.isInt
    (by decide) rfl
  obtain ⟨taken, returned, hrun⟩ := ((((reached_initial 1).callRead twoBytes).readWaits
    (.enter _) hread).callWrite (letters 2 (by decide))).write (.enter _) hwrite (.inl rfl)
  refine ⟨_, hrun, fun i => ?_⟩
  cases i <;> rfl

/-- The writer finds a byte of an earlier call, waits for room, and does not notify. -/
theorem wakeup_lost : ∃ s, Runs (· = producer) (· = consumer) (initial Role 2) s ∧
    LostWakeup s ∧ s.thread producer = .outside := by
  have hsound : BlockWriter.Sound 2 (ByteQueue.create 2) :=
    ⟨valid_create (by decide), rfl, by decide⟩
  -- the first call stores one byte
  obtain ⟨q₁, n₁, hn₁, hrun₁, hsound₁, hcontents₁⟩ := hsound.runWrite_ok
    (f := ⟨letters 1 (by decide), 0, 1, true⟩) (by decide)
  obtain rfl : n₁ = 1 := hn₁
  have hstored₁ : q₁.mStoredBytes = 1 := by
    rw [← hsound₁.length_contents, hcontents₁]
    rfl
  have hreach₁ := ((reached_initial 2).callWrite (letters 1 (by decide))).write (.enter _)
    ((write_ok _).trans hrun₁) (.inr id)
  -- the second call fills the queue, and waits with a byte left
  obtain ⟨q₂, n₂, hn₂, hrun₂, hsound₂, hcontents₂⟩ := hsound₁.runWrite_ok
    (f := ⟨letters 2 (by decide), 0, 2, false⟩) (by decide)
  rw [hstored₁] at hn₂
  obtain rfl : n₂ = 1 := hn₂
  have hstored₂ : q₂.mStoredBytes = 2 := by
    rw [← hsound₂.length_contents, hcontents₂, List.length_append, hsound₁.length_contents,
      hstored₁]
    rfl
  have hwrite₂ := write_ok (q := q₁) (letters 2 (by decide))
  rw [hstored₁] at hwrite₂
  have hreach₂ := (hreach₁.callWrite (letters 2 (by decide))).write (.enter _)
    (hwrite₂.trans hrun₂) (.inl rfl)
  -- the reader empties the queue, tells the writer, and waits for more
  obtain ⟨q₃, hread₃, hq₃, hcap₃, hcontents₃⟩ := read_ok hsound₂.toValid twoBytes.fits
    twoBytes.isInt (by decide) (by omega)
  have hstored₃ : q₃.mStoredBytes = 0 := by
    rw [← hq₃.length_contents, hcontents₃, List.length_drop, hsound₂.length_contents, hstored₂]
    rfl
  have hfull : decide (q₂.mBuffer.length = q₂.mStoredBytes) = true :=
    decide_eq_true (hsound₂.capacity.trans hstored₂.symm)
  rw [hfull] at hread₃
  have hreach₃ := ((hreach₂.callRead twoBytes).readWakes (.enter _) hread₃ rfl).callRead twoBytes
  have hreach₄ := hreach₃.readWaits (.enter _)
    (read_empty twoBytes.fits twoBytes.isInt (by decide) hstored₃)
  -- the writer finishes the call without a notification
  have hsound₃ := hsound₂.of_capacity hq₃ hcap₃
  obtain ⟨q₅, n₅, hn₅, hrun₅, hsound₅, hcontents₅⟩ := hsound₃.runWrite_ok
    (f := ⟨letters 2 (by decide), 1, 1, false⟩) (by decide)
  rw [hstored₃] at hn₅
  obtain rfl : n₅ = 1 := hn₅
  have hstored₅ : q₅.mStoredBytes = 1 := by
    rw [← hsound₅.length_contents, hcontents₅, List.length_append, hsound₃.length_contents,
      hstored₃]
    rfl
  obtain ⟨taken, returned, hrun⟩ := hreach₄.write (.resume _) hrun₅ (.inl rfl)
  exact ⟨_, hrun, .inl ⟨rfl, Nat.lt_of_lt_of_eq Nat.one_pos hstored₅.symm, id⟩, rfl⟩

end Role

end Kbox.Util.QueueThreads
