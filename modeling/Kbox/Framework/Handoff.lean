import Kbox.Framework.Runs
import Mathlib.Tactic.Common

/-!
# Handing blocks over through a bounded buffer

A producer puts blocks of elements into a buffer of capacity `cap` and posts one
wake-up message after each block.  A consumer sleeps until there is a message,
samples how much is stored, takes that much and delivers it.  The producer
waits inside a block while the buffer is full, and is woken by a take from a
full buffer.

The two waits are of different kinds: the producer waits for room, the consumer
for a message that is only posted once the whole block is in.  `Inv` relates
them: while no message is pending, all that a sleeping consumer has left in the
buffer was put there by the block still under way.
-/

namespace Kbox.Framework.Handoff

open Relation (ReflTransGen)

/-- `fresh` counts the elements of the current block that are already in. -/
inductive Producer (α : Type) where
  | ready
  | putting (fresh : Nat) (rest : List α) (waiting : Bool)
  | posting (fresh : Nat)

inductive Consumer (α : Type) where
  /-- Not yet listening: messages are not even queued. -/
  | starting
  | idle
  | woken
  | sampled (k : Nat)
  | carrying (xs : List α)

structure State (α : Type) where
  /-- The blocks to come. -/
  script : List (List α)
  /-- The elements of the blocks begun so far. -/
  begun : List α
  producer : Producer α
  content : List α
  pending : Nat
  consumer : Consumer α
  delivered : List α

variable {α : Type}

/-- A notification, if the producer waits for one. -/
def Producer.awake : Producer α → Producer α
  | .putting fresh rest _ => .putting fresh rest false
  | p => p

/-- Put as much of the block as there is room for. -/
def State.put (cap : Nat) (s : State α) (fresh : Nat) (rest : List α) : State α :=
  let room := cap - s.content.length
  { s with
    content := s.content ++ rest.take room
    producer :=
      if rest.length ≤ room then .posting (fresh + rest.length)
      else .putting (fresh + room) (rest.drop room) true }

inductive Step (cap : Nat) (s : State α) : State α → Prop where
  | begin {block : List α} {script : List (List α)} :
      s.producer = .ready → s.script = block :: script →
      Step cap s { s with
        script := script, begun := s.begun ++ block, producer := .putting 0 block false }
  | put {fresh : Nat} {rest : List α} :
      s.producer = .putting fresh rest false → Step cap s (s.put cap fresh rest)
  | spurious : Step cap s { s with producer := s.producer.awake }
  | post {fresh : Nat} :
      s.producer = .posting fresh →
      Step cap s { s with producer := .ready, pending := s.pending + 1 }
  | postUnheard {fresh : Nat} :
      s.producer = .posting fresh → s.consumer = .starting →
      Step cap s { s with producer := .ready }
  | stray : Step cap s { s with pending := s.pending + 1 }
  | start :
      s.consumer = .starting → Step cap s { s with consumer := .woken }
  | receive {n : Nat} :
      s.consumer = .idle → s.pending = n + 1 →
      Step cap s { s with consumer := .woken, pending := n }
  | sample :
      s.consumer = .woken →
      Step cap s { s with consumer := .sampled s.content.length }
  | sampleNothing :
      s.consumer = .woken → s.content = [] → Step cap s { s with consumer := .idle }
  | take {k : Nat} :
      s.consumer = .sampled k →
      Step cap s { s with
        content := s.content.drop k
        consumer := .carrying (s.content.take k)
        producer := if s.content.length = cap then s.producer.awake else s.producer }
  | takeNothing :
      s.consumer = .sampled 0 → Step cap s { s with consumer := .carrying [] }
  | deliver {xs : List α} :
      s.consumer = .carrying xs →
      Step cap s { s with consumer := .idle, delivered := s.delivered ++ xs }

/-! ## §1  The invariant -/

/-- How much of the buffer may come from the block under way. -/
def Producer.fresh : Producer α → Nat
  | .ready => 0
  | .putting fresh _ _ => fresh
  | .posting fresh => fresh

/-- The elements of the block under way that are not in yet. -/
def Producer.rest : Producer α → List α
  | .putting _ rest _ => rest
  | _ => []

/-- How much of the buffer the consumer is about to take. -/
def Consumer.claimed : Consumer α → Nat
  | .sampled k => k
  | _ => 0

def Consumer.carried : Consumer α → List α
  | .carrying xs => xs
  | _ => []

/-- The consumer will not look at the buffer again without a message. -/
def Consumer.Settled : Consumer α → Prop
  | .starting => False
  | .woken => False
  | _ => True

structure Inv (cap : Nat) (s : State α) : Prop where
  content_le : s.content.length ≤ cap
  claimed_le : s.consumer.claimed ≤ s.content.length
  /-- No message is owed for what is left in the buffer. -/
  owed : s.pending = 0 → s.consumer.Settled →
    s.content.length ≤ s.producer.fresh + s.consumer.claimed
  /-- A waiting producer waits for room. -/
  full_of_waiting : ∀ fresh rest, s.producer = .putting fresh rest true →
    s.content.length = cap
  /-- Nothing is lost, duplicated or reordered. -/
  conserved : s.delivered ++ s.consumer.carried ++ s.content ++ s.producer.rest = s.begun

@[simp] theorem fresh_awake (p : Producer α) : p.awake.fresh = p.fresh := by
  cases p <;> rfl

@[simp] theorem rest_awake (p : Producer α) : p.awake.rest = p.rest := by
  cases p <;> rfl

theorem awake_ne_waiting (p : Producer α) (fresh : Nat) (rest : List α) :
    p.awake ≠ .putting fresh rest true := by
  cases p <;> simp [Producer.awake]

theorem inv_put {cap fresh : Nat} {rest : List α} {s : State α} (hi : Inv cap s)
    (hp : s.producer = .putting fresh rest false) : Inv cap (s.put cap fresh rest) := by
  have hcontent := hi.content_le
  have howed := hi.owed
  have hcons := hi.conserved
  simp only [hp, Producer.fresh, Producer.rest] at howed hcons
  by_cases hroom : rest.length ≤ cap - s.content.length
  · simp only [State.put, if_pos hroom, List.take_of_length_le hroom]
    refine ⟨?_, ?_, ?_, ?_, ?_⟩
    · simp only [List.length_append]
      omega
    · have := hi.claimed_le
      simp only [List.length_append]
      omega
    · intro hpending hsettled
      have := howed hpending hsettled
      simp only [List.length_append, Producer.fresh]
      omega
    · intro _ _ heq
      cases heq
    · simpa only [Producer.rest, List.append_nil, List.append_assoc] using hcons
  · simp only [State.put, if_neg hroom]
    have htake : (rest.take (cap - s.content.length)).length = cap - s.content.length := by
      rw [List.length_take]
      omega
    refine ⟨?_, ?_, ?_, ?_, ?_⟩
    · simp only [List.length_append, htake]
      omega
    · have := hi.claimed_le
      simp only [List.length_append]
      omega
    · intro hpending hsettled
      have := howed hpending hsettled
      simp only [List.length_append, htake, Producer.fresh]
      omega
    · intro _ _ _
      simp only [List.length_append, htake]
      omega
    · simpa only [Producer.rest, List.append_assoc, List.take_append_drop] using hcons

theorem inv_take {cap k : Nat} {s : State α} (hi : Inv cap s)
    (hc : s.consumer = .sampled k) :
    Inv cap { s with
      content := s.content.drop k
      consumer := .carrying (s.content.take k)
      producer := if s.content.length = cap then s.producer.awake else s.producer } := by
  have hcontent := hi.content_le
  have hclaimed := hi.claimed_le
  have howed := hi.owed
  have hcons := hi.conserved
  simp only [hc, Consumer.claimed, Consumer.carried, Consumer.Settled, true_implies]
    at hclaimed howed hcons
  have hfresh : (if s.content.length = cap then s.producer.awake else s.producer).fresh =
      s.producer.fresh := by
    split
    · exact fresh_awake _
    · rfl
  have hrest : (if s.content.length = cap then s.producer.awake else s.producer).rest =
      s.producer.rest := by
    split
    · exact rest_awake _
    · rfl
  refine ⟨?_, ?_, ?_, ?_, ?_⟩
  · simp only [List.length_drop]
    omega
  · exact Nat.zero_le _
  · intro hpending _
    have := howed hpending
    simp only [List.length_drop, hfresh, Consumer.claimed]
    omega
  · intro fresh rest heq
    -- it would have been woken, or was not waiting to begin with
    by_cases hfull : s.content.length = cap
    · simp only [if_pos hfull] at heq
      exact absurd heq (awake_ne_waiting _ _ _)
    · simp only [if_neg hfull] at heq
      exact absurd (hi.full_of_waiting _ _ heq) hfull
  · simpa only [hrest, Consumer.carried, List.append_nil, List.append_assoc,
      List.take_append_drop, List.nil_append, List.append_cancel_left_eq,
      ← List.append_assoc (s.content.take k)] using hcons

theorem inv_step {cap : Nat} {s s' : State α} (hi : Inv cap s) (h : Step cap s s') :
    Inv cap s' := by
  have hcontent := hi.content_le
  have hclaimed := hi.claimed_le
  have howed := hi.owed
  have hcons := hi.conserved
  cases h with
  | begin hp hs =>
      simp only [hp, Producer.fresh, Producer.rest, List.append_nil] at howed hcons
      refine ⟨hcontent, hclaimed, howed, ?_, ?_⟩
      · intro _ _ heq
        cases heq
      · simp only [Producer.rest, hcons]
  | put hp => exact inv_put hi hp
  | spurious =>
      refine ⟨hcontent, hclaimed, ?_, ?_, ?_⟩
      · simpa only [fresh_awake] using howed
      · intro _ _ heq
        exact absurd heq (awake_ne_waiting _ _ _)
      · simpa only [rest_awake] using hcons
  | post hp =>
      simp only [hp, Producer.rest] at hcons
      refine ⟨hcontent, hclaimed, ?_, ?_, hcons⟩
      · intro hzero
        exact absurd hzero (Nat.succ_ne_zero _)
      · intro _ _ heq
        cases heq
  | postUnheard hp hstart =>
      simp only [hp, Producer.rest] at hcons
      refine ⟨hcontent, hclaimed, ?_, ?_, hcons⟩
      · intro _ hsettled
        simp only [hstart, Consumer.Settled] at hsettled
      · intro _ _ heq
        cases heq
  | stray =>
      refine ⟨hcontent, hclaimed, ?_, hi.full_of_waiting, hcons⟩
      intro hzero
      exact absurd hzero (Nat.succ_ne_zero _)
  | start hc =>
      simp only [hc, Consumer.carried] at hcons
      exact ⟨hcontent, Nat.zero_le _, fun _ h => h.elim, hi.full_of_waiting, hcons⟩
  | receive hc _ =>
      simp only [hc, Consumer.carried] at hcons
      exact ⟨hcontent, Nat.zero_le _, fun _ h => h.elim, hi.full_of_waiting, hcons⟩
  | sample hc =>
      simp only [hc, Consumer.carried] at hcons
      refine ⟨hcontent, Nat.le_refl _, ?_, hi.full_of_waiting, hcons⟩
      intro _ _
      simp only [Consumer.claimed]
      omega
  | sampleNothing hc hnil =>
      simp only [hc, Consumer.carried] at hcons
      refine ⟨hcontent, Nat.zero_le _, ?_, hi.full_of_waiting, hcons⟩
      intro _ _
      simp only [hnil, List.length_nil, Nat.zero_le]
  | take hc => exact inv_take hi hc
  | takeNothing hc =>
      simp only [hc, Consumer.carried, Consumer.claimed, Consumer.Settled] at hcons howed
      exact ⟨hcontent, Nat.zero_le _, howed, hi.full_of_waiting, hcons⟩
  | deliver hc =>
      simp only [hc, Consumer.carried, Consumer.claimed, Consumer.Settled] at hcons howed
      refine ⟨hcontent, Nat.zero_le _, howed, hi.full_of_waiting, ?_⟩
      simpa only [Consumer.carried, List.append_nil] using hcons

/-- Nothing put yet. -/
def initial (script : List (List α)) (consumer : Consumer α) : State α where
  script := script
  begun := []
  producer := .ready
  content := []
  pending := 0
  consumer := consumer
  delivered := []

theorem inv_initial {cap : Nat} (script : List (List α)) {consumer : Consumer α}
    (hclaimed : consumer.claimed = 0) (hcarried : consumer.carried = []) :
    Inv cap (initial script consumer) := by
  refine ⟨Nat.zero_le _, ?_, fun _ _ => Nat.zero_le _, ?_, ?_⟩
  · simp only [initial, hclaimed, Nat.zero_le]
  · intro _ _ heq
    cases heq
  · simp only [initial, hcarried, Producer.rest, List.append_nil]

/-! ## §2  Consequences -/

/-- What is delivered is, in order, a prefix of what the producer was given. -/
theorem Inv.delivered_isPrefix {cap : Nat} {s : State α} (hi : Inv cap s) :
    s.delivered <+: s.begun := by
  refine ⟨s.consumer.carried ++ s.content ++ s.producer.rest, ?_⟩
  simpa only [List.append_assoc] using hi.conserved

/-- Between blocks, a sleeping consumer without messages has taken everything. -/
theorem Inv.nothing_stranded {cap : Nat} {s : State α} (hi : Inv cap s)
    (hpending : s.pending = 0) (hidle : s.consumer = .idle) (hready : s.producer = .ready) :
    s.content = [] := by
  have howed := hi.owed hpending
  simp only [hidle, hready, Producer.fresh, Consumer.claimed, Consumer.Settled,
    true_implies] at howed
  exact List.eq_nil_of_length_eq_zero (by omega)

/-- The producer waits for room and the consumer for a message, and neither comes. -/
def Deadlocked (cap : Nat) (s : State α) : Prop :=
  (∃ fresh rest waiting, s.producer = .putting fresh rest waiting ∧ rest ≠ []) ∧
    s.content.length = cap ∧ s.consumer = .idle ∧ s.pending = 0

/-- No block, begun or to come, is larger than the buffer. -/
structure Sized (cap : Nat) (s : State α) : Prop where
  script : ∀ block ∈ s.script, block.length ≤ cap
  current : s.producer.fresh + s.producer.rest.length ≤ cap

theorem sized_step {cap : Nat} {s s' : State α} (hs : Sized cap s) (h : Step cap s s') :
    Sized cap s' := by
  have hscript := hs.script
  have hcurrent := hs.current
  cases h with
  | begin hp hb =>
      rw [hb] at hscript
      refine ⟨fun block hmem => hscript block (List.mem_cons_of_mem _ hmem), ?_⟩
      simpa only [Producer.fresh, Producer.rest, Nat.zero_add] using
        hscript _ (List.mem_cons_self ..)
  | @put fresh rest hp =>
      simp only [hp, Producer.fresh, Producer.rest] at hcurrent
      refine ⟨hscript, ?_⟩
      unfold State.put
      by_cases hroom : rest.length ≤ cap - s.content.length
      · simp only [if_pos hroom, Producer.fresh, Producer.rest, List.length_nil]
        omega
      · simp only [if_neg hroom, Producer.fresh, Producer.rest, List.length_drop]
        omega
  | spurious => exact ⟨hscript, by simpa only [fresh_awake, rest_awake] using hcurrent⟩
  | post _ => exact ⟨hscript, Nat.zero_le _⟩
  | postUnheard _ _ => exact ⟨hscript, Nat.zero_le _⟩
  | take _ =>
      refine ⟨hscript, ?_⟩
      simp only
      split
      · simpa only [fresh_awake, rest_awake] using hcurrent
      · exact hcurrent
  | stray | start | receive | sample | sampleNothing | takeNothing | deliver =>
      exact ⟨hscript, hcurrent⟩

/-- A full buffer holds more than what the block under way has put. -/
theorem Inv.not_deadlocked {cap : Nat} {s : State α} (hi : Inv cap s)
    (hs : Sized cap s) : ¬ Deadlocked cap s := by
  rintro ⟨⟨fresh, rest, waiting, hp, hrest⟩, hfull, hidle, hpending⟩
  have howed := hi.owed hpending
  have hcurrent := hs.current
  have hpos : 0 < rest.length := List.length_pos_iff.mpr hrest
  simp only [hidle, hp, Producer.fresh, Producer.rest, Consumer.claimed, Consumer.Settled,
    true_implies] at howed hcurrent
  omega

end Kbox.Framework.Handoff
