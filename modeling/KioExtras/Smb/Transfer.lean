import KioExtras.Lib.Run
import Mathlib.Data.Int.Notation
import Mathlib.Logic.Function.Basic

/-!
The segments and the ring buffer that the reader thread and the writing thread of a transfer
share.

Each section under the mutex and each wait on the condition variable is one step. A waiting
thread moves again only when the other one has called `notify_all` or when it wakes up for no
reason; it then looks at its loop condition again. The producer is the loop of the reader
thread, the consumer is the loop that writes: it pops, uses the segment and frees it, and may
give up by setting `isErr`, calling `unpop` once and leaving.
-/

namespace KioExtras.Smb.Transfer

open KioExtras.Lib.Run

/-! ### Segments -/

def c_minSegmentSize : ℤ := 64 * 1024
def c_maxSegmentSize : ℤ := 4 * 1024 * 1024

def segmentSizeForFileSize (fileSize_ : ℤ) : ℤ :=
  let fileSize := max 0 fileSize_
  let idealSegmentSize := min (fileSize / 50) c_maxSegmentSize
  let segmentSize := max c_minSegmentSize idealSegmentSize
  if fileSize ≠ 0 then min segmentSize fileSize else segmentSize

lemma segmentSize_pos (fileSize_ : ℤ) : 0 < segmentSizeForFileSize fileSize_ := by
  simp only [segmentSizeForFileSize, c_minSegmentSize, c_maxSegmentSize]
  split_ifs <;> omega

example : segmentSizeForFileSize (64 * 1024 * 1024) = 1342177 := by decide

/-! ### The ring buffer and its two threads -/

def m_capacity : ℕ := 4

/-- Where the pushing thread is. `last` says that the segment it pushes is its last one, after
which it calls `done()`. -/
inductive Producer
  | top
  | poll
  | nextFree
  | fill (slot : ℕ)
  | push (last : Bool)
  | pushWait (last : Bool)
  | done
  | finished
  deriving DecidableEq

/-- Where the popping thread is. `null` says that it left because `pop()` returned null. -/
inductive Consumer
  | pop
  | popWait
  | use (slot : ℕ)
  | used (slot : ℕ)
  | failed (slot : ℕ)
  | finished (null : Bool)
  deriving DecidableEq

/-- The ring buffer, the flag `isErr` and the two threads. `pushed` and `used` record what
went through, in order. -/
structure Ring (α : Type*) where
  m_done : Bool
  m_buffer : ℕ → α
  head : ℕ
  tail : ℕ
  isErr : Bool
  producer : Producer
  consumer : Consumer
  pushed : List α
  used : List α

variable {α : Type*}

def init (a : α) : Ring α :=
  ⟨false, fun _ => a, 0, 0, false, .top, .pop, [], []⟩

/-- `m_cond.notify_all()`: whoever waits goes back to its loop condition. -/
def notify_all (r : Ring α) : Ring α :=
  { r with
    producer := match r.producer with
      | .pushWait last => .push last
      | p => p
    consumer := match r.consumer with
      | .popWait => .pop
      | c => c }

/-- `while (!isErr)`. -/
def check (r : Ring α) : Option (Ring α) :=
  match r.producer with
  | .top => some { r with producer := if r.isErr then .finished else .poll }
  | _ => none

/-- The producer has decided to leave its loop (`go = false`) or to read another segment. -/
def poll (go : Bool) (r : Ring α) : Option (Ring α) :=
  match r.producer with
  | .poll => some { r with producer := if go then .nextFree else .done }
  | _ => none

def nextFree (r : Ring α) : Option (Ring α) :=
  match r.producer with
  | .nextFree => some { notify_all r with producer := .fill r.head }
  | _ => none

/-- The producer writes the slot it got from `nextFree()`. -/
def fill (a : α) (last : Bool) (r : Ring α) : Option (Ring α) :=
  match r.producer with
  | .fill slot => some { r with
      m_buffer := Function.update r.m_buffer slot a
      producer := .push last }
  | _ => none

def push (r : Ring α) : Option (Ring α) :=
  match r.producer with
  | .push last =>
    if (r.head + 1) % m_capacity = r.tail then some { r with producer := .pushWait last }
    else some { notify_all r with
      head := (r.head + 1) % m_capacity
      producer := if last then .done else .top
      pushed := r.pushed ++ [r.m_buffer r.head] }
  | _ => none

def done (r : Ring α) : Option (Ring α) :=
  match r.producer with
  | .done => some { notify_all r with m_done := true, producer := .finished }
  | _ => none

def pop (r : Ring α) : Option (Ring α) :=
  match r.consumer with
  | .pop =>
    if r.head = r.tail then
      if r.m_done then some { r with consumer := .finished true }
      else some { r with consumer := .popWait }
    else some { notify_all r with consumer := .use r.tail }
  | _ => none

/-- The consumer reads the slot it got from `pop()`. -/
def use (r : Ring α) : Option (Ring α) :=
  match r.consumer with
  | .use slot => some { r with consumer := .used slot, used := r.used ++ [r.m_buffer slot] }
  | _ => none

/-- The consumer gives up. -/
def setErr (r : Ring α) : Option (Ring α) :=
  match r.consumer with
  | .used slot => some { r with isErr := true, consumer := .failed slot }
  | _ => none

def unpop (r : Ring α) : Option (Ring α) :=
  match r.consumer with
  | .used _ => some { notify_all r with tail := (r.tail + 1) % m_capacity, consumer := .pop }
  | .failed _ => some { notify_all r with
      tail := (r.tail + 1) % m_capacity
      consumer := .finished false }
  | _ => none

/-- The producer wakes up although nobody called `notify_all`. -/
def wakeProducer (r : Ring α) : Option (Ring α) :=
  match r.producer with
  | .pushWait last => some { r with producer := .push last }
  | _ => none

def wakeConsumer (r : Ring α) : Option (Ring α) :=
  match r.consumer with
  | .popWait => some { r with consumer := .pop }
  | _ => none

/-- What happens next: a move of one thread, with the choice it makes. -/
inductive Label (α : Type*)
  | check
  | poll (go : Bool)
  | nextFree
  | fill (a : α) (last : Bool)
  | push
  | done
  | pop
  | use
  | setErr
  | unpop
  | wakeProducer
  | wakeConsumer

def step (r : Ring α) : Label α → Option (Ring α)
  | .check => check r
  | .poll go => poll go r
  | .nextFree => nextFree r
  | .fill a last => fill a last r
  | .push => push r
  | .done => done r
  | .pop => pop r
  | .use => use r
  | .setErr => setErr r
  | .unpop => unpop r
  | .wakeProducer => wakeProducer r
  | .wakeConsumer => wakeConsumer r

/-! ### Observers -/

def Producer.slot : Producer → Option ℕ
  | .fill slot => some slot
  | _ => none

/-- The slot returned by `pop()` and not yet given back. -/
def Consumer.slot : Consumer → Option ℕ
  | .use slot | .used slot | .failed slot => some slot
  | _ => none

def Producer.Blocked (p : Producer) : Prop := ∃ last, p = .pushWait last

def Consumer.Finished (c : Consumer) : Prop := ∃ null, c = .finished null

/-- How many segments have been given back with `unpop()`. -/
def freed (r : Ring α) : ℕ :=
  match r.consumer with
  | .used _ | .failed _ => r.used.length - 1
  | _ => r.used.length

/-- The places of the producer at which it may still push although `isErr` was set. -/
def Producer.late : Producer → Bool
  | .poll | .nextFree | .fill _ | .push _ | .pushWait _ => true
  | .top | .done | .finished => false

/-- **The invariant.** The segments between `freed` and the end of `pushed` sit in the ring
between `tail` and `head`, at most three of them. -/
structure Inv (r : Ring α) : Prop where
  freed_le : freed r ≤ r.pushed.length
  room : r.pushed.length < freed r + m_capacity
  head : r.head = r.pushed.length % m_capacity
  tail : r.tail = freed r % m_capacity
  slots : ∀ k, freed r ≤ k → k < r.pushed.length →
    r.pushed[k]? = some (r.m_buffer (k % m_capacity))
  used : r.used <+: r.pushed
  held : ∀ i, r.consumer.slot = some i → i = r.tail ∧ freed r < r.pushed.length
  some_used : (∃ i, r.consumer = .used i ∨ r.consumer = .failed i) → 0 < r.used.length
  writing : ∀ i, r.producer.slot = some i → i = r.head
  full : r.producer.Blocked → (r.head + 1) % m_capacity = r.tail
  empty : r.consumer = .popWait → r.head = r.tail ∧ r.m_done = false ∧ r.isErr = false
  m_done : r.m_done = true → r.producer = .finished
  ended : r.producer = .finished → r.m_done = true ∨ r.isErr = true
  isErr : r.isErr = true ↔ (∃ i, r.consumer = .failed i) ∨ r.consumer = .finished false
  null : r.consumer = .finished true → r.m_done = true ∧ r.head = r.tail
  early : r.consumer = .finished false → r.producer.late = true →
    r.pushed.length ≤ freed r + 2

lemma init_inv (a : α) : Inv (init a) := by
  refine ⟨?_, ?_, ?_, ?_, ?_, ?_, ?_, ?_, ?_, ?_, ?_, ?_, ?_, ?_, ?_, ?_⟩ <;>
    simp [init, freed, m_capacity, Consumer.slot, Producer.slot, Producer.Blocked]

section moves

variable {r : Ring α}

lemma Inv.producer_move (h : Inv r) {p : Producer} (writing : ∀ i, p.slot = some i → i = r.head)
    (full : p.Blocked → (r.head + 1) % m_capacity = r.tail)
    (m_done : r.m_done = true → p = .finished)
    (ended : p = .finished → r.m_done = true ∨ r.isErr = true)
    (early : r.consumer = .finished false → p.late = true → r.pushed.length ≤ freed r + 2) :
    Inv { r with producer := p } :=
  ⟨h.freed_le, h.room, h.head, h.tail, h.slots, h.used, h.held, h.some_used, writing, full,
    h.empty, m_done, ended, h.isErr, h.null, early⟩

lemma Inv.consumer_move (h : Inv r) {c : Consumer}
    (hfreed : freed { r with consumer := c } = freed r)
    (held : ∀ i, c.slot = some i → i = r.tail ∧ freed r < r.pushed.length)
    (some_used : (∃ i, c = .used i ∨ c = .failed i) → 0 < r.used.length)
    (empty : c = .popWait → r.head = r.tail ∧ r.m_done = false ∧ r.isErr = false)
    (isErr : r.isErr = true ↔ (∃ i, c = .failed i) ∨ c = .finished false)
    (null : c = .finished true → r.m_done = true ∧ r.head = r.tail)
    (early : c ≠ .finished false) :
    Inv { r with consumer := c } := by
  refine ⟨?_, ?_, h.head, ?_, ?_, h.used, ?_, some_used, h.writing, h.full, empty, h.m_done,
    h.ended, isErr, null, fun hc => absurd hc early⟩
  · rw [hfreed]; exact h.freed_le
  · rw [hfreed]; exact h.room
  · rw [hfreed]; exact h.tail
  · rw [hfreed]; exact h.slots
  · rw [hfreed]; exact held

lemma freed_notify_all (r : Ring α) : freed (notify_all r) = freed r := by
  unfold freed notify_all
  cases r.consumer <;> rfl

lemma Inv.wake_producer (h : Inv r) {last : Bool} (hw : r.producer = .pushWait last) :
    Inv { r with producer := .push last } := by
  refine h.producer_move (by simp [Producer.slot]) (by simp [Producer.Blocked]) ?_ (by simp) ?_
  · intro hd
    have := h.m_done hd
    simp [hw] at this
  · intro hc _
    exact h.early hc (by simp [hw, Producer.late])

lemma Inv.wake_consumer (h : Inv r) (hw : r.consumer = .popWait) :
    Inv { r with consumer := .pop } := by
  have hIsErr := h.isErr
  simp only [hw, reduceCtorEq, exists_false, or_self, iff_false] at hIsErr
  exact h.consumer_move (by simp [freed, hw]) (by simp [Consumer.slot]) (by simp) (by simp)
    (by simpa using hIsErr) (by simp) (by simp)

lemma Inv.notify_all (h : Inv r) : Inv (notify_all r) := by
  obtain ⟨m_done, m_buffer, head, tail, isErr, producer, consumer, pushed, used⟩ := r
  cases producer with
  | pushWait last =>
    have h1 := h.wake_producer rfl
    cases consumer with
    | popWait => exact h1.wake_consumer rfl
    | _ => exact h1
  | _ =>
    cases consumer with
    | popWait => exact h.wake_consumer rfl
    | _ => exact h

end moves

/-! ### One step -/

variable {r r' : Ring α}

lemma check_inv (h : Inv r) (hs : check r = some r') : Inv r' := by
  unfold check at hs
  split at hs
  · rename_i hp
    simp only [Option.some.injEq] at hs
    subst hs
    refine h.producer_move ?_ ?_ ?_ ?_ ?_
    · split_ifs <;> simp [Producer.slot]
    · split_ifs <;> simp [Producer.Blocked]
    · intro hd
      have := h.m_done hd
      simp [hp] at this
    · split_ifs with he <;> simp [he]
    · intro hc
      have he : r.isErr = true := h.isErr.mpr (Or.inr hc)
      simp [he, Producer.late]
  · simp at hs

lemma poll_inv {go : Bool} (h : Inv r) (hs : poll go r = some r') : Inv r' := by
  unfold poll at hs
  split at hs
  · rename_i hp
    simp only [Option.some.injEq] at hs
    subst hs
    refine h.producer_move ?_ ?_ ?_ ?_ ?_
    · split_ifs <;> simp [Producer.slot]
    · split_ifs <;> simp [Producer.Blocked]
    · intro hd
      have := h.m_done hd
      simp [hp] at this
    · split_ifs <;> simp
    · intro hc _
      exact h.early hc (by simp [hp, Producer.late])
  · simp at hs

@[simp] lemma notify_all_head (r : Ring α) : (notify_all r).head = r.head := rfl
@[simp] lemma notify_all_tail (r : Ring α) : (notify_all r).tail = r.tail := rfl
@[simp] lemma notify_all_m_buffer (r : Ring α) : (notify_all r).m_buffer = r.m_buffer := rfl
@[simp] lemma notify_all_isErr (r : Ring α) : (notify_all r).isErr = r.isErr := rfl
@[simp] lemma notify_all_pushed (r : Ring α) : (notify_all r).pushed = r.pushed := rfl
@[simp] lemma notify_all_used (r : Ring α) : (notify_all r).used = r.used := rfl

lemma nextFree_inv (h : Inv r) (hs : nextFree r = some r') : Inv r' := by
  unfold nextFree at hs
  split at hs
  · rename_i hp
    simp only [Option.some.injEq] at hs
    subst hs
    have hn := h.notify_all
    refine hn.producer_move (by simp [Producer.slot]) (by simp [Producer.Blocked]) ?_ (by simp) ?_
    · intro hd
      have := h.m_done hd
      simp [hp] at this
    · intro hc _
      exact hn.early hc (by simp [notify_all, hp, Producer.late])
  · simp at hs

lemma Inv.head_free (h : Inv r) {k : ℕ} (hk : freed r ≤ k) (hlt : k < r.pushed.length) :
    k % m_capacity ≠ r.head := by
  have h1 := h.room
  have h2 := h.head
  unfold m_capacity at h1 h2 ⊢
  omega

lemma fill_inv {a : α} {last : Bool} (h : Inv r) (hs : fill a last r = some r') : Inv r' := by
  unfold fill at hs
  split at hs
  · rename_i slot hp
    simp only [Option.some.injEq] at hs
    subst hs
    have hslot : slot = r.head := h.writing slot (by simp [hp, Producer.slot])
    have hmove : Inv { r with producer := .push last } := by
      refine h.producer_move (by simp [Producer.slot]) (by simp [Producer.Blocked]) ?_ (by simp) ?_
      · intro hd
        have := h.m_done hd
        simp [hp] at this
      · intro hc _
        exact h.early hc (by simp [hp, Producer.late])
    refine { hmove with slots := ?_ }
    intro k hk hlt
    have hne := h.head_free hk hlt
    simp only [Function.update_of_ne (hslot ▸ hne)]
    exact h.slots k hk hlt
  · simp at hs

lemma notify_all_awake (r : Ring α) :
    ¬ (notify_all r).producer.Blocked ∧ (notify_all r).consumer ≠ .popWait := by
  constructor
  · rintro ⟨last, hl⟩
    revert hl
    simp only [notify_all]
    cases r.producer <;> simp
  · simp only [notify_all]
    cases r.consumer <;> simp

lemma Inv.m_done_eq (h : Inv r) (hp : r.producer ≠ .finished) : r.m_done = false := by
  by_contra hd
  exact hp (h.m_done (by simpa using hd))

lemma Inv.advance (h : Inv r) {p : Producer} (hp : p = .top ∨ p = .done)
    (hd : r.m_done = false) (hw : r.consumer ≠ .popWait)
    (hroom : (r.head + 1) % m_capacity ≠ r.tail) :
    Inv { r with
      head := (r.head + 1) % m_capacity
      producer := p
      pushed := r.pushed ++ [r.m_buffer r.head] } := by
  have hlt : r.pushed.length + 1 < freed r + m_capacity := by
    have h1 := h.room
    have h2 := h.head
    have h3 := h.tail
    unfold m_capacity at *
    omega
  have hlen : (r.pushed ++ [r.m_buffer r.head]).length = r.pushed.length + 1 := by simp
  have hle := h.freed_le
  refine ⟨?_, ?_, ?_, h.tail, ?_, ?_, ?_, h.some_used, ?_, ?_, ?_, ?_, ?_, h.isErr, ?_, ?_⟩
  · exact hlen ▸ Nat.le_succ_of_le hle
  · exact hlen ▸ hlt
  · show (r.head + 1) % m_capacity = (r.pushed ++ [r.m_buffer r.head]).length % m_capacity
    rw [hlen, h.head]
    unfold m_capacity
    omega
  · intro k hk hklt
    simp only [hlen] at hklt
    rcases Nat.lt_or_ge k r.pushed.length with hl | hl
    · rw [List.getElem?_append_left hl]
      exact h.slots k hk hl
    · have hkeq : k = r.pushed.length := by omega
      subst hkeq
      simp [h.head]
  · exact h.used.trans (List.prefix_append _ _)
  · intro i hi
    obtain ⟨h1, h2⟩ := h.held i hi
    exact ⟨h1, hlen ▸ Nat.lt_succ_of_lt h2⟩
  · rcases hp with rfl | rfl <;> simp [Producer.slot]
  · rcases hp with rfl | rfl <;> simp [Producer.Blocked]
  · exact fun hc => absurd hc hw
  · simp [hd]
  · rcases hp with rfl | rfl <;> simp
  · intro hc
    have := (h.null hc).1
    simp [hd] at this
  · rcases hp with rfl | rfl <;> simp [Producer.late]

lemma push_inv (h : Inv r) (hs : push r = some r') : Inv r' := by
  unfold push at hs
  split at hs
  · rename_i last hp
    have hd : r.m_done = false := h.m_done_eq (by simp [hp])
    by_cases hfull : (r.head + 1) % m_capacity = r.tail
    · simp only [hfull, if_true, Option.some.injEq] at hs
      subst hs
      refine h.producer_move (by simp [Producer.slot]) (fun _ => hfull) (by simp [hd]) (by simp) ?_
      intro hc _
      exact h.early hc (by simp [hp, Producer.late])
    · simp only [hfull, if_false, Option.some.injEq] at hs
      subst hs
      exact h.notify_all.advance (p := if last then .done else .top) (by cases last <;> simp) hd
        (notify_all_awake r).2 hfull
  · simp at hs

lemma done_inv (h : Inv r) (hs : done r = some r') : Inv r' := by
  unfold done at hs
  split at hs
  · rename_i hp
    simp only [Option.some.injEq] at hs
    subst hs
    have hn := h.notify_all
    refine { hn with writing := ?_, full := ?_, empty := ?_, m_done := ?_, ended := ?_, null := ?_, early := ?_ }
    · simp [Producer.slot]
    · simp [Producer.Blocked]
    · exact fun hc => absurd hc (notify_all_awake r).2
    · simp
    · simp
    · intro hc
      exact ⟨rfl, (hn.null hc).2⟩
    · simp [Producer.late]
  · simp at hs

lemma Inv.isErr_eq (h : Inv r) (hf : ∀ i, r.consumer ≠ .failed i)
    (he : r.consumer ≠ .finished false) : r.isErr = false := by
  by_contra hc
  rcases h.isErr.mp (by simpa using hc) with ⟨i, hi⟩ | hfin
  · exact hf i hi
  · exact he hfin

lemma pop_inv (h : Inv r) (hs : pop r = some r') : Inv r' := by
  unfold pop at hs
  split at hs
  · rename_i hc
    have he : r.isErr = false := h.isErr_eq (by simp [hc]) (by simp [hc])
    split_ifs at hs with heq hd
    · simp only [Option.some.injEq] at hs
      subst hs
      exact h.consumer_move (by simp [freed, hc]) (by simp [Consumer.slot]) (by simp) (by simp)
        (by simp [he]) (by simp [hd, heq]) (by simp)
    · simp only [Option.some.injEq] at hs
      subst hs
      exact h.consumer_move (by simp [freed, hc]) (by simp [Consumer.slot]) (by simp)
        (by simp [heq, hd, he]) (by simp [he]) (by simp) (by simp)
    · simp only [Option.some.injEq] at hs
      subst hs
      have hn := h.notify_all
      have hlt : freed r < r.pushed.length := by
        have h1 := h.freed_le
        have h2 := h.head
        have h3 := h.tail
        rcases Nat.lt_or_ge (freed r) r.pushed.length with hl | hl
        · exact hl
        · exact absurd (by rw [h2, h3, Nat.le_antisymm h1 hl]) heq
      refine hn.consumer_move ?_ ?_ (by simp) (by simp) (by simp [notify_all, he]) (by simp) (by simp)
      · rw [freed_notify_all]
        simp [freed, hc]
      · simp only [Consumer.slot, Option.some.injEq, notify_all_tail, freed_notify_all,
          notify_all_pushed]
        rintro i rfl
        exact ⟨rfl, hlt⟩
  · simp at hs

lemma Inv.use_eq (h : Inv r) {slot : ℕ} (hc : r.consumer = .use slot) :
    r.pushed[r.used.length]? = some (r.m_buffer slot) := by
  have hfreed : freed r = r.used.length := by simp [freed, hc]
  obtain ⟨hslot, hlt⟩ := h.held slot (by simp [hc, Consumer.slot])
  rw [hfreed] at hlt
  rw [h.slots r.used.length (Nat.le_of_eq hfreed) hlt, hslot, h.tail, hfreed]

lemma use_inv (h : Inv r) (hs : use r = some r') : Inv r' := by
  unfold use at hs
  split at hs
  · rename_i slot hc
    simp only [Option.some.injEq] at hs
    subst hs
    have he : r.isErr = false := h.isErr_eq (by simp [hc]) (by simp [hc])
    have hfreed : freed r = r.used.length := by simp [freed, hc]
    have hfreed' : freed { r with
        consumer := .used slot, used := r.used ++ [r.m_buffer slot] } = freed r := by
      simp [freed, hc]
    have hheld := h.held slot (by simp [hc, Consumer.slot])
    refine ⟨?_, ?_, h.head, ?_, ?_, ?_, ?_, ?_, h.writing, h.full, ?_, h.m_done, h.ended, ?_, ?_, ?_⟩
    · rw [hfreed']; exact h.freed_le
    · rw [hfreed']; exact h.room
    · rw [hfreed']; exact h.tail
    · rw [hfreed']; exact h.slots
    · obtain ⟨rest, hrest⟩ := h.used
      have hnext := h.use_eq hc
      rw [← hrest, List.getElem?_append_right (Nat.le_refl _), Nat.sub_self] at hnext
      cases rest with
      | nil => simp at hnext
      | cons a rest =>
        simp only [List.getElem?_cons_zero, Option.some.injEq] at hnext
        exact ⟨rest, by rw [← hnext, ← hrest]; simp⟩
    · rw [hfreed']
      simp only [Consumer.slot, Option.some.injEq]
      rintro i rfl
      exact hheld
    · simp
    · simp
    · simp [he]
    · simp
    · simp
  · simp at hs

lemma setErr_inv (h : Inv r) (hs : setErr r = some r') : Inv r' := by
  unfold setErr at hs
  split at hs
  · rename_i slot hc
    simp only [Option.some.injEq] at hs
    subst hs
    have hfreed : freed { r with isErr := true, consumer := .failed slot } = freed r := by
      simp [freed, hc]
    have hheld := h.held slot (by simp [hc, Consumer.slot])
    have hpos := h.some_used ⟨slot, Or.inl hc⟩
    refine ⟨?_, ?_, h.head, ?_, ?_, h.used, ?_, fun _ => hpos, h.writing, h.full, ?_, h.m_done, ?_, ?_, ?_, ?_⟩
    · rw [hfreed]; exact h.freed_le
    · rw [hfreed]; exact h.room
    · rw [hfreed]; exact h.tail
    · rw [hfreed]; exact h.slots
    · rw [hfreed]
      simp only [Consumer.slot, Option.some.injEq]
      rintro i rfl
      exact hheld
    · simp
    · simp
    · simp
    · simp
    · simp
  · simp at hs

lemma Inv.release (h : Inv r) {c : Consumer} (slot : ℕ)
    (hold : r.consumer = .used slot ∨ r.consumer = .failed slot)
    (hnew : c = .pop ∨ c = .finished false)
    (he : r.isErr = true ↔ c = .finished false) (hb : ¬ r.producer.Blocked) :
    Inv { r with tail := (r.tail + 1) % m_capacity, consumer := c } := by
  have hpos : 0 < r.used.length := by
    refine h.some_used ⟨slot, ?_⟩
    exact hold
  have hfreed : freed r + 1 = r.used.length := by
    rcases hold with hc | hc <;> simp only [freed, hc] <;> omega
  have hfreed' : freed { r with tail := (r.tail + 1) % m_capacity, consumer := c } = freed r + 1 := by
    rcases hnew with rfl | rfl <;> exact hfreed.symm
  have hlt : freed r < r.pushed.length := by
    refine (h.held slot ?_).2
    rcases hold with hc | hc <;> simp [hc, Consumer.slot]
  have hroom := h.room
  refine ⟨?_, ?_, h.head, ?_, ?_, h.used, ?_, ?_, h.writing, fun hw => absurd hw hb, ?_, h.m_done,
    h.ended, ?_, ?_, ?_⟩
  · rw [hfreed']; exact hlt
  · rw [hfreed']
    show r.pushed.length < _
    omega
  · rw [hfreed']
    show (r.tail + 1) % m_capacity = _
    rw [h.tail]
    unfold m_capacity
    omega
  · rw [hfreed']
    intro k hk
    exact h.slots k (by omega)
  · rcases hnew with rfl | rfl <;> simp [Consumer.slot]
  · rcases hnew with rfl | rfl <;> simp
  · rcases hnew with rfl | rfl <;> simp
  · rcases hnew with rfl | rfl <;> simpa using he
  · rcases hnew with rfl | rfl <;> simp
  · intro _ _
    rw [hfreed']
    show r.pushed.length ≤ _
    unfold m_capacity at hroom
    omega

lemma unpop_inv (h : Inv r) (hs : unpop r = some r') : Inv r' := by
  have hawake := (notify_all_awake r).1
  unfold unpop at hs
  split at hs
  · rename_i slot hc
    simp only [Option.some.injEq] at hs
    subst hs
    have he : r.isErr = false := h.isErr_eq (by simp [hc]) (by simp [hc])
    exact h.notify_all.release slot (Or.inl (by simp [notify_all, hc])) (Or.inl rfl)
      (by simp [notify_all, he]) hawake
  · rename_i slot hc
    simp only [Option.some.injEq] at hs
    subst hs
    have he : r.isErr = true := h.isErr.mpr (Or.inl ⟨slot, hc⟩)
    exact h.notify_all.release slot (Or.inr (by simp [notify_all, hc])) (Or.inr rfl)
      (by simp [notify_all, he]) hawake
  · simp at hs

lemma wakeProducer_inv (h : Inv r) (hs : wakeProducer r = some r') : Inv r' := by
  unfold wakeProducer at hs
  split at hs
  · rename_i last hp
    simp only [Option.some.injEq] at hs
    exact hs ▸ h.wake_producer hp
  · simp at hs

lemma wakeConsumer_inv (h : Inv r) (hs : wakeConsumer r = some r') : Inv r' := by
  unfold wakeConsumer at hs
  split at hs
  · rename_i hc
    simp only [Option.some.injEq] at hs
    exact hs ▸ h.wake_consumer hc
  · simp at hs

lemma step_inv (l : Label α) (h : Inv r) (hs : step r l = some r') : Inv r' := by
  cases l with
  | check => exact check_inv h hs
  | poll go => exact poll_inv h hs
  | nextFree => exact nextFree_inv h hs
  | fill a last => exact fill_inv h hs
  | push => exact push_inv h hs
  | done => exact done_inv h hs
  | pop => exact pop_inv h hs
  | use => exact use_inv h hs
  | setErr => exact setErr_inv h hs
  | unpop => exact unpop_inv h hs
  | wakeProducer => exact wakeProducer_inv h hs
  | wakeConsumer => exact wakeConsumer_inv h hs

/-- **Every reachable state keeps the invariant**, whatever the two threads do. -/
theorem reaches_inv {a : α} (h : Reaches step (init a) r) : Inv r :=
  h.inv (fun _ l _ hi hs => step_inv l hi hs) (init_inv a)

/-! ### The stream of segments -/

/-- The segment that is filled and not yet pushed. -/
def pending (r : Ring α) : List α :=
  match r.producer with
  | .push _ | .pushWait _ => [r.m_buffer r.head]
  | _ => []

/-- All segments that were filled, in order. -/
def stream (r : Ring α) : List α := r.pushed ++ pending r

/-- The producer fills no segment any more. -/
def Producer.ending : Producer → Bool
  | .push last | .pushWait last => last
  | .done | .finished => true
  | _ => false

@[simp] lemma stream_notify_all (r : Ring α) : stream (notify_all r) = stream r := by
  obtain ⟨m_done, m_buffer, head, tail, isErr, producer, consumer, pushed, used⟩ := r
  cases producer <;> rfl

lemma ending_notify_all (r : Ring α) : (notify_all r).producer.ending = r.producer.ending := by
  obtain ⟨m_done, m_buffer, head, tail, isErr, producer, consumer, pushed, used⟩ := r
  cases producer <;> rfl

/-- What a move puts at the end of the stream. -/
def Label.filled : Label α → List α
  | .fill a _ => [a]
  | _ => []

section effects

lemma check_some (hs : check r = some r') :
    r.producer = .top ∧ r' = { r with producer := if r.isErr then .finished else .poll } := by
  unfold check at hs
  split at hs <;> simp_all

lemma poll_some {go : Bool} (hs : poll go r = some r') :
    r.producer = .poll ∧ r' = { r with producer := if go then .nextFree else .done } := by
  unfold poll at hs
  split at hs <;> simp_all

lemma nextFree_some (hs : nextFree r = some r') :
    r.producer = .nextFree ∧ r' = { notify_all r with producer := .fill r.head } := by
  unfold nextFree at hs
  split at hs <;> simp_all

lemma fill_some {a : α} {last : Bool} (hs : fill a last r = some r') :
    ∃ slot, r.producer = .fill slot ∧
      r' = { r with m_buffer := Function.update r.m_buffer slot a, producer := .push last } := by
  unfold fill at hs
  split at hs <;> simp_all

lemma push_some (hs : push r = some r') :
    ∃ last, r.producer = .push last ∧ (r' = { r with producer := .pushWait last } ∨
        r' = { notify_all r with
          head := (r.head + 1) % m_capacity
          producer := if last then .done else .top
          pushed := r.pushed ++ [r.m_buffer r.head] }) := by
  unfold push at hs
  split at hs
  · rename_i last hp
    refine ⟨last, hp, ?_⟩
    split at hs
    · exact Or.inl (by simpa using hs.symm)
    · exact Or.inr (by simpa using hs.symm)
  · simp at hs

lemma done_some (hs : done r = some r') :
    r.producer = .done ∧ r' = { notify_all r with m_done := true, producer := .finished } := by
  unfold done at hs
  split at hs <;> simp_all

lemma wakeProducer_some (hs : wakeProducer r = some r') :
    ∃ last, r.producer = .pushWait last ∧ r' = { r with producer := .push last } := by
  unfold wakeProducer at hs
  split at hs <;> simp_all

variable {l : Label α}

/-- What the moves of the consumer have in common: they leave the producer alone, or wake it up,
touch neither its slot nor what was pushed, and only one of them uses a segment or raises the
flag. -/
lemma consumer_some (hl : l = .pop ∨ l = .use ∨ l = .setErr ∨ l = .unpop ∨
    l = .wakeConsumer) (hs : step r l = some r') :
    (r'.producer = r.producer ∨ r'.producer = (notify_all r).producer) ∧
      r'.m_buffer = r.m_buffer ∧ r'.head = r.head ∧ r'.pushed = r.pushed ∧
      (l ≠ .use → r'.used = r.used) ∧ (l ≠ .setErr → r'.isErr = r.isErr) := by
  rcases hl with rfl | rfl | rfl | rfl | rfl
  · simp only [step, pop] at hs
    split at hs
    · split_ifs at hs <;> simp only [Option.some.injEq] at hs <;> simp [← hs]
    · simp at hs
  · simp only [step, use] at hs
    split at hs
    · simp only [Option.some.injEq] at hs
      simp [← hs]
    · simp at hs
  · simp only [step, setErr] at hs
    split at hs
    · simp only [Option.some.injEq] at hs
      simp [← hs]
    · simp at hs
  · simp only [step, unpop] at hs
    split at hs
    · simp only [Option.some.injEq] at hs
      simp [← hs]
    · simp only [Option.some.injEq] at hs
      simp [← hs]
    · simp at hs
  · simp only [step, wakeConsumer] at hs
    split at hs
    · simp only [Option.some.injEq] at hs
      simp [← hs]
    · simp at hs

lemma step_stream (h : Inv r) (hs : step r l = some r') : stream r' = stream r ++ l.filled := by
  cases l with
  | check =>
    obtain ⟨hp, rfl⟩ := check_some hs
    cases he : r.isErr <;> simp [stream, pending, hp, Label.filled]
  | poll go =>
    obtain ⟨hp, rfl⟩ := poll_some hs
    cases go <;> simp [stream, pending, hp, Label.filled]
  | nextFree =>
    obtain ⟨hp, rfl⟩ := nextFree_some hs
    simp [stream, pending, hp, Label.filled]
  | fill a last =>
    obtain ⟨slot, hp, rfl⟩ := fill_some hs
    obtain rfl : slot = r.head := h.writing slot (by simp [hp, Producer.slot])
    simp [stream, pending, hp, Label.filled]
  | push =>
    obtain ⟨last, hp, rfl | rfl⟩ := push_some hs
    · simp [stream, pending, hp, Label.filled]
    · cases last <;> simp [stream, pending, hp, Label.filled]
  | done =>
    obtain ⟨hp, rfl⟩ := done_some hs
    simp [stream, pending, hp, Label.filled]
  | wakeProducer =>
    obtain ⟨last, hp, rfl⟩ := wakeProducer_some hs
    simp [stream, pending, hp, Label.filled]
  | pop | use | setErr | unpop | wakeConsumer =>
    obtain ⟨hp | hp, hb, hh, hpushed, -⟩ := consumer_some (by simp) hs
    · simp [stream, pending, hp, hb, hh, hpushed, Label.filled]
    · have hstream := stream_notify_all r
      simp only [stream, pending] at hstream ⊢
      simpa [hp, hb, hh, hpushed, Label.filled] using hstream

/-- The producer stops filling after its last segment, when it decides so, or because of the
flag. -/
lemma step_ending (hs : step r l = some r') (he : r'.producer.ending = true) :
    r.producer.ending = true ∨ (∃ a, l = .fill a true) ∨ l = .poll false ∨ r.isErr = true := by
  cases l with
  | check =>
    obtain ⟨hp, rfl⟩ := check_some hs
    cases hi : r.isErr with
    | true => simp
    | false => simp [hi, Producer.ending] at he
  | poll go =>
    obtain ⟨hp, rfl⟩ := poll_some hs
    cases go with
    | true => simp [Producer.ending] at he
    | false => simp
  | nextFree =>
    obtain ⟨hp, rfl⟩ := nextFree_some hs
    simp [Producer.ending] at he
  | fill a last =>
    obtain ⟨slot, hp, rfl⟩ := fill_some hs
    obtain rfl : last = true := he
    exact Or.inr (Or.inl ⟨a, rfl⟩)
  | push =>
    obtain ⟨last, hp, rfl | rfl⟩ := push_some hs
    · exact Or.inl (by simpa [hp, Producer.ending] using he)
    · cases last with
      | true => simp [hp, Producer.ending]
      | false => simp [Producer.ending] at he
  | done =>
    obtain ⟨hp, rfl⟩ := done_some hs
    simp [hp, Producer.ending]
  | wakeProducer =>
    obtain ⟨last, hp, rfl⟩ := wakeProducer_some hs
    exact Or.inl (by simpa [hp, Producer.ending] using he)
  | pop | use | setErr | unpop | wakeConsumer =>
    obtain ⟨hp | hp, -⟩ := consumer_some (by simp) hs
    · exact Or.inl (hp ▸ he)
    · rw [hp, ending_notify_all] at he
      exact Or.inl he

lemma use_some (hs : use r = some r') :
    ∃ slot, r.consumer = .use slot ∧
      r' = { r with consumer := .used slot, used := r.used ++ [r.m_buffer slot] } := by
  unfold use at hs
  split at hs <;> simp_all

lemma pop_some (hs : pop r = some r') :
    r.consumer = .pop ∧ (r' = { r with consumer := .finished true } ∨
      r' = { r with consumer := .popWait } ∨ r' = { notify_all r with consumer := .use r.tail }) := by
  unfold pop at hs
  split at hs
  · split_ifs at hs <;> simp_all
  · simp at hs

lemma setErr_some (hs : setErr r = some r') :
    ∃ slot, r.consumer = .used slot ∧ r' = { r with isErr := true, consumer := .failed slot } := by
  unfold setErr at hs
  split at hs <;> simp_all

lemma unpop_some (hs : unpop r = some r') :
    ∃ slot, (r.consumer = .used slot ∧
        r' = { notify_all r with tail := (r.tail + 1) % m_capacity, consumer := .pop }) ∨
      (r.consumer = .failed slot ∧
        r' = { notify_all r with
          tail := (r.tail + 1) % m_capacity
          consumer := .finished false }) := by
  unfold unpop at hs
  split at hs <;> simp_all

lemma wakeConsumer_some (hs : wakeConsumer r = some r') :
    r.consumer = .popWait ∧ r' = { r with consumer := .pop } := by
  unfold wakeConsumer at hs
  split at hs <;> simp_all

lemma step_used (hl : l ≠ .use) (hs : step r l = some r') : r'.used = r.used := by
  cases l with
  | check => rw [(check_some hs).2]
  | poll go => rw [(poll_some hs).2]
  | nextFree => rw [(nextFree_some hs).2, notify_all_used]
  | fill a last =>
    obtain ⟨slot, -, rfl⟩ := fill_some hs
    rfl
  | push => obtain ⟨last, -, rfl | rfl⟩ := push_some hs <;> rfl
  | done => rw [(done_some hs).2, notify_all_used]
  | wakeProducer =>
    obtain ⟨last, -, rfl⟩ := wakeProducer_some hs
    rfl
  | pop | use | setErr | unpop | wakeConsumer =>
    exact (consumer_some (by simp) hs).2.2.2.2.1 hl

lemma step_isErr (hl : l ≠ .setErr) (hs : step r l = some r') : r'.isErr = r.isErr := by
  cases l with
  | check => rw [(check_some hs).2]
  | poll go => rw [(poll_some hs).2]
  | nextFree => rw [(nextFree_some hs).2, notify_all_isErr]
  | fill a last =>
    obtain ⟨slot, -, rfl⟩ := fill_some hs
    rfl
  | push => obtain ⟨last, -, rfl | rfl⟩ := push_some hs <;> rfl
  | done => rw [(done_some hs).2, notify_all_isErr]
  | wakeProducer =>
    obtain ⟨last, -, rfl⟩ := wakeProducer_some hs
    rfl
  | pop | use | setErr | unpop | wakeConsumer =>
    exact (consumer_some (by simp) hs).2.2.2.2.2 hl

end effects

/-! ### What the invariant says -/

lemma Inv.slots_disjoint (h : Inv r) {i j : ℕ} (hi : r.consumer.slot = some i)
    (hj : r.producer.slot = some j) : i ≠ j := by
  obtain ⟨rfl, hlt⟩ := h.held i hi
  obtain rfl := h.writing j hj
  rw [h.tail]
  exact h.head_free (Nat.le_refl _) hlt

lemma Inv.used_eq_pushed (h : Inv r) (hc : r.consumer = .finished true) : r.used = r.pushed := by
  have hfreed : freed r = r.used.length := by simp [freed, hc]
  have h1 := (h.null hc).2
  rw [h.head, h.tail] at h1
  have h2 := h.freed_le
  have h3 := h.room
  refine h.used.eq_of_length ?_
  unfold m_capacity at h1 h3
  omega

lemma Inv.not_both_blocked (h : Inv r) (hp : r.producer.Blocked) : r.consumer ≠ .popWait := by
  intro hc
  have h1 := h.full hp
  rw [← (h.empty hc).1, h.head] at h1
  unfold m_capacity at h1
  omega

lemma Inv.not_left_producer (h : Inv r) (hp : r.producer.Blocked) : ¬ r.consumer.Finished := by
  obtain ⟨last, hl⟩ := hp
  rintro ⟨null, hc⟩
  cases null with
  | true =>
    have := h.m_done (h.null hc).1
    simp [hl] at this
  | false =>
    -- after the last `unpop()` two segments are left at most, and one more fits
    have h1 := h.full ⟨last, hl⟩
    have h2 := h.early hc (by simp [hl, Producer.late])
    have h3 := h.freed_le
    rw [h.head, h.tail] at h1
    unfold m_capacity at h1
    omega

lemma Inv.not_left_consumer (h : Inv r) (hc : r.consumer = .popWait) : r.producer ≠ .finished := by
  intro hp
  obtain ⟨-, hd, he⟩ := h.empty hc
  rcases h.ended hp with h1 | h1
  · simp [hd] at h1
  · simp [he] at h1

/-- **No deadlock**: unless both threads have left, one of them neither waits nor has left. -/
theorem Inv.progress (h : Inv r) :
    (r.producer = .finished ∧ r.consumer.Finished) ∨
      (r.producer ≠ .finished ∧ ¬ r.producer.Blocked) ∨
      (r.consumer ≠ .popWait ∧ ¬ r.consumer.Finished) := by
  by_cases hp : r.producer.Blocked
  · exact Or.inr (Or.inr ⟨h.not_both_blocked hp, h.not_left_producer hp⟩)
  · by_cases hf : r.producer = .finished
    · by_cases hc : r.consumer.Finished
      · exact Or.inl ⟨hf, hc⟩
      · exact Or.inr (Or.inr ⟨fun hw => h.not_left_consumer hw hf, hc⟩)
    · exact Or.inr (Or.inl ⟨hf, hp⟩)

/-- **The ring buffer transfers.** In every state that any interleaving of the two threads
reaches, the consumer has used the segments in the order and with the contents in which they
were pushed and reads the next one from its slot; its slot is not the one being written; it
gets a null only after `done()` and the last segment; and neither thread waits for the other
while that one waits too or has left, also when the consumer gave up. -/
theorem ring_transfers (a : α) (r : Ring α) (h : Reaches step (init a) r) :
    r.used <+: r.pushed ∧
    (∀ i, r.consumer = .use i → r.pushed[r.used.length]? = some (r.m_buffer i)) ∧
    (∀ i j, r.consumer.slot = some i → r.producer.slot = some j → i ≠ j) ∧
    (r.consumer = .finished true → r.used = r.pushed ∧ r.m_done = true) ∧
    ¬ (r.producer.Blocked ∧ r.consumer = .popWait) ∧
    ¬ (r.producer.Blocked ∧ r.consumer.Finished) ∧
    ¬ (r.consumer = .popWait ∧ r.producer = .finished) := by
  have hi := reaches_inv h
  refine ⟨hi.used, fun i => hi.use_eq, fun i j => hi.slots_disjoint, ?_, ?_, ?_, ?_⟩
  · intro hc
    exact ⟨hi.used_eq_pushed hc, (hi.null hc).1⟩
  · rintro ⟨hp, hc⟩
    exact hi.not_both_blocked hp hc
  · rintro ⟨hp, hc⟩
    exact hi.not_left_producer hp hc
  · rintro ⟨hc, hp⟩
    exact hi.not_left_consumer hc hp

/-- Two segments through the ring, the second one read before the first is given back. -/
theorem ring_transfers_two :
    ∃ r, run step (init 0) [.check, .poll true, .nextFree, .fill 7 false, .push, .pop, .check,
        .poll true, .use, .nextFree, .fill 8 true, .push, .unpop, .done, .pop, .use, .unpop,
        .pop] = some r ∧ r.used = [7, 8] ∧ r.used = r.pushed := by
  refine ⟨_, rfl, rfl, ((ring_transfers 0 _ ⟨[.check, .poll true, .nextFree, .fill 7 false, .push,
    .pop, .check, .poll true, .use, .nextFree, .fill 8 true, .push, .unpop, .done, .pop, .use,
    .unpop, .pop], rfl⟩).2.2.2.1 rfl).1⟩

end KioExtras.Smb.Transfer
