import Mathlib.Data.Nat.Notation
import Mathlib.Tactic.Common

/-!
Loops that look at a flag before each item and stop at the first item that goes wrong.

The items are numbered; `needed` says that there is an item, `killed` that the flag is up when
it is looked at before that item, `bad` that the item goes wrong. A loop ends because the items
are used up, because it saw the flag, or because of a bad item.
-/

namespace KioExtras.Lib.Poll

inductive Outcome
  | completed
  | killed (j : ℕ)
  | failed (j : ℕ)

variable (needed killed bad : ℕ → Prop)

inductive Ends : ℕ → Outcome → Prop
  | completed (k : ℕ) (h : ¬ needed k) : Ends k .completed
  | killed (k : ℕ) (hn : needed k) (hk : killed k) : Ends k (.killed k)
  | failed (k : ℕ) (hn : needed k) (hk : ¬ killed k) (hb : bad k) : Ends k (.failed k)
  | next (k : ℕ) (o : Outcome) (hn : needed k) (hk : ¬ killed k) (hb : ¬ bad k)
    (h : Ends (k + 1) o) : Ends k o

variable {needed killed bad}

namespace Ends

variable {j k : ℕ} {o : Outcome}

lemma of_failed (h : Ends needed killed bad k (.failed j)) :
    k ≤ j ∧ needed j ∧ bad j ∧ ∀ i, k ≤ i → i ≤ j → ¬ killed i := by
  generalize ho : Outcome.failed j = o at h
  induction h with
  | completed k h => simp at ho
  | killed k hn hk => simp at ho
  | failed k hn hk hb =>
    obtain rfl : j = k := by simpa using ho
    refine ⟨Nat.le_refl _, hn, hb, fun i hi hij => ?_⟩
    obtain rfl : i = j := Nat.le_antisymm hij hi
    exact hk
  | next k o hn hk hb h ih =>
    obtain ⟨hle, hnj, hbj, hall⟩ := ih ho
    refine ⟨by omega, hnj, hbj, fun i hi hij => ?_⟩
    rcases Nat.eq_or_lt_of_le hi with rfl | hlt
    · exact hk
    · exact hall i hlt hij

lemma of_killed (h : Ends needed killed bad k (.killed j)) :
    k ≤ j ∧ needed j ∧ killed j ∧ ∀ i, k ≤ i → i < j → ¬ killed i ∧ ¬ bad i := by
  generalize ho : Outcome.killed j = o at h
  induction h with
  | completed k h => simp at ho
  | killed k hn hk =>
    obtain rfl : j = k := by simpa using ho
    exact ⟨Nat.le_refl _, hn, hk, fun i hi hij => by omega⟩
  | failed k hn hk hb => simp at ho
  | next k o hn hk hb h ih =>
    obtain ⟨hle, hnj, hkj, hall⟩ := ih ho
    refine ⟨by omega, hnj, hkj, fun i hi hij => ?_⟩
    rcases Nat.eq_or_lt_of_le hi with rfl | hlt
    · exact ⟨hk, hb⟩
    · exact hall i hlt hij

lemma of_completed (hdown : ∀ i j, i ≤ j → needed j → needed i)
    (h : Ends needed killed bad k .completed) : ∀ i, k ≤ i → needed i → ¬ killed i ∧ ¬ bad i := by
  generalize ho : Outcome.completed = o at h
  induction h with
  | completed k h => exact fun i hi hn => absurd (hdown k i hi hn) h
  | killed k hn hk => simp at ho
  | failed k hn hk hb => simp at ho
  | next k o hn hk hb h ih =>
    intro i hi hni
    rcases Nat.eq_or_lt_of_le hi with rfl | hlt
    · exact ⟨hk, hb⟩
    · exact ih ho i hlt hni

lemma killed_first_iff (h : Ends needed killed bad k o) : o = .killed k ↔ needed k ∧ killed k := by
  cases h with
  | completed k h => simp [h]
  | killed k hn hk => simp [hn, hk]
  | failed k hn hk hb => simp [hk]
  | next k o hn hk hb h =>
    refine iff_of_false ?_ (fun hc => hk hc.2)
    rintro rfl
    have := h.of_killed.1
    omega

theorem failed_iff (hdown : ∀ i j, i ≤ j → needed j → needed i) (h : Ends needed killed bad k o) :
    (∃ j, o = .failed j) ↔ ∃ j, k ≤ j ∧ needed j ∧ bad j ∧ ∀ i, k ≤ i → i ≤ j → ¬ killed i := by
  constructor
  · rintro ⟨j, rfl⟩
    exact ⟨j, h.of_failed⟩
  · rintro ⟨j, hkj, hnj, hbj, hall⟩
    cases o with
    | completed => exact absurd hbj (h.of_completed hdown j hkj hnj).2
    | killed i =>
      obtain ⟨hki, -, hkilled, hgood⟩ := h.of_killed
      rcases Nat.lt_or_ge j i with hlt | hge
      · exact absurd hbj (hgood j hkj hlt).2
      · exact absurd hkilled (hall i hki hge)
    | failed i => exact ⟨i, rfl⟩

theorem completed_iff (hdown : ∀ i j, i ≤ j → needed j → needed i)
    (h : Ends needed killed bad k o) :
    o = .completed ↔ ∀ i, k ≤ i → needed i → ¬ killed i ∧ ¬ bad i := by
  constructor
  · rintro rfl
    exact h.of_completed hdown
  · intro hall
    cases o with
    | completed => rfl
    | killed i =>
      obtain ⟨hki, hni, hkilled, -⟩ := h.of_killed
      exact absurd hkilled (hall i hki hni).1
    | failed i =>
      obtain ⟨hki, hni, hbi, -⟩ := h.of_failed
      exact absurd hbi (hall i hki hni).2

end Ends

end KioExtras.Lib.Poll
