import Mathlib.Data.List.Basic
import Mathlib.Tactic.Common

/-!
Scanning a text that ends with a terminator, by position.

A scanner reads one character at a time and returns the position where it stopped. A run ends
before its time at the first read outside of the text and its terminator, and at the first
position behind the terminator that a scanner returns.

What a scanner accepts is told apart from how it reads: a relation between what is left of the
text where it starts and what is left where it stops. `Exact` says that the scanner stops there
where the relation knows such a rest, and ends before its time where it knows none.
-/

namespace KioExtras.Reading

/-- What ends a run before its time. -/
inductive Stop
  | outside
  | behind
  | unfinished
  deriving DecidableEq

/-- The terminator. -/
def NUL : Char := Char.ofNat 0

/-- Programs with variables `σ` that read a text. -/
abbrev Scan (σ α : Type) := StateT σ (Except Stop) α

variable {σ : Type}

def stop {α : Type} (why : Stop) : Scan σ α := fun _ => .error why

section

variable (text : List Char)

def charAt (c : ℕ) : Scan σ Char := fun s =>
  match text[c]? with
  | some x => .ok (x, s)
  | none => if c = text.length then .ok (NUL, s) else .error .outside

/-- A position and a value are returned. -/
def leave {β : Type} (c : ℕ) (b : β) : Scan σ (ℕ × β) :=
  if c ≤ text.length then pure (c, b) else stop .behind

def back : ℕ → Scan σ ℕ
  | 0 => stop .outside
  | c + 1 => pure c

/-- The loop over the characters up to a final one or the end. -/
def upTo (final : Char → Bool) : ℕ → ℕ → List Char → Scan σ (ℕ × List Char)
  | 0, _, _ => stop .unfinished
  | fuel + 1, c, seen => do
    let x ← charAt text c
    if x = NUL ∨ final x = true then pure (c, seen)
    else upTo final fuel (c + 1) (seen ++ [x])

end

/-! ### Where a scanner stands -/

/-- At the position, `rest` is left of the text. -/
structure At (text : List Char) (c : ℕ) (rest : List Char) : Prop where
  le : c ≤ text.length
  drop : text.drop c = rest

section

variable {text rest : List Char} {c : ℕ} {x : Char}

lemma At.of_le (h : c ≤ text.length) : At text c (text.drop c) := ⟨h, rfl⟩

lemma At.length (h : At text c rest) : text.length = c + rest.length := by
  have hlen := congrArg List.length h.drop
  rw [List.length_drop] at hlen
  have hle := h.le
  omega

lemma At.tail (h : At text c (x :: rest)) : At text (c + 1) rest := by
  have hlen := h.length
  rw [List.length_cons] at hlen
  refine ⟨by omega, ?_⟩
  rw [← List.tail_drop, h.drop, List.tail_cons]

lemma At.prev (h : At text (c + 1) rest) : ∃ x, At text c (x :: rest) := by
  have hle := h.le
  refine ⟨text[c], by omega, ?_⟩
  rw [← h.drop]
  exact List.drop_eq_getElem_cons (by omega)

lemma At.mem (h : At text c rest) (hx : x ∈ rest) : x ∈ text :=
  List.mem_of_mem_drop (h.drop ▸ hx)

lemma charAt_cons (h : At text c (x :: rest)) : (charAt text c : Scan σ Char) = pure x := by
  have hx : text[c]? = some x := by
    rw [← List.head?_drop, h.drop, List.head?_cons]
  funext s
  simp only [charAt, hx]
  rfl

lemma charAt_nil (h : At text c []) : (charAt text c : Scan σ Char) = pure NUL := by
  have hlen := h.length
  rw [List.length_nil, Nat.add_zero] at hlen
  have hx : text[c]? = none := List.getElem?_eq_none (Nat.le_of_eq hlen)
  funext s
  simp only [charAt, hx, hlen, if_true]
  rfl

lemma charAt_outside (h : text.length < c) : (charAt text c : Scan σ Char) = stop .outside := by
  have hx : text[c]? = none := List.getElem?_eq_none (Nat.le_of_lt h)
  funext s
  simp only [charAt, hx, if_neg (Nat.ne_of_gt h), stop]

lemma leave_at {β : Type} {b : β} (h : At text c rest) :
    (leave text c b : Scan σ (ℕ × β)) = pure (c, b) := if_pos h.le

lemma leave_behind {β : Type} {b : β} (h : text.length < c) :
    (leave text c b : Scan σ (ℕ × β)) = stop .behind := if_neg (Nat.not_le.mpr h)

lemma upTo_at (final : Char → Bool) {fuel : ℕ} (seen : List Char) (hnul : NUL ∉ text)
    (h : At text c rest) (hfuel : rest.length < fuel) :
    ∃ c', (upTo text final fuel c seen : Scan σ (ℕ × List Char)) =
        pure (c', seen ++ rest.takeWhile (!final ·)) ∧ At text c' (rest.dropWhile (!final ·)) := by
  induction rest generalizing fuel c seen with
  | nil =>
    obtain ⟨fuel, rfl⟩ : ∃ n, fuel = n + 1 := ⟨fuel - 1, by omega⟩
    refine ⟨c, ?_, h⟩
    rw [upTo, charAt_nil h, pure_bind, if_pos (Or.inl rfl)]
    simp
  | cons x rest ih =>
    obtain ⟨fuel, rfl⟩ : ∃ n, fuel = n + 1 := ⟨fuel - 1, by omega⟩
    have hless : rest.length < fuel := Nat.lt_of_succ_lt_succ hfuel
    have hx : x ≠ NUL := fun heq => hnul (heq ▸ h.mem (by simp))
    rw [upTo, charAt_cons h, pure_bind]
    cases hfinal : final x with
    | true =>
      refine ⟨c, ?_, ?_⟩
      · rw [if_pos (Or.inr rfl)]
        simp [hfinal]
      · simpa [hfinal] using h
    | false =>
      obtain ⟨c', hrun, hat⟩ := ih (seen ++ [x]) h.tail hless
      refine ⟨c', ?_, ?_⟩
      · rw [if_neg (by simp [hx]), hrun]
        simp [hfinal]
      · simpa [hfinal] using hat

lemma At.behind (h : At text c []) : text.length < c + 1 := by
  have hlen := h.length
  rw [List.length_nil] at hlen
  omega

end

/-! ### Scanners that accept just what a relation knows -/

/-- From all variables with the key `k`, the scanner stops with the one rest that `G` knows and
keeps the key; where `G` knows none, the run ends before its time. In any case it ends. -/
def Exact {κ β : Type} (text : List Char) (key : σ → κ) (k : κ) (x : Scan σ (ℕ × β))
    (G : List Char → Prop) : Prop :=
  ∀ s, key s = k →
    match x s with
    | .ok ((c, _), s') => key s' = k ∧ ∃ rest, At text c rest ∧ ∀ r, G r ↔ r = rest
    | .error .unfinished => False
    | .error _ => ∀ rest, ¬ G rest

namespace Exact

variable {κ β γ : Type} {text rest : List Char} {key : σ → κ} {k : κ} {c : ℕ}
  {G H : List Char → Prop}

lemma congr {x : Scan σ (ℕ × β)} (h : Exact text key k x G) (hiff : ∀ r, G r ↔ H r) :
    Exact text key k x H := by
  have heq : G = H := funext fun r => propext (hiff r)
  exact heq ▸ h

lemma of_pure {b : β} (hat : At text c rest) (hG : ∀ r, G r ↔ r = rest) :
    Exact text key k (pure (c, b)) G :=
  fun _ hs => ⟨hs, rest, hat, hG⟩

lemma of_leave {b : β} (hat : At text c rest) (hG : ∀ r, G r ↔ r = rest) :
    Exact text key k (leave text c b) G := by
  rw [leave_at hat]
  exact of_pure hat hG

lemma of_behind {b : β} (hc : text.length < c) (hG : ∀ r, ¬ G r) :
    Exact text key k (leave text c b) G := by
  rw [leave_behind hc]
  exact fun _ _ => hG

lemma of_outside {f : Char → Scan σ (ℕ × β)} (hc : text.length < c) (hG : ∀ r, ¬ G r) :
    Exact text key k (charAt text c >>= f) G := by
  rw [charAt_outside hc]
  exact fun _ _ => hG

lemma seq {x : Scan σ (ℕ × β)} {f : ℕ × β → Scan σ (ℕ × γ)} {K : List Char → List Char → Prop}
    (hx : Exact text key k x G)
    (hf : ∀ c b rest, At text c rest → G rest → Exact text key k (f (c, b)) (K rest)) :
    Exact text key k (x >>= f) fun r => ∃ rest, G rest ∧ K rest r := by
  intro s hs
  have hfirst := hx s hs
  change match (x s).bind fun p => f p.1 p.2 with
    | .ok ((c, _), s') => key s' = k ∧ ∃ rest, At text c rest ∧ ∀ r, _ ↔ r = rest
    | .error .unfinished => False
    | .error _ => ∀ rest, ¬ _
  rcases hxs : x s with why | ⟨⟨c, b⟩, t⟩
  · rw [hxs] at hfirst
    cases why with
    | unfinished => exact hfirst
    | outside => exact fun r ⟨rest, hG, _⟩ => hfirst rest hG
    | behind => exact fun r ⟨rest, hG, _⟩ => hfirst rest hG
  · rw [hxs] at hfirst
    obtain ⟨ht, rest, hat, hG⟩ := hfirst
    -- the first scanner leaves one rest only
    have hiff : ∀ r, (∃ rest, G rest ∧ K rest r) ↔ K rest r := by
      intro r
      constructor
      · rintro ⟨rest', hG', hK⟩
        exact (hG rest').mp hG' ▸ hK
      · exact fun hK => ⟨rest, (hG rest).mpr rfl, hK⟩
    exact (hf c b rest hat ((hG rest).mpr rfl)).congr (fun r => (hiff r).symm) t ht

lemma asked {f : σ → Scan σ (ℕ × β)} (h : ∀ s, key s = k → Exact text key k (f s) G) :
    Exact text key k (get >>= f) G :=
  fun s hs => h s hs s hs

lemma changed {u : σ → σ} {x : Scan σ (ℕ × β)} (hu : ∀ s, key (u s) = key s)
    (h : Exact text key k x G) : Exact text key k (modify u >>= fun _ => x) G :=
  fun s hs => h (u s) ((hu s).trans hs)

lemma computed {α : Type} {u : σ → α × σ} {f : α → Scan σ (ℕ × β)}
    (hu : ∀ s, key (u s).2 = key s) (h : ∀ a, Exact text key k (f a) G) :
    Exact text key k (modifyGet u >>= f) G :=
  fun s hs => h (u s).1 (u s).2 ((hu s).trans hs)

lemma ok_iff {x : Scan σ (ℕ × β)} (h : Exact text key k x G) {s : σ} (hs : key s = k) :
    (∃ c b s', x s = .ok ((c, b), s') ∧ c ≤ text.length) ↔ ∃ rest, G rest := by
  have hrun := h s hs
  rcases hxs : x s with why | ⟨⟨c, b⟩, t⟩
  · have hno : ∀ rest, ¬ G rest := by
      rw [hxs] at hrun
      cases why with
      | unfinished => exact hrun.elim
      | outside => exact hrun
      | behind => exact hrun
    simp [hno]
  · rw [hxs] at hrun
    obtain ⟨-, rest, hat, hG⟩ := hrun
    exact ⟨fun _ => ⟨rest, (hG rest).mpr rfl⟩, fun _ => ⟨c, b, t, rfl, hat.le⟩⟩

lemma ends {x : Scan σ (ℕ × β)} (h : Exact text key k x G) {s : σ} (hs : key s = k) :
    x s ≠ .error .unfinished := by
  intro hxs
  have hrun := h s hs
  rw [hxs] at hrun
  exact hrun

end Exact

end KioExtras.Reading
