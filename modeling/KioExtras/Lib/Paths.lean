import Mathlib.Data.List.Basic
import Mathlib.Data.List.Induction
import Mathlib.Tactic.Common

/-!
Paths as sequences of names, and their texts: a separator before each name. The order of the
paths, in which an ancestor is a prefix, read off the texts.
-/

namespace KioExtras.Lib.Paths

variable {α : Type*} {sep : α}

structure Name (sep : α) where
  text : List α
  ne_nil : text ≠ []
  sep_notMem : sep ∉ text

@[ext] lemma Name.ext {m n : Name sep} (h : m.text = n.text) : m = n := by
  cases m
  cases n
  simpa using h

instance [DecidableEq α] : DecidableEq (Name sep) := fun m n =>
  decidable_of_iff (m.text = n.text) ⟨Name.ext, congrArg Name.text⟩

/-- The text of a path below the root. -/
def joined : List (Name sep) → List α
  | [] => []
  | n :: ns => sep :: n.text ++ joined ns

@[simp] lemma joined_nil : joined ([] : List (Name sep)) = [] := rfl

@[simp] lemma joined_cons (n : Name sep) (ns : List (Name sep)) :
    joined (n :: ns) = sep :: n.text ++ joined ns := rfl

lemma joined_append (ps qs : List (Name sep)) : joined (ps ++ qs) = joined ps ++ joined qs := by
  induction ps with
  | nil => rfl
  | cons p ps ih => simp [ih]

lemma joined_concat (ps : List (Name sep)) (n : Name sep) :
    joined (ps ++ [n]) = joined ps ++ sep :: n.text := by
  simp [joined_append]

variable {es ps : List (Name sep)}

lemma joined_eq_nil : joined ps = [] ↔ ps = [] := by
  cases ps <;> simp

lemma joined_head (ps : List (Name sep)) : joined ps = [] ∨ ∃ s, joined ps = sep :: s := by
  cases ps with
  | nil => exact Or.inl rfl
  | cons n ns => exact Or.inr ⟨n.text ++ joined ns, rfl⟩

lemma joined_getLast? (ps : List (Name sep)) : (joined ps).getLast? ≠ some sep := by
  induction ps using List.reverseRecOn with
  | nil => exact nofun
  | append_singleton ps n _ =>
    rw [joined_concat, List.getLast?_append_cons, List.getLast?_cons,
      List.getLast?_eq_some_getLast n.ne_nil]
    intro heq
    have hlast : n.text.getLast n.ne_nil = sep := by simpa using heq
    have hmem := List.getLast_mem n.ne_nil
    rw [hlast] at hmem
    exact n.sep_notMem hmem

lemma split_at_sep {m n s t : List α} (hm : sep ∉ m) (hn : sep ∉ n)
    (hs : s = [] ∨ ∃ u, s = sep :: u) (ht : t = [] ∨ ∃ u, t = sep :: u)
    (h : m ++ s = n ++ t) : m = n ∧ s = t := by
  induction m generalizing n with
  | nil =>
    cases n with
    | nil => exact ⟨rfl, h⟩
    | cons b n =>
      rcases hs with rfl | ⟨u, rfl⟩
      · simp at h
      · simp only [List.nil_append, List.cons_append, List.cons.injEq] at h
        exact absurd (by simp [h.1]) hn
  | cons a m ih =>
    cases n with
    | nil =>
      rcases ht with rfl | ⟨u, rfl⟩
      · simp at h
      · simp only [List.nil_append, List.cons_append, List.cons.injEq] at h
        exact absurd (by simp [h.1]) hm
    | cons b n =>
      simp only [List.cons_append, List.cons.injEq] at h
      obtain ⟨rfl, h⟩ := h
      obtain ⟨rfl, rfl⟩ := ih (fun hmem => hm (List.mem_cons_of_mem _ hmem))
        (fun hmem => hn (List.mem_cons_of_mem _ hmem)) h
      exact ⟨rfl, rfl⟩

/-- **Unique reading**: a path is determined by its text. -/
theorem joined_injective : Function.Injective (joined : List (Name sep) → List α) := by
  intro ps qs h
  induction ps generalizing qs with
  | nil => exact (joined_eq_nil.mp h.symm).symm
  | cons p ps ih =>
    cases qs with
    | nil => simp at h
    | cons q qs =>
      simp only [joined_cons, List.cons_append, List.cons.injEq, true_and] at h
      obtain ⟨htext, hrest⟩ :=
        split_at_sep p.sep_notMem q.sep_notMem (joined_head ps) (joined_head qs) h
      rw [Name.ext htext, ih hrest]

/-- **Ancestors by their texts**: the text of a path with a separator after it starts the text of
just the paths strictly below it. -/
theorem joined_sep_prefix : joined ps ++ [sep] <+: joined es ↔ ∃ n rest, es = ps ++ n :: rest := by
  constructor
  · rintro ⟨t, ht⟩
    induction ps generalizing es with
    | nil =>
      cases es with
      | nil => simp at ht
      | cons e es => exact ⟨e, es, rfl⟩
    | cons p ps ih =>
      cases es with
      | nil => simp at ht
      | cons e es =>
        simp only [joined_cons, List.cons_append, List.append_assoc, List.cons.injEq,
          true_and] at ht
        have hstart : joined ps ++ ([sep] ++ t) = [] ∨
            ∃ u, joined ps ++ ([sep] ++ t) = sep :: u := by
          rcases joined_head ps with h | ⟨u, h⟩ <;> simp [h]
        obtain ⟨htext, hrest⟩ :=
          split_at_sep p.sep_notMem e.sep_notMem hstart (joined_head es) ht
        obtain ⟨n, rest, rfl⟩ := ih (by simpa using hrest)
        exact ⟨n, rest, by rw [Name.ext htext, List.cons_append]⟩
  · rintro ⟨n, rest, rfl⟩
    exact ⟨n.text ++ joined rest, by simp [joined_append]⟩

lemma exists_below_iff : (∃ n rest, es = ps ++ n :: rest) ↔ ps <+: es ∧ ps ≠ es := by
  constructor
  · rintro ⟨n, rest, rfl⟩
    exact ⟨List.prefix_append _ _, by simp⟩
  · rintro ⟨⟨t, rfl⟩, hne⟩
    cases t with
    | nil => simp at hne
    | cons n rest => exact ⟨n, rest, rfl⟩

lemma takeWhile_name [DecidableEq α] (n : Name sep) (rest : List (Name sep)) :
    (n.text ++ joined rest).takeWhile (· ≠ sep) = n.text := by
  have hall : ∀ a ∈ n.text, decide (a ≠ sep) = true := by
    intro a ha
    exact decide_eq_true fun heq => n.sep_notMem (heq ▸ ha)
  rw [List.takeWhile_append_of_pos hall]
  rcases joined_head rest with h | ⟨s, h⟩ <;> simp [h]

/-! The names in any text: what stands between the separators, without the empty parts. -/

section Names

variable [DecidableEq α]

/-- The part of a text before its first separator, and the names after it. -/
abbrev Parts (sep : α) := {w : List α // sep ∉ w} × List (Name sep)

def Parts.named (p : Parts sep) : List (Name sep) :=
  if h : p.1.1 = [] then p.2 else ⟨p.1, h, p.1.2⟩ :: p.2

def Parts.before (a : α) (p : Parts sep) : Parts sep :=
  if h : a = sep then (⟨[], List.not_mem_nil⟩, p.named)
  else (⟨a :: p.1, List.not_mem_cons_of_ne_of_not_mem (Ne.symm h) p.1.2⟩, p.2)

def parts : List α → Parts sep
  | [] => (⟨[], List.not_mem_nil⟩, [])
  | a :: t => (parts t).before a

def names (t : List α) : List (Name sep) := (parts t).named

@[simp] lemma names_sep_cons (t : List α) : (names (sep :: t) : List (Name sep)) = names t := by
  simp [names, parts, Parts.named, Parts.before]

lemma parts_append (s t : List α) :
    (parts (s ++ sep :: t) : Parts sep) = ((parts s).1, (parts s).2 ++ names t) := by
  induction s with
  | nil => simp [parts, names, Parts.before]
  | cons a s ih =>
    rw [List.cons_append, parts, parts, ih]
    simp only [Parts.before, Parts.named]
    split
    · split <;> rfl
    · rfl

theorem names_append (s t : List α) :
    (names (s ++ sep :: t) : List (Name sep)) = names s ++ names t := by
  rw [names, parts_append]
  simp only [names, Parts.named]
  split <;> rfl

variable {s w : List α}

lemma parts_of_notMem (h : sep ∉ w) : parts w = (⟨w, h⟩, []) := by
  induction w with
  | nil => rfl
  | cons a w ih =>
    simp only [List.mem_cons, not_or] at h
    rw [parts, ih h.2, Parts.before, dif_neg (Ne.symm h.1)]

@[simp] lemma names_text (n : Name sep) : names n.text = [n] := by
  rw [names, parts_of_notMem n.sep_notMem, Parts.named, dif_neg n.ne_nil]

lemma names_concat (s : List α) (n : Name sep) : names (s ++ sep :: n.text) = names s ++ [n] := by
  rw [names_append, names_text]

@[simp] lemma names_joined (ps : List (Name sep)) : names (joined ps) = ps := by
  induction ps using List.reverseRecOn with
  | nil => rfl
  | append_singleton ps n ih => rw [joined_concat, names_concat, ih]

def beforeLast (sep : α) (t : List α) : List α :=
  (t.reverse.dropWhile (· ≠ sep)).tail.reverse

lemma dropWhile_of_notMem (h : sep ∉ w) : (w ++ s).dropWhile (· ≠ sep) = s.dropWhile (· ≠ sep) := by
  apply List.dropWhile_append_of_pos
  intro a ha
  exact decide_eq_true fun heq => h (heq ▸ ha)

lemma beforeLast_append (h : sep ∉ w) : beforeLast sep (s ++ sep :: w) = s := by
  have hrev : (s ++ sep :: w).reverse = w.reverse ++ sep :: s.reverse := by simp
  rw [beforeLast, hrev, dropWhile_of_notMem (by simpa using h)]
  simp

lemma beforeLast_of_notMem (h : sep ∉ w) : beforeLast sep w = [] := by
  have hall := dropWhile_of_notMem (s := []) (w := w.reverse) (by simpa using h)
  rw [List.append_nil] at hall
  rw [beforeLast, hall]
  rfl

/-- What stands behind the last separator of a text, and all of it without one. -/
def afterLast (sep : α) (t : List α) : List α := (t.reverse.takeWhile (· ≠ sep)).reverse

lemma afterLast_append (h : sep ∉ w) : afterLast sep (s ++ w) = afterLast sep s ++ w := by
  have hall : ∀ a ∈ w.reverse, decide (a ≠ sep) = true := by
    intro a ha
    exact decide_eq_true fun heq => h (heq ▸ List.mem_reverse.mp ha)
  rw [afterLast, List.reverse_append, List.takeWhile_append_of_pos hall, List.reverse_append,
    List.reverse_reverse, afterLast]

lemma afterLast_sep (h : sep ∉ w) : afterLast sep (s ++ sep :: w) = w := by
  rw [← List.singleton_append, ← List.append_assoc, afterLast_append h]
  simp [afterLast]

lemma exists_last (sep : α) (t : List α) : sep ∉ t ∨ ∃ s w, sep ∉ w ∧ t = s ++ sep :: w := by
  induction t with
  | nil => exact Or.inl List.not_mem_nil
  | cons a t ih =>
    rcases ih with h | ⟨s, w, hw, rfl⟩
    · by_cases ha : a = sep
      · exact Or.inr ⟨[], t, h, by rw [ha, List.nil_append]⟩
      · exact Or.inl (List.not_mem_cons_of_ne_of_not_mem (Ne.symm ha) h)
    · exact Or.inr ⟨a :: s, w, hw, rfl⟩

lemma names_of_notMem (h : sep ∉ w) (hne : w ≠ []) : names w = [(⟨w, hne, h⟩ : Name sep)] :=
  names_text ⟨w, hne, h⟩

/-- **The parent of a path that does not end with a separator.** -/
theorem names_beforeLast {t : List α} (h : t.getLast? ≠ some sep) :
    names (beforeLast sep t) = (names t : List (Name sep)).dropLast := by
  rcases exists_last sep t with hnot | ⟨s, w, hw, rfl⟩
  · rw [beforeLast_of_notMem hnot]
    cases t with
    | nil => rfl
    | cons a t =>
      rw [names_of_notMem hnot (List.cons_ne_nil a t)]
      rfl
  · have hne : w ≠ [] := by
      rintro rfl
      simp at h
    rw [beforeLast_append hw, names_append, names_of_notMem hw hne, List.dropLast_concat]

end Names

end KioExtras.Lib.Paths
