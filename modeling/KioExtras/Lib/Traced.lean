import KioExtras.Lib.Stream

/-!
Programs with a record of what they do. The record is kept where the program fails, too; without
it, it is a program like others.
-/

namespace KioExtras.Lib.Stream

open Program

/-- What is recorded comes first. -/
def Traced (ε α : Type) := Streams → List ε × Option α × Streams

namespace Traced

variable {ε α β : Type}

instance : Monad (Traced ε) where
  pure a := fun s => ([], some a, s)
  bind x f := fun s => match x s with
    | (events, none, t) => (events, none, t)
    | (events, some a, t) => (events ++ (f a t).1, (f a t).2)

def program (x : Traced ε α) : Program α := fun s => (x s).2

def note (e : ε) : Traced ε Unit := fun s => ([e], some (), s)

/-- Nothing is recorded. -/
def lift (x : Program α) : Traced ε α := fun s => ([], x s)

section program

variable {x : Traced ε α} {f : α → Traced ε β}

@[simp] lemma program_pure (a : α) : (pure a : Traced ε α).program = pure a := rfl

@[simp] lemma program_note (e : ε) : (note e).program = pure () := rfl

@[simp] lemma program_lift (x : Program α) : (lift x : Traced ε α).program = x := rfl

@[simp] lemma program_bind : (x >>= f).program = x.program >>= fun a => (f a).program := by
  funext s
  simp only [program, bind]
  rcases x s with ⟨events, _ | a, t⟩ <;> rfl

lemma program_foldlM (f : β → α → Traced ε β) (l : List α) (b : β) :
    (l.foldlM f b).program = l.foldlM (fun b a => (f b a).program) b := by
  induction l generalizing b with
  | nil => rfl
  | cons a l ih =>
    rw [List.foldlM_cons, List.foldlM_cons, program_bind]
    simp only [ih]

end program

/-! ### What is recorded -/

/-- All that is recorded is of a kind. -/
def Every (P : ε → Prop) (x : Traced ε α) (s : Streams) : Prop := ∀ e ∈ (x s).1, P e

section every

variable {P : ε → Prop} {x : Traced ε α} {f : α → Traced ε β} {s t : Streams} {a : α}

@[simp] lemma every_pure (a : α) : Every P (pure a) s := fun _ h => absurd h List.not_mem_nil

@[simp] lemma every_lift (x : Program α) : Every P (lift x) s :=
  fun _ h => absurd h List.not_mem_nil

@[simp] lemma every_note {e : ε} : Every P (note e) s ↔ P e := by
  simp [Every, note]

lemma every_bind : Every P (x >>= f) s ↔
    Every P x s ∧ ∀ a t, x.program.Gives s a t → Every P (f a) t := by
  have hbind : (x >>= f) s = match x s with
    | (events, none, t) => (events, none, t)
    | (events, some a, t) => (events ++ (f a t).1, (f a t).2) := rfl
  unfold Every Gives program
  rw [hbind]
  rcases x s with ⟨events, _ | a, t⟩
  · simp
  · simp only [List.mem_append, Prod.mk.injEq, Option.some.injEq]
    constructor
    · intro h
      refine ⟨fun e he => h e (Or.inl he), ?_⟩
      rintro _ _ ⟨rfl, rfl⟩ e he
      exact h e (Or.inr he)
    · rintro ⟨hx, hf⟩ e (he | he)
      · exact hx e he
      · exact hf a t ⟨rfl, rfl⟩ e he

lemma every_bind_of_gives (h : x.program.Gives s a t) :
    Every P (x >>= f) s ↔ Every P x s ∧ Every P (f a) t := by
  rw [every_bind]
  refine and_congr_right fun _ => ⟨fun hf => hf a t h, ?_⟩
  rintro hf b u hb
  obtain ⟨rfl, rfl⟩ := h.unique hb
  exact hf

lemma every_lift_bind {x : Program α} (h : x.Gives s a t) :
    Every P (lift x >>= f) s ↔ Every P (f a) t := by
  rw [every_bind_of_gives (x := lift x) h]
  exact and_iff_right (every_lift x)

lemma every_pure_bind (h : x.program = pure a) :
    Every P (x >>= f) s ↔ Every P x s ∧ Every P (f a) s :=
  every_bind_of_gives (by rw [h]; exact gives_pure.mpr ⟨rfl, rfl⟩)

lemma every_bind_pure {g : α → β} : Every P (x >>= fun a => pure (g a)) s ↔ Every P x s := by
  simp [every_bind]

lemma every_foldlM {f : β → α → Traced ε β} (hf : ∀ b a s, Every P (f b a) s) (l : List α)
    (b : β) (s : Streams) : Every P (l.foldlM f b) s := by
  induction l generalizing b s with
  | nil => exact every_pure b
  | cons a l ih =>
    rw [List.foldlM_cons, every_bind]
    exact ⟨hf b a s, fun c t _ => ih c t⟩

lemma every_foldlM_of_gives {f : β → α → Traced ε β} {Q : α → Prop}
    (hf : ∀ b a s c t, (f b a).program.Gives s c t → (Every P (f b a) s ↔ Q a)) {l : List α}
    {b c : β} {s t : Streams} (h : (l.foldlM f b).program.Gives s c t) :
    Every P (l.foldlM f b) s ↔ ∀ a ∈ l, Q a := by
  induction l generalizing b s with
  | nil => exact iff_of_true (every_pure b) fun _ h => absurd h List.not_mem_nil
  | cons a l ih =>
    rw [List.foldlM_cons, program_bind] at h
    obtain ⟨d, u, hd, hrest⟩ := gives_bind.mp h
    rw [List.foldlM_cons, every_bind_of_gives hd, hf b a s d u hd, ih hrest,
      List.forall_mem_cons]

end every

end Traced

end KioExtras.Lib.Stream
