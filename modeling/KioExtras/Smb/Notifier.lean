import Mathlib.Data.List.Basic
import Mathlib.Data.Nat.Notation
import Mathlib.Tactic.Common

/-!
The notifier of the SMB module: what it makes of the changes a server tells of.

libsmbclient hands the changes over in batches, one call of `notify` for each. The state of the
two helpers outlives a call, that of a move does not.
-/

namespace KioExtras.Smb.Notifier

inductive Action
  | ADDED
  | REMOVED
  | MODIFIED
  | OLD_NAME
  | NEW_NAME
  | ADDED_STREAM
  | REMOVED_STREAM
  | MODIFIED_STREAM
  | other (n : ℕ)
  deriving DecidableEq

/-- The signals of `KDirNotify`, with the path of each URL; an empty URL has the empty path. -/
inductive Signal
  | FilesAdded (dir : String)
  | FilesRemoved (url : String)
  | FilesChanged (url : String)
  | FileRenamed (src dst : String)
  deriving DecidableEq

structure MoveAction where
  src : String
  dst : String

def MoveAction.empty : MoveAction := ⟨"", ""⟩

/-- A table of `ModificationLimiter`: when the timer of a URL was started. -/
abbrev Limiter := List (String × ℕ)

structure Qt where
  order : Limiter → Limiter
  order_perm : ∀ limiter, (order limiter).Perm limiter

/-- `pendingRemove` is the URL that is kept back, empty when there is none. -/
structure NotifyContext where
  url : String
  limiter : Limiter
  pendingRemove : String

/-- What comes: an action the server tells of, with the time, or the timer of `PendingRemove`. -/
inductive Input
  | action (action : Action) (filename : String) (now : ℕ)
  | timeout

def m_timelimit : ℕ := 8000
def m_cap : ℕ := 4

section notify

variable (qt : Qt)

/-! ### The two helpers -/

def forget (limiter : Limiter) (url : String) : Limiter :=
  limiter.filter fun entry => entry.1 ≠ url

/-- The timer that has run longest goes, the first of them in the order of the table. -/
def makeSpace (limiter : Limiter) (now : ℕ) : Limiter :=
  match qt.order limiter with
  | [] => limiter
  | first :: rest =>
    let oldest := rest.foldl
      (fun oldest entry => if now - oldest.2 < now - entry.2 then entry else oldest) first
    forget limiter oldest.1

def modified (limiter : Limiter) (url : String) (now : ℕ) : Limiter × List Signal :=
  match limiter.lookup url with
  | some started =>
    if now - started ≤ m_timelimit then (limiter, [])
    else ((url, now) :: forget limiter url, [.FilesChanged url])
  | none =>
    let limiter := if m_cap < limiter.length then makeSpace qt limiter now else limiter
    ((url, now) :: limiter, [.FilesChanged url])

/-- `sendWithLock`: the URL kept back after it, and the signal. -/
def send (pendingRemove : String) : String × List Signal :=
  if pendingRemove = "" then ("", []) else ("", [.FilesRemoved pendingRemove])

def newEventFor (pendingRemove : String) (action : Action) (url : String) : String × List Signal :=
  if pendingRemove = "" then ("", [])
  else if action = .OLD_NAME ∧ url = pendingRemove then ("", [])
  else send pendingRemove

/-! ### The callback -/

/-- What comes before the switch. -/
def arrive (context : NotifyContext) (action : Action) (url : String) :
    NotifyContext × List Signal :=
  let limiter := if action ≠ .MODIFIED then forget context.limiter url else context.limiter
  let (pendingRemove, signals) := newEventFor context.pendingRemove action url
  ({ context with limiter := limiter, pendingRemove := pendingRemove }, signals)

/-- The switch. -/
def dispatch (context : NotifyContext) (pendingMove : MoveAction) (action : Action) (url : String)
    (now : ℕ) : NotifyContext × MoveAction × List Signal :=
  match action with
  | .ADDED => (context, pendingMove, [.FilesAdded context.url])
  | .REMOVED => ({ context with pendingRemove := url }, pendingMove, [])
  | .MODIFIED =>
    let (limiter, signals) := modified qt context.limiter url now
    ({ context with limiter := limiter }, pendingMove, signals)
  | .OLD_NAME => (context, { pendingMove with src := url }, [])
  | .NEW_NAME => (context, .empty, [.FileRenamed pendingMove.src url])
  | .ADDED_STREAM => (context, pendingMove, [])
  | .REMOVED_STREAM => (context, pendingMove, [])
  | .MODIFIED_STREAM => (context, pendingMove, [])
  | .other _ => (context, pendingMove, [])

def handle (context : NotifyContext) (pendingMove : MoveAction) :
    Input → NotifyContext × MoveAction × List Signal
  | .action action filename now =>
    let url := context.url ++ "/" ++ filename
    let (context, signals) := arrive context action url
    let (context, pendingMove, more) := dispatch qt context pendingMove action url now
    (context, pendingMove, signals ++ more)
  | .timeout =>
    let (pendingRemove, signals) := send context.pendingRemove
    ({ context with pendingRemove := pendingRemove }, pendingMove, signals)

def loop (context : NotifyContext) (pendingMove : MoveAction) :
    List Input → NotifyContext × List Signal
  | [] => (context, [])
  | input :: inputs =>
    let (context, pendingMove, signals) := handle qt context pendingMove input
    let (context, more) := loop context pendingMove inputs
    (context, signals ++ more)

/-- A call of the callback. -/
def notify (context : NotifyContext) (batch : List Input) : NotifyContext × List Signal :=
  loop qt context .empty batch

/-- One call for each batch. -/
def notifyAll (context : NotifyContext) : List (List Input) → NotifyContext × List Signal
  | [] => (context, [])
  | batch :: batches =>
    let (context, signals) := notify qt context batch
    let (context, more) := notifyAll context batches
    (context, signals ++ more)

end notify

/-! ### The order of a server -/

/-- A new name comes after an old name, with no other old name between; `waiting` says that an
old name has come. -/
def Valid : Bool → List Input → Prop
  | _, [] => True
  | waiting, .timeout :: inputs => Valid waiting inputs
  | waiting, .action action _ _ :: inputs =>
    match action with
    | .OLD_NAME => waiting = false ∧ Valid true inputs
    | .NEW_NAME => waiting = true ∧ Valid false inputs
    | _ => Valid waiting inputs

/-- Whether an old name waits for the new one. -/
def waits : Bool → List Input → Bool
  | waiting, [] => waiting
  | waiting, .timeout :: inputs => waits waiting inputs
  | waiting, .action action _ _ :: inputs =>
    match action with
    | .OLD_NAME => waits true inputs
    | .NEW_NAME => waits false inputs
    | _ => waits waiting inputs

variable {inputs : List Input} {waiting : Bool}

lemma valid_append {rest : List Input} :
    Valid waiting (inputs ++ rest) ↔ Valid waiting inputs ∧ Valid (waits waiting inputs) rest := by
  induction inputs generalizing waiting with
  | nil => simp [Valid, waits]
  | cons input inputs ih =>
    cases input with
    | timeout => exact ih
    | action action filename now =>
      cases action with
      | OLD_NAME =>
        simp only [List.cons_append, Valid, waits, ih, and_assoc]
      | NEW_NAME =>
        simp only [List.cons_append, Valid, waits, ih, and_assoc]
      | _ => exact ih

/-! ### What a move leaves behind -/

variable (qt : Qt)

variable (context : NotifyContext)

lemma handle_context (move move' : MoveAction) (input : Input) :
    (handle qt context move input).1 = (handle qt context move' input).1 := by
  cases input with
  | timeout => rfl
  | action action filename now => cases action <;> rfl

lemma handle_length (move move' : MoveAction) (input : Input) :
    (handle qt context move input).2.2.length = (handle qt context move' input).2.2.length := by
  cases input with
  | timeout => rfl
  | action action filename now => cases action <;> simp [handle, dispatch]

lemma loop_context (move move' : MoveAction) (inputs : List Input) :
    (loop qt context move inputs).1 = (loop qt context move' inputs).1 ∧
      (loop qt context move inputs).2.length = (loop qt context move' inputs).2.length := by
  induction inputs generalizing context move move' with
  | nil => exact ⟨rfl, rfl⟩
  | cons input inputs ih =>
    have hcontext := handle_context qt context move move' input
    have hlength := handle_length qt context move move' input
    obtain ⟨hrest, hrestlen⟩ := ih (handle qt context move' input).1
      (handle qt context move input).2.1 (handle qt context move' input).2.1
    simp only [loop, List.length_append, hcontext, hlength]
    exact ⟨hrest, congrArg _ hrestlen⟩

/-- The loop is left with an old name exactly if one waits. -/
def moveAfter (context : NotifyContext) (move : MoveAction) : List Input → MoveAction
  | [] => move
  | input :: inputs =>
    moveAfter (handle qt context move input).1 (handle qt context move input).2.1 inputs

lemma loop_append (move : MoveAction) (inputs rest : List Input) :
    loop qt context move (inputs ++ rest) = let (context', signals) := loop qt context move inputs
      let (context'', more) := loop qt context' (moveAfter qt context move inputs) rest
      (context'', signals ++ more) := by
  induction inputs generalizing context move with
  | nil => simp [loop, moveAfter]
  | cons input inputs ih =>
    simp only [List.cons_append, loop, moveAfter, ih, List.append_assoc]

lemma url_ne (filename : String) : context.url ++ "/" ++ filename ≠ "" := by
  intro h
  have hlen := congrArg String.length h
  simp only [String.length_append] at hlen
  have hslash : "/".length = 1 := rfl
  have hempty : "".length = 0 := rfl
  omega

/-- A move that is pending has the old name, and one that is not is empty. -/
def Pending (waiting : Bool) (move : MoveAction) : Prop :=
  move.dst = "" ∧ (waiting = true → move.src ≠ "") ∧ (waiting = false → move.src = "")

lemma Pending.eq_empty {move : MoveAction} (h : Pending false move) : move = .empty := by
  obtain ⟨src, dst⟩ := move
  obtain ⟨rfl, -, hsrc⟩ := h
  obtain rfl : src = "" := hsrc rfl
  rfl

lemma pending_empty : Pending false .empty := ⟨rfl, by simp, fun _ => rfl⟩

lemma pending_moveAfter {move : MoveAction} (h : Pending waiting move) (inputs : List Input) :
    Pending (waits waiting inputs) (moveAfter qt context move inputs) := by
  induction inputs generalizing context move waiting with
  | nil => exact h
  | cons input inputs ih =>
    cases input with
    | timeout => exact ih _ h
    | action action filename now =>
      cases action with
      | OLD_NAME =>
        have hmove : Pending true { move with src := context.url ++ "/" ++ filename } :=
          ⟨h.1, fun _ => url_ne context filename, by simp⟩
        exact ih _ hmove
      | NEW_NAME => exact ih _ pending_empty
      | _ => exact ih _ h

/-- **A batch that begins with an old name waiting**: what is emitted is the same as with none
waiting exactly if the batch is valid on its own, that is if it holds no new name before the next
old name. -/
lemma loop_lost {move : MoveAction} (hmove : Pending true move) (hvalid : Valid true inputs) :
    (loop qt context move inputs).2 = (loop qt context .empty inputs).2 ↔ Valid false inputs := by
  induction inputs generalizing context with
  | nil => simp [loop, Valid]
  | cons input inputs ih =>
    cases input with
    | timeout =>
      have hrest := ih (handle qt context move .timeout).1 hvalid
      simp only [loop, Valid]
      rw [← hrest]
      exact List.append_right_inj _
    | action action filename now =>
      cases action with
      | OLD_NAME => exact absurd hvalid.1 (by simp)
      | NEW_NAME =>
        refine iff_of_false ?_ (fun h => absurd h.1 (by simp))
        intro heq
        simp only [loop, handle, dispatch, MoveAction.empty] at heq
        rw [List.append_assoc, List.append_assoc] at heq
        have hhead := List.append_cancel_left heq
        simp only [List.singleton_append, List.cons.injEq, Signal.FileRenamed.injEq] at hhead
        exact hmove.2.1 rfl hhead.1.1
      | _ =>
        simp only [loop, Valid, handle, dispatch] at hvalid ⊢
        rw [← ih _ hvalid]
        exact List.append_right_inj _

lemma notifyAll_iff {move : MoveAction} (hmove : Pending waiting move) {batches : List (List Input)}
    (hvalid : Valid waiting batches.flatten) :
    (loop qt context move batches.flatten).2 = (notifyAll qt context batches).2 ↔
      ∀ batch ∈ batches, Valid false batch := by
  induction batches generalizing context move waiting with
  | nil => simp [loop, notifyAll]
  | cons batch batches ih =>
    rw [List.flatten_cons, valid_append] at hvalid
    have hrest := ih (loop qt context move batch).1 (pending_moveAfter qt context hmove batch)
      hvalid.2
    obtain ⟨hcontext, hlength⟩ := loop_context qt context move .empty batch
    have hhere : (loop qt context move batch).2 = (loop qt context .empty batch).2 ↔
        Valid false batch := by
      cases waiting with
      | true => exact loop_lost qt context hmove hvalid.1
      | false =>
        rw [hmove.eq_empty]
        exact iff_of_true rfl hvalid.1
    rw [List.flatten_cons, loop_append]
    simp only [notifyAll, notify, List.forall_mem_cons]
    rw [← hcontext, ← hhere, ← hrest]
    constructor
    · intro heq
      exact List.append_inj heq hlength
    · rintro ⟨hfirst, hmore⟩
      rw [hfirst, hmore]

/-- **How the actions are split into batches does not matter, if and only if no split parts an
old name from its new name**: each batch, taken for itself, is in a valid order. -/
theorem notify_split_iff (qt : Qt) (context : NotifyContext) (batches : List (List Input))
    (hvalid : Valid false batches.flatten) :
    (notifyAll qt context batches).2 = (notifyAll qt context [batches.flatten]).2 ↔
      ∀ batch ∈ batches, Valid false batch := by
  rw [← notifyAll_iff qt context pending_empty hvalid, eq_comm]
  simp [notifyAll, notify]

/-- A table that is gone through from its front. -/
def frontFirst : Qt := ⟨id, fun limiter => List.Perm.refl limiter⟩

def shareContext : NotifyContext := ⟨"/share", [], ""⟩

def renamed : List Input := [.action .OLD_NAME "a" 0, .action .NEW_NAME "b" 0]

theorem notify_split_renamed :
    (notifyAll frontFirst shareContext [[.action .ADDED "a" 0], renamed]).2 =
      (notifyAll frontFirst shareContext [[.action .ADDED "a" 0] ++ renamed]).2 := by
  have hvalid : Valid false [[Input.action .ADDED "a" 0], renamed].flatten := ⟨rfl, rfl, trivial⟩
  refine (notify_split_iff frontFirst shareContext [[.action .ADDED "a" 0], renamed] hvalid).mpr ?_
  simp [Valid, renamed]

/-- Parted, the two names make a move from nowhere. -/
theorem notify_split_parted : ¬ ∀ (qt : Qt) (context : NotifyContext)
    (batches : List (List Input)), Valid false batches.flatten →
    (notifyAll qt context batches).2 = (notifyAll qt context [batches.flatten]).2 := by
  intro hall
  have heq := hall frontFirst shareContext
    [[.action .OLD_NAME "a" 0], [.action .NEW_NAME "b" 0]] ⟨rfl, rfl, trivial⟩
  have hparted : (notifyAll frontFirst shareContext
      [[.action .OLD_NAME "a" 0], [.action .NEW_NAME "b" 0]]).2 = [.FileRenamed "" "/share/b"] := by
    decide
  have hwhole : (notifyAll frontFirst shareContext
      [[[Input.action .OLD_NAME "a" 0], [.action .NEW_NAME "b" 0]].flatten]).2 =
        [.FileRenamed "/share/a" "/share/b"] := by
    decide
  rw [hparted, hwhole] at heq
  exact absurd heq (by decide)

end KioExtras.Smb.Notifier
