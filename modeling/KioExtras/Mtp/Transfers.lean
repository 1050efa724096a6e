import KioExtras.Lib.Run
import KioExtras.Lib.Stream
import Mathlib.Logic.Function.Basic

/-!
Transfers of several workers on one storage of a device, through the daemon.

The daemon answers a request at once and makes the transfer later, from a timer. It sends its
signals to every worker that has an interface of the storage; a worker finds them in the order in
which they were sent, when it runs an event loop.
-/

namespace KioExtras.Mtp

open KioExtras.Lib.Run KioExtras.Lib.Stream

/-- The signals of a storage. They do not name the transfer that they belong to. -/
inductive Signal
  | dataReady (data : Bytes)
  | copyProgress (sent total : ℕ)
  | copyFinished (result : ℤ)
  deriving DecidableEq

/-- What a transfer comes to: the signals that are sent while the library works, and its result.
It may be one of `getFileToHandler`. -/
structure Transfer where
  toHandler : Bool
  body : List Signal
  result : ℤ
  goesOn : ∀ signal ∈ body, ∀ r, signal ≠ .copyFinished r

def dataOf (signals : List Signal) : Bytes :=
  signals.flatMap fun
    | .dataReady data => data
    | _ => []

namespace Transfer

variable (t : Transfer)

def signals : List Signal := t.body ++ [.copyFinished t.result]

/-- What `getFileToHandler` reads from the device. -/
def content : Bytes := dataOf t.body

end Transfer

/-- A transfer that was asked for. The number only tells the requests apart. -/
structure Job where
  id : ℕ
  transfer : Transfer

/-- The event loop of a worker that waits, with what it has passed on: the data in `get`, the
progress in `waitForCopyOperation`. -/
structure Wait extends Job where
  data : Bytes
  processedSize : ℕ

structure Ended extends Wait where
  returned : ℤ

/-- The daemon has timers and, while the library works, the signals that are still to come. The
numbers of the finished transfers and the ended waits are kept for what is said of them. -/
structure State (ι : Type) where
  next : ℕ
  timers : List Job
  running : Option (Job × List Signal)
  queue : ι → List Signal
  waiting : ι → Option Wait
  finished : List ℕ
  ended : List Ended

inductive Label (ι : Type)
  | request (w : ι) (t : Transfer)
  | start (i : ℕ)
  | emit
  | deliver (w : ι)

section

variable {ι : Type}

def State.initial : State ι := ⟨0, [], none, fun _ => [], fun _ => none, [], []⟩

/-- What the wait of a worker does with a signal: `none` when its loop exits. -/
def Wait.hears (wait : Wait) : Signal → Wait ⊕ Ended
  | .dataReady data =>
    .inl (if wait.transfer.toHandler then { wait with data := wait.data ++ data } else wait)
  | .copyProgress sent _ =>
    .inl (if wait.transfer.toHandler then wait else { wait with processedSize := sent })
  | .copyFinished result => .inr { wait with returned := result }

variable [DecidableEq ι]

def step (s : State ι) : Label ι → Option (State ι)
  | .request w t =>
    -- the daemon takes no call while the library works
    if s.running.isNone && (s.waiting w).isNone then
      some { s with
        next := s.next + 1
        timers := s.timers ++ [⟨s.next, t⟩]
        waiting := Function.update s.waiting w (some ⟨⟨s.next, t⟩, [], 0⟩) }
    else none
  | .start i =>
    match s.running, s.timers[i]? with
    | none, some job =>
      some { s with
        timers := s.timers.eraseIdx i
        running := some (job, job.transfer.signals) }
    | _, _ => none
  | .emit =>
    match s.running with
    | some (job, signal :: rest) =>
      some { s with
        running := if rest = [] then none else some (job, rest)
        queue := fun w => s.queue w ++ [signal]
        finished := if rest = [] then s.finished ++ [job.id] else s.finished }
    | _ => none
  | .deliver w =>
    match s.queue w with
    | [] => none
    | signal :: rest =>
      let s := { s with queue := Function.update s.queue w rest }
      match s.waiting w with
      | none => some s
      | some wait =>
        match wait.hears signal with
        | .inl wait => some { s with waiting := Function.update s.waiting w (some wait) }
        | .inr ended =>
          some { s with
            waiting := Function.update s.waiting w none
            ended := s.ended ++ [ended] }

end

variable {ι : Type}

/-- Each wait that has ended did so after its own transfer had finished, with its result, and `get`
passed on just what it had asked for. -/
def State.Right (s : State ι) : Prop :=
  ∀ e ∈ s.ended, e.id ∈ s.finished ∧ e.returned = e.transfer.result ∧
    (e.transfer.toHandler = true → e.data = e.transfer.content)

/-- A transfer is asked for only when no other one is pending, by a worker that has no signals of
others left. -/
def Alone (s : State ι) : Label ι → Prop
  | .request w _ => s.timers = [] ∧ s.queue w = []
  | _ => True

/-! ### What a waiting worker will hear -/

section

variable {ι : Type}

/-- The signals of a transfer that are still to be sent. -/
def State.left (s : State ι) (id : ℕ) : List Signal :=
  match s.running with
  | some (job, rest) => if job.id = id then rest else []
  | none => (s.timers.filter fun job => job.id = id).flatMap fun job => job.transfer.signals

/-- What the worker has heard, what is in its queue and what is still to come is the whole of its
transfer, with the signals of others only after it. -/
structure Hears (s : State ι) (w : ι) (wait : Wait) : Prop where
  id_lt : wait.id < s.next
  signals : ∃ taken later, taken ++ s.queue w ++ s.left wait.id = wait.transfer.signals ++ later ∧
    (s.left wait.id ≠ [] → later = []) ∧ taken <+: wait.transfer.body ∧
    (wait.transfer.toHandler = true → wait.data = dataOf taken)
  finished : s.left wait.id = [] → wait.id ∈ s.finished

structure Inv (s : State ι) : Prop where
  one : s.timers = [] ∨ ∃ job, s.timers = [job] ∧ s.running = none
  hears : ∀ w wait, s.waiting w = some wait → Hears s w wait
  right : s.Right

variable {signal : Signal} {t : Transfer} {wait : Wait}

lemma next_signal {taken queue left later : List Signal}
    (h : taken ++ signal :: queue ++ left = t.signals ++ later) (htaken : taken <+: t.body) :
    taken ++ [signal] <+: t.body ∨
      taken = t.body ∧ signal = .copyFinished t.result ∧ queue ++ left = later := by
  obtain ⟨rest, hrest⟩ := htaken
  rw [Transfer.signals, ← hrest, List.append_assoc, List.append_assoc, List.append_assoc,
    List.append_cancel_left_eq] at h
  cases rest with
  | nil =>
    simp only [List.cons_append, List.nil_append, List.cons.injEq] at h
    exact Or.inr ⟨by simpa using hrest, h.1, h.2⟩
  | cons c rest =>
    simp only [List.cons_append, List.cons.injEq] at h
    refine Or.inl ⟨rest, ?_⟩
    rw [h.1, List.append_assoc, ← hrest]
    rfl

variable {s s' : State ι}

lemma Hears.of_eq {w : ι} (h : Hears s w wait) (hnext : s.next ≤ s'.next)
    (hqueue : s'.queue w = s.queue w) (hleft : s'.left wait.id = s.left wait.id)
    (hfinished : s.finished ⊆ s'.finished) : Hears s' w wait := by
  refine ⟨Nat.lt_of_lt_of_le h.id_lt hnext, ?_, fun hnil => hfinished (h.finished (hleft ▸ hnil))⟩
  rw [hqueue, hleft]
  exact h.signals

lemma hears_inl {wait' : Wait} (h : wait.hears signal = .inl wait') :
    wait'.toJob = wait.toJob ∧ (∀ r, signal ≠ .copyFinished r) ∧
      (wait.transfer.toHandler = true → wait'.data = wait.data ++ dataOf [signal]) := by
  cases signal with
  | dataReady data =>
    simp only [Wait.hears, Sum.inl.injEq] at h
    subst h
    refine ⟨by split_ifs <;> rfl, by simp, fun hto => ?_⟩
    simp [hto, dataOf]
  | copyProgress sent total =>
    simp only [Wait.hears, Sum.inl.injEq] at h
    subst h
    refine ⟨by split_ifs <;> rfl, by simp, fun hto => ?_⟩
    simp [hto, dataOf]
  | copyFinished r => simp [Wait.hears] at h

lemma hears_inr {ended : Ended} (h : wait.hears signal = .inr ended) :
    signal = .copyFinished ended.returned ∧ wait = ended.toWait := by
  cases signal with
  | dataReady | copyProgress => simp [Wait.hears] at h
  | copyFinished r =>
    simp only [Wait.hears, Sum.inr.injEq] at h
    subst h
    exact ⟨rfl, rfl⟩

lemma State.Right.mono (h : s.Right) (hended : s'.ended = s.ended)
    (hfinished : s.finished ⊆ s'.finished) : s'.Right := by
  intro e he
  obtain ⟨hid, hrest⟩ := h e (hended ▸ he)
  exact ⟨hfinished hid, hrest⟩

lemma initial_inv : Inv (State.initial : State ι) :=
  ⟨Or.inl rfl, fun _ _ h => by simp [State.initial] at h, fun _ h => by simp [State.initial] at h⟩

variable [DecidableEq ι]

lemma request_inv {w : ι} (hs : Inv s) (halone : s.timers = [] ∧ s.queue w = [])
    (h : step s (.request w t) = some s') : Inv s' := by
  simp only [step] at h
  split_ifs at h with hfree
  simp only [Bool.and_eq_true, Option.isNone_iff_eq_none] at hfree
  obtain ⟨hrunning, hwaiting⟩ := hfree
  obtain rfl := Option.some.inj h
  refine ⟨Or.inr ⟨⟨s.next, t⟩, by simp [halone.1], hrunning⟩, ?_, hs.right.mono rfl fun _ h => h⟩
  intro v wait hv
  have hold : ∀ id, s.left id = [] := by
    intro id
    simp [State.left, hrunning, halone.1]
  by_cases hvw : v = w
  · -- the worker itself: all its signals are to come
    subst hvw
    simp only [Function.update_self, Option.some.injEq] at hv
    subst hv
    have hnew : State.left { s with
        next := s.next + 1
        timers := s.timers ++ [⟨s.next, t⟩]
        waiting := Function.update s.waiting v (some ⟨⟨s.next, t⟩, [], 0⟩) } s.next =
          t.signals := by
      simp [State.left, hrunning, halone.1]
    refine ⟨Nat.lt_succ_self _, ⟨[], [], ?_, fun _ => rfl, List.nil_prefix, fun _ => rfl⟩, ?_⟩
    · simp [hnew, halone.2]
    · intro hnil
      rw [hnew] at hnil
      simp [Transfer.signals] at hnil
  · simp only [Function.update_of_ne hvw] at hv
    have hears := hs.hears v wait hv
    refine hears.of_eq (Nat.le_succ _) rfl ?_ fun _ h => h
    have hne : ¬ s.next = wait.id := fun heq => Nat.lt_irrefl _ (heq ▸ hears.id_lt)
    rw [hold]
    simp [State.left, hrunning, halone.1, hne]

lemma start_inv {i : ℕ} (hs : Inv s) (h : step s (.start i) = some s') : Inv s' := by
  simp only [step] at h
  cases hrunning : s.running with
  | some r => simp [hrunning] at h
  | none =>
    rcases hs.one with hnil | ⟨job, hjob, -⟩
    · simp [hrunning, hnil] at h
    · cases i with
      | succ i => simp [hrunning, hjob] at h
      | zero =>
        simp only [hrunning, hjob, List.getElem?_cons_zero, Option.some.injEq] at h
        subst h
        refine ⟨Or.inl rfl, fun w wait hw => ?_, hs.right.mono rfl fun _ h => h⟩
        refine (hs.hears w wait hw).of_eq (Nat.le_refl _) rfl ?_ fun _ h => h
        by_cases hid : job.id = wait.id <;> simp [State.left, hrunning, hjob, hid]

lemma emit_inv (hs : Inv s) (h : step s .emit = some s') : Inv s' := by
  simp only [step] at h
  cases hrunning : s.running with
  | none => simp [hrunning] at h
  | some r =>
    obtain ⟨job, left⟩ := r
    cases left with
    | nil => simp [hrunning] at h
    | cons signal rest =>
      simp only [hrunning, Option.some.injEq] at h
      have htimers : s.timers = [] := by
        rcases hs.one with hnil | ⟨j, -, hnone⟩
        · exact hnil
        · rw [hrunning] at hnone
          cases hnone
      have hsub : s.finished ⊆ s'.finished := by
        subst h
        intro id hid
        show id ∈ if rest = [] then s.finished ++ [job.id] else s.finished
        split_ifs
        · exact List.mem_append_left _ hid
        · exact hid
      have hleft : ∀ id, s'.left id = if job.id = id then rest else [] := by
        intro id
        subst h
        by_cases hrest : rest = []
        · simp [State.left, htimers, hrest]
        · simp [State.left, hrest]
      have hqueue : ∀ w, s'.queue w = s.queue w ++ [signal] := fun w => by subst h; rfl
      have hwaiting : s'.waiting = s.waiting := by subst h; rfl
      have hnext : s'.next = s.next := by subst h; rfl
      refine ⟨Or.inl (by subst h; exact htimers), fun w wait hw => ?_,
        hs.right.mono (by subst h; rfl) hsub⟩
      rw [hwaiting] at hw
      have hears := hs.hears w wait hw
      obtain ⟨taken, later, heq, hlater, htaken, hdata⟩ := hears.signals
      have hold : s.left wait.id = if job.id = wait.id then signal :: rest else [] := by
        simp [State.left, hrunning]
      by_cases hid : job.id = wait.id
      · -- a signal of its own transfer
        rw [if_pos hid] at hold
        have hnil := hlater (by simp [hold])
        refine ⟨hnext ▸ hears.id_lt, ⟨taken, later, ?_, fun _ => hnil, htaken, hdata⟩,
          fun hdone => ?_⟩
        · rw [hleft, if_pos hid, hqueue, ← heq, hold]
          simp
        · rw [hleft, if_pos hid] at hdone
          subst h
          simp [hdone, hid]
      · -- a signal of a transfer that was asked for after its own had finished
        rw [if_neg hid] at hold
        refine ⟨hnext ▸ hears.id_lt, ⟨taken, later ++ [signal], ?_, ?_, htaken, hdata⟩,
          fun _ => hsub (hears.finished hold)⟩
        · rw [hold, List.append_nil] at heq
          rw [hleft, if_neg hid, hqueue, List.append_nil, ← List.append_assoc, heq,
            List.append_assoc]
        · rw [hleft, if_neg hid]
          exact fun hne => absurd rfl hne

lemma deliver_inv {w : ι} (hs : Inv s) (h : step s (.deliver w) = some s') : Inv s' := by
  simp only [step] at h
  cases hq : s.queue w with
  | nil => simp [hq] at h
  | cons signal rest =>
    simp only [hq] at h
    -- the queues of the others stay
    have hothers : ∀ (t : State ι) v wait, v ≠ w → s.waiting v = some wait → t.next = s.next →
        t.queue = Function.update s.queue w rest → t.running = s.running → t.timers = s.timers →
        t.finished = s.finished → Hears t v wait := by
      intro t v wait hv hwait hnext hqueue hrunning htimers hfinished
      refine (hs.hears v wait hwait).of_eq (Nat.le_of_eq hnext.symm) ?_ ?_ ?_
      · rw [hqueue, Function.update_of_ne hv]
      · simp [State.left, hrunning, htimers]
      · rw [hfinished]
        exact fun _ h => h
    cases hwait : s.waiting w with
    | none =>
      simp only [hwait, Option.some.injEq] at h
      subst h
      refine ⟨hs.one, fun v wait hv => ?_, hs.right.mono rfl fun _ h => h⟩
      have hvw : v ≠ w := by
        rintro rfl
        rw [hwait] at hv
        cases hv
      exact hothers _ v wait hvw hv rfl rfl rfl rfl rfl
    | some wait =>
      have hears := hs.hears w wait hwait
      obtain ⟨taken, later, heq, hlater, htaken, hdata⟩ := hears.signals
      rw [hq] at heq
      have hcases := next_signal heq htaken
      simp only [hwait] at h
      cases hsignal : wait.hears signal with
      | inl wait' =>
        simp only [hsignal, Option.some.injEq] at h
        subst h
        obtain ⟨hjob, hgoes, hmore⟩ := hears_inl hsignal
        refine ⟨hs.one, fun v other hv => ?_, hs.right.mono rfl fun _ h => h⟩
        by_cases hvw : v = w
        · subst hvw
          simp only [Function.update_self, Option.some.injEq] at hv
          subst hv
          have hown : taken ++ [signal] <+: wait.transfer.body := by
            rcases hcases with hpre | ⟨-, hend, -⟩
            · exact hpre
            · exact absurd hend (hgoes _)
          refine ⟨?_, ⟨taken ++ [signal], later, ?_, ?_, ?_, fun hto => ?_⟩, ?_⟩
          · rw [hjob]
            exact hears.id_lt
          · simp only [Function.update_self, hjob, List.append_assoc, List.singleton_append]
              at heq ⊢
            exact heq
          · rw [hjob]
            exact hlater
          · rw [hjob]
            exact hown
          · rw [hjob] at hto
            rw [hmore hto, hdata hto]
            simp [dataOf]
          · rw [hjob]
            exact hears.finished
        · simp only [Function.update_of_ne hvw] at hv
          exact hothers _ v other hvw hv rfl rfl rfl rfl rfl
      | inr ended =>
        simp only [hsignal, Option.some.injEq] at h
        subst h
        obtain ⟨rfl, rfl⟩ := hears_inr hsignal
        -- all of its transfer was heard, and the daemon has finished it
        have hown : taken = ended.transfer.body ∧ ended.returned = ended.transfer.result ∧
            rest ++ s.left ended.id = later := by
          rcases hcases with hpre | ⟨htaken, hend, hrest⟩
          · have hmem : Signal.copyFinished ended.returned ∈ ended.transfer.body :=
              hpre.subset (by simp)
            exact absurd rfl (ended.transfer.goesOn _ hmem _)
          · exact ⟨htaken, Signal.copyFinished.inj hend, hrest⟩
        obtain ⟨rfl, hresult, hrest⟩ := hown
        have hdone : s.left ended.id = [] := by
          by_contra hne
          have hnil := hlater hne
          rw [← hrest] at hnil
          exact hne (List.append_eq_nil_iff.mp hnil).2
        refine ⟨hs.one, fun v other hv => ?_, fun e he => ?_⟩
        · have hvw : v ≠ w := by
            rintro rfl
            simp at hv
          simp only [Function.update_of_ne hvw] at hv
          exact hothers _ v other hvw hv rfl rfl rfl rfl rfl
        · rcases List.mem_append.mp he with hold | hnew
          · exact hs.right e hold
          · obtain rfl := List.mem_singleton.mp hnew
            exact ⟨hears.finished hdone, hresult, hdata⟩

lemma step_inv {l : Label ι} (hs : Inv s) (halone : Alone s l) (h : step s l = some s') :
    Inv s' := by
  cases l with
  | request w t => exact request_inv hs halone h
  | start i => exact start_inv hs h
  | emit => exact emit_inv hs h
  | deliver w => exact deliver_inv hs h

/-- **Transfers that do not overlap are right**: in every run in which a transfer is asked for only
when no other is pending, and by a worker with no signals left from before. -/
theorem transfers_right {ls : List (Label ι)} {s : State ι}
    (halone : AllSteps step Alone State.initial ls) (h : run step State.initial ls = some s) :
    s.Right :=
  (run_inv (fun _ _ _ hs hl ht => step_inv hs hl ht) halone initial_inv h).right

/-! ### Runs of two workers -/

def readOne (b : UInt8) : Transfer := ⟨true, [.dataReady [b]], 0, by simp⟩

def upload : Transfer := ⟨false, [.copyProgress 1 2], 0, by simp⟩

instance : ∀ (s : State ι) (l : Label ι), Decidable (Alone s l)
  | s, .request w _ => decidable_of_iff (s.timers.isEmpty = true ∧ (s.queue w).isEmpty = true)
      (by simp [Alone])
  | _, .start _ => .isTrue trivial
  | _, .emit => .isTrue trivial
  | _, .deliver _ => .isTrue trivial

/-- Two transfers, one after the other. -/
def inTurn : List (Label Bool) :=
  [.request false (readOne 97), .start 0, .emit, .emit, .deliver false, .deliver false,
    .deliver true, .deliver true, .request true upload, .start 0, .emit, .deliver true, .emit,
    .deliver true]

/-- In turn both workers get what they asked for. -/
theorem inTurn_right : ∃ s, run step State.initial inTurn = some s ∧ s.Right ∧
    s.ended.map (fun e => (e.id, e.data, e.returned)) = [(0, [97], 0), (1, [], 0)] :=
  ⟨_, rfl, transfers_right (show AllSteps step Alone State.initial inTurn by decide) rfl,
    by decide⟩

/-- The second worker asks while the transfer of the first one is pending. -/
def overlapping : List (Label Bool) :=
  [.request false (readOne 97), .request true (readOne 98), .start 0, .emit, .emit, .deliver true,
    .deliver true]

/-- It asks after that, but has not heard the signals that were sent meanwhile. -/
def leftOver : List (Label Bool) :=
  [.request false (readOne 97), .start 0, .emit, .emit, .deliver false, .deliver false,
    .request true (readOne 98), .deliver true, .deliver true]

/-- Both times the second worker passes on the data of the first one, and returns before its own
transfer was started. -/
theorem overlapping_not_right :
    (∃ s, run step State.initial overlapping = some s ∧ ¬ s.Right) ∧
      ∃ s, run step State.initial leftOver = some s ∧ ¬ s.Right := by
  refine ⟨⟨_, rfl, fun h => ?_⟩, ⟨_, rfl, fun h => ?_⟩⟩
  · have hdone := (h ⟨⟨⟨1, readOne 98⟩, [97], 0⟩, 0⟩ (List.mem_singleton.mpr rfl)).1
    exact absurd hdone (by decide)
  · have hdone := (h ⟨⟨⟨1, readOne 98⟩, [97], 0⟩, 0⟩
      (List.mem_cons_of_mem _ (List.mem_singleton.mpr rfl))).1
    exact absurd hdone (by decide)

end

end KioExtras.Mtp
