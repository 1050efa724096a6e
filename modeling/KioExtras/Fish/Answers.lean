import KioExtras.Fish.Sending

/-!
The answers of the server, and what is left of them when an operation returns.

The server owes an answer to each command that is put up, and what `run` reads is the beginning of
what is owed. A line that ends a command, or the operation with an error that keeps the connection,
has to be the last one of its answer: nobody reads what is behind it.
-/

namespace KioExtras.Fish

open KioExtras.Kio KioExtras.Lib.Run Text

namespace State

/-- The number of the response a line is, as `handleResponse` has it. -/
def code (s : State) (line : Text) : ℤ := (handleResponse s.errorCount line).1

/-- The response is the number of an error. -/
def IsError (rc : ℤ) : Prop := rc ≠ 0 ∧ rc ≠ 100 ∧ rc.tdiv 100 ≠ 2

instance (rc : ℤ) : Decidable (IsError rc) := inferInstanceAs (Decidable (_ ∧ _ ∧ _))

@[simp] lemma not_isError_zero : ¬ IsError 0 := by decide

@[simp] lemma not_isError_hundred : ¬ IsError 100 := by decide

/-- The commands that are waited for on the connection as it is, whether they fail or not. -/
def keepsConnection : Command → Bool
  | .PWD | .CWD | .LIST | .STAT | .CHMOD | .CHOWN | .CHGRP | .MKD | .RMD | .DELE | .RENAME | .COPY
  | .LINK | .SYMLINK => true
  | .FISH | .VER | .RETR | .STOR | .READ | .WRITE | .APPEND | .EXEC => false

/-- The commands whose failure makes the worker shut the connection down. -/
def losesConnection : Command → Bool
  | .FISH | .VER | .RETR | .STOR | .READ | .WRITE | .APPEND => true
  | .PWD | .CWD | .LIST | .STAT | .CHMOD | .CHOWN | .CHGRP | .MKD | .RMD | .DELE | .RENAME | .COPY
  | .LINK | .SYMLINK | .EXEC => false

/-- The line ends the operation with an error, and the connection is kept: it is the size of a
directory, a destination is there, or a command failed that does not lose the connection. -/
def Aborts (s : State) (line : Text) : Prop :=
  (s.fishCommand = .RETR ∧ s.code line = 0 ∧ line = []) ∨
  (s.fishCommand = .LIST ∧ (s.code line).tdiv 100 = 2 ∧ s.listReason = .CHECK ∧
    s.checkOverwrite = false ∧ s.checkExist = true) ∨
  (keepsConnection s.fishCommand = true ∧ IsError (s.code line) ∧
    (s.fishCommand = .LIST → s.listReason = .LIST))

/-- The line makes the worker shut the connection down. -/
def Shuts (s : State) (line : Text) : Prop :=
  (s.fishCommand = .VER ∧ s.code line = 0 ∧ startsWith "VER 0.0.3".toList line = false) ∨
  (s.fishCommand = .RETR ∧ s.code line = 0 ∧ line ≠ [] ∧ toLongLong line = none) ∨
  (s.fishCommand = .RETR ∧ s.code line = 100 ∧ s.recvLen = -1) ∨
  (losesConnection s.fishCommand = true ∧ IsError (s.code line) ∧
    (s.fishCommand = .READ → s.code line ≠ 501))

instance (s : State) (line : Text) : Decidable (s.Aborts line) :=
  inferInstanceAs (Decidable (_ ∨ _ ∨ _))

instance (s : State) (line : Text) : Decidable (s.Shuts line) :=
  inferInstanceAs (Decidable (_ ∨ _ ∨ _ ∨ _))

/-- The line ends its command, and the connection is kept. -/
def Closes (s : State) (line : Text) : Prop := s.Aborts line ∨ s.Answers (s.code line)

/-- No line is read after this one. -/
def EndsRun (s : State) (line : Text) : Prop :=
  s.Aborts line ∨ s.Shuts line ∨ (s.Answers (s.code line) ∧ ¬ s.followed)

instance (s : State) (line : Text) : Decidable (s.Closes line) :=
  inferInstanceAs (Decidable (_ ∨ _))

instance (s : State) (line : Text) : Decidable (s.EndsRun line) :=
  inferInstanceAs (Decidable (_ ∨ _ ∨ _))

/-- How the worker goes on after a line. -/
inductive Turns (s : State) (line : Text) : State × Next → Prop
  | aborts {t : State} {result : WorkerResult} (h : s.Aborts line)
      (hrun : t.isRunning = false) (hlist : t.commandList = []) : Turns s line (t, .fail result)
  | shuts {t : State} {result : WorkerResult} (h : s.Shuts line) (hchild : t.childPid = false)
      (hrun : t.isRunning = false) (hlist : t.commandList = []) : Turns s line (t, .fail result)
  | go {t : State} (habort : ¬ s.Aborts line) (hshut : ¬ s.Shuts line)
      (hanswer : ¬ s.Answers (s.code line)) : Turns s line (t, .go)
  | finished {t : State} (habort : ¬ s.Aborts line) (hshut : ¬ s.Shuts line)
      (hanswer : s.Answers (s.code line)) : Turns s line (t, .finished)

variable {s : State}

lemma Turns.of_emit {signal : Signal} {line : Text} {x : State × Next}
    (h : Turns (s.emit signal) line x) : Turns s line x := by
  cases h with
  | aborts h hrun hlist => exact .aborts h hrun hlist
  | shuts h hchild hrun hlist => exact .shuts h hchild hrun hlist
  | go habort hshut hanswer => exact .go habort hshut hanswer
  | finished habort hshut hanswer => exact .finished habort hshut hanswer

variable (env : Env)

lemma respondLine_turns (s : State) (count : ℤ) (line : Text) (h0 : s.code line = 0) :
    Turns s line (({ s with errorCount := count } : State).respondLine env line) := by
  have hanswer : ¬ s.Answers (s.code line) := by simp [State.Answers, h0]
  unfold respondLine
  dsimp only
  split
  case h_1 hcmd =>
    split_ifs with hver
    · exact .go (by simp [Aborts, hcmd, h0]) (by rw [Shuts, hver]; simp [hcmd, h0]) hanswer
    · exact .shuts (Or.inl ⟨hcmd, h0, by simpa using hver⟩) rfl rfl rfl
  case h_2 hcmd =>
    exact .go (by simp [Aborts, hcmd, h0]) (by simp [Shuts, hcmd, h0]) hanswer
  case h_3 hcmd =>
    exact .go (by simp [Aborts, hcmd, h0]) (by simp [Shuts, hcmd, h0]) hanswer
  case h_4 hcmd =>
    exact .go (by simp [Aborts, hcmd, h0]) (by simp [Shuts, hcmd, h0]) hanswer
  case h_5 hcmd =>
    split_ifs with hnil
    · exact .aborts (Or.inl ⟨hcmd, h0, hnil⟩) rfl rfl
    · split
      · rename_i hnone
        exact .shuts (Or.inr (Or.inl ⟨hcmd, h0, hnil, hnone⟩)) rfl rfl rfl
      · rename_i hsome
        exact .go (by simp [Aborts, hcmd, h0, hnil]) (by simp [Shuts, hcmd, hsome, h0]) hanswer
  case h_6 hver hpwd hlist hstat hretr =>
    have hver' : s.fishCommand ≠ .VER := hver
    have hretr' : s.fishCommand ≠ .RETR := hretr
    exact .go (by simp [Aborts, hretr', h0]) (by simp [Shuts, hver', hretr', h0]) hanswer

lemma beginRead_turns (s t : State) (line : Text) (h100 : s.code line = 100)
    (hcmd : s.fishCommand = .READ ∧ t.recvLen = 1024 ∨
      s.fishCommand = .RETR ∧ t.recvLen = s.recvLen) : Turns s line (t.beginRead env) := by
  have hanswer : ¬ s.Answers (s.code line) := by simp [State.Answers, h100]
  have habort : ¬ s.Aborts line := by
    rcases hcmd with ⟨hcmd, _⟩ | ⟨hcmd, _⟩ <;> simp [Aborts, hcmd, h100]
  unfold beginRead
  dsimp only
  split_ifs with hnone hzero
  · rcases hcmd with ⟨_, hlen⟩ | ⟨hcmd, hlen⟩
    · omega
    · exact .shuts (Or.inr (Or.inr (Or.inl ⟨hcmd, h100, hlen ▸ hnone⟩))) rfl rfl rfl
  all_goals
    refine .go habort ?_ hanswer
    rcases hcmd with ⟨hcmd, _⟩ | ⟨hcmd, hlen⟩
    · simp [Shuts, hcmd, h100]
    · rw [hlen] at hnone
      simp [Shuts, hcmd, h100, hnone]

lemma respond100_turns (s : State) (count : ℤ) (line : Text) (h100 : s.code line = 100) :
    Turns s line (({ s with errorCount := count } : State).respond100 env) := by
  have hanswer : ¬ s.Answers (s.code line) := by simp [State.Answers, h100]
  have hgo : ∀ t : State, s.fishCommand ≠ .RETR → Turns s line (t, .go) := by
    intro t hcmd
    refine .go ?_ ?_ hanswer
    · simp [Aborts, hcmd, h100]
    · simp [Shuts, hcmd, h100]
  unfold respond100
  dsimp only
  split
  case h_1 hcmd => exact hgo _ (by simp [hcmd])
  case h_2 hcmd => exact beginRead_turns env s _ line h100 (Or.inl ⟨hcmd, rfl⟩)
  case h_3 hcmd => exact beginRead_turns env s _ line h100 (Or.inr ⟨hcmd, rfl⟩)
  case h_4 hcmd => exact hgo _ (by simp [hcmd])
  case h_5 hcmd => exact hgo _ (by simp [hcmd])
  case h_6 hcmd => exact hgo _ (by simp [hcmd])
  case h_7 hretr _ _ _ => exact hgo _ hretr

lemma respondError_turns (s : State) (count : ℤ) (line : Text) (herr : IsError (s.code line)) :
    Turns s line (({ s with errorCount := count } : State).respondError env (s.code line) line) := by
  obtain ⟨h0, h100, h2⟩ := herr
  have herr : IsError (s.code line) := ⟨h0, h100, h2⟩
  have haborts : keepsConnection s.fishCommand = true →
      (s.fishCommand = .LIST → s.listReason = .LIST) → s.Aborts line := fun hcmd hreason =>
    Or.inr (Or.inr ⟨hcmd, herr, hreason⟩)
  have hshuts : losesConnection s.fishCommand = true →
      (s.fishCommand = .READ → s.code line ≠ 501) → s.Shuts line := fun hcmd hread =>
    Or.inr (Or.inr (Or.inr ⟨hcmd, herr, hread⟩))
  unfold respondError
  dsimp only
  split
  case h_5 hcmd =>
    split_ifs with h501
    · refine .finished ?_ ?_ ⟨h0, h100, Or.inr (Or.inr ⟨hcmd, h501⟩)⟩
      · simp [Aborts, hcmd, keepsConnection]
      · simp [Shuts, hcmd, h501]
    · exact .shuts (hshuts (by simp [hcmd, losesConnection]) fun _ => h501) rfl rfl rfl
  case h_10 hcmd =>
    split_ifs with hreason
    · exact .aborts (haborts (by simp [hcmd, keepsConnection]) fun _ => hreason) rfl rfl
    · have hcheck : s.listReason = .CHECK := by
        cases hr : s.listReason with
        | CHECK => rfl
        | LIST => exact absurd hr hreason
      refine .finished ?_ ?_ ⟨h0, h100, Or.inr (Or.inl ⟨hcmd, hcheck⟩)⟩
      · simp [Aborts, hcmd, hcheck, h2]
      · simp [Shuts, hcmd, losesConnection]
  case h_22 hcmd =>
    refine .go ?_ ?_ ?_
    · simp [Aborts, hcmd, keepsConnection]
    · simp [Shuts, hcmd, losesConnection]
    · simp [State.Answers, hcmd, h2]
  all_goals
    rename_i hcmd
    rw [hcmd] at haborts hshuts
    first
      | exact .aborts (haborts rfl nofun) rfl rfl
      | exact .shuts (hshuts rfl nofun) rfl rfl rfl

lemma respondOk_turns (s : State) (count : ℤ) (line : Text) (h0 : s.code line ≠ 0)
    (h100 : s.code line ≠ 100) (h2 : (s.code line).tdiv 100 = 2) :
    Turns s line (({ s with errorCount := count } : State).respondOk env) := by
  have herr : ¬ IsError (s.code line) := fun h => h.2.2 h2
  have hanswer : s.Answers (s.code line) := ⟨h0, h100, Or.inl h2⟩
  have hshut : ¬ s.Shuts line := by simp [Shuts, h0, h100, herr]
  have hfinished : ∀ t : State, ¬ (s.fishCommand = .LIST ∧ s.listReason = .CHECK ∧
      s.checkOverwrite = false ∧ s.checkExist = true) → Turns s line (t, .finished) := by
    intro t hlist
    refine .finished ?_ hshut hanswer
    rintro (⟨_, hzero, _⟩ | ⟨hcmd, _, hexist⟩ | ⟨_, hfail, _⟩)
    · exact h0 hzero
    · exact hlist ⟨hcmd, hexist⟩
    · exact herr hfail
  have hcmd : ({ s with errorCount := count } : State).afterStor.fishCommand = .LIST ↔
      s.fishCommand = .LIST := by
    unfold afterStor
    dsimp only
    by_cases hstor : s.fishCommand = .STOR
    · cases hhas : s.hasAppend <;> simp [hstor]
    · simp [hstor]
  have hlist : s.fishCommand = .LIST →
      ({ s with errorCount := count } : State).afterStor = { s with errorCount := count } := by
    intro hcmd
    simp [afterStor, hcmd]
  unfold respondOk
  dsimp only
  split
  case h_1 h =>
    have hls := hcmd.mp h
    rw [hlist hls]
    dsimp only
    split_ifs with hexist
    · exact .aborts (Or.inr (Or.inl ⟨hls, h2, hexist⟩)) rfl rfl
    · exact hfinished _ fun h => hexist h.2
  case h_2 h =>
    exact hfinished _ fun hls => by simp [hcmd.mpr hls.1] at h
  case h_3 h =>
    exact hfinished _ fun hls => by simp [hcmd.mpr hls.1] at h
  case h_4 h =>
    exact hfinished _ fun hls => by simp [hcmd.mpr hls.1] at h
  case h_5 h =>
    exact hfinished _ fun hls => by simp [hcmd.mpr hls.1] at h
  case h_6 h _ _ _ _ =>
    exact hfinished _ fun hls => h (hcmd.mpr hls.1)

theorem respond_turns (s : State) (line : Text) : Turns s line (s.respond env line) := by
  unfold respond
  dsimp only
  split_ifs with h0 h100 h2
  · exact respondLine_turns env s _ line h0
  · exact respond100_turns env s _ line h100
  · exact respondError_turns env s _ line ⟨h0, h100, h2⟩
  · exact respondOk_turns env s _ line h0 h100 (not_not.mp h2)

/-- The number of commands that are put up behind a line: the next one, if there is one. -/
def putUp (s : State) (line : Text) : ℕ :=
  match (s.emit (.line line)).respond env line with
  | (t, .finished) => if t.commandList.isEmpty = true then 0 else 1
  | _ => 0

/-- What `manageConnection` leaves of a worker that waits for the end of its command. -/
inductive Leaves (s : State) (line : Text) : State × WorkerResult → Prop
  | aborts {t : State} {result : WorkerResult} (h : s.Aborts line)
      (hfail : result.success = false) (hrun : t.isRunning = false) (hlist : t.commandList = [])
      (hput : s.putUp env line = 0) : Leaves s line (t, result)
  | shuts {t : State} {result : WorkerResult} (h : s.Shuts line) (hfail : result.success = false)
      (hrun : t.isRunning = false) (hlist : t.commandList = []) (hchild : t.childPid = false) :
      Leaves s line (t, result)
  | ends {t : State} (h : s.Answers (s.code line)) (hnext : ¬ s.followed)
      (hrun : t.isRunning = false) (hlist : t.commandList = []) (hput : s.putUp env line = 0) :
      Leaves s line (t, .pass)
  | waits {t : State} (h : ¬ s.EndsRun line) (hrun : t.isRunning = true)
      (hchild : t.childPid = true)
      (hput : ¬ s.Answers (s.code line) → s.putUp env line = 0) : Leaves s line (t, .pass)

lemma finished_waits (hlist : s.commandList ≠ []) :
    (s.finished env).isRunning = s.isRunning ∧ (s.finished env).childPid = s.childPid := by
  unfold finished
  split
  · rename_i hnil
    exact absurd hnil hlist
  · exact ⟨rfl, rfl⟩

lemma finished_over (hlist : s.commandList = []) :
    s.finished env = { s with isRunning := false } := by
  simp [finished, hlist]

variable {rc : ℤ} {t : State}

lemma Sends.finished_followed (h : Sends env s rc (t, .finished)) :
    t.isRunning = s.isRunning ∧ t.childPid = s.childPid ∧ (t.commandList ≠ [] ↔ s.followed) := by
  cases h with
  | finished _ h hbody =>
    refine ⟨h.isRunning, h.childPid, ?_⟩
    rw [h.commandList]
    exact ⟨Or.inl, fun hnext => hnext.resolve_right fun hnext => hbody hnext.1⟩
  | chunk _ _ hchild _ _ hrun hlist => exact ⟨hrun, hchild, hlist⟩

lemma Sends.go_same (h : Sends env s rc (t, .go)) :
    t.isRunning = s.isRunning ∧ t.childPid = s.childPid := by
  cases h with
  | go h => exact ⟨h.isRunning, h.childPid⟩
  | code _ _ h => exact ⟨h.isRunning, h.childPid⟩
  | body _ _ h => exact ⟨h.isRunning, h.childPid⟩

lemma manageLine_leaves (hrun : s.isRunning = true) (hchild : s.childPid = true) (line : Bytes) :
    Leaves env s (env.decode line) (s.manageLine env line) := by
  have hturns : Turns s (env.decode line)
      ((s.emit (.line (env.decode line))).respond env (env.decode line)) :=
    (respond_turns env (s.emit (.line (env.decode line))) (env.decode line)).of_emit
  have hsends : Sends env s (s.code (env.decode line))
      ((s.emit (.line (env.decode line))).respond env (env.decode line)) :=
    (respond_sends env (s.emit (.line (env.decode line))) (env.decode line)).of
  unfold manageLine manageConnection
  rcases hx : (s.emit (.line (env.decode line))).respond env (env.decode line) with ⟨t, next⟩
  rw [hx] at hturns hsends
  cases hturns with
  | aborts h hrun' hlist =>
    exact .aborts h (by cases hsends; assumption) hrun' hlist (by simp [putUp, hx])
  | shuts h hchild' hrun' hlist =>
    exact .shuts h (by cases hsends; assumption) hrun' hlist hchild'
  | go habort hshut hanswer =>
    obtain ⟨hrun', hchild'⟩ := hsends.go_same
    refine .waits ?_ (hrun'.trans hrun) (hchild'.trans hchild) fun _ => by simp [putUp, hx]
    rintro (h | h | ⟨h, _⟩)
    · exact habort h
    · exact hshut h
    · exact hanswer h
  | finished habort hshut hanswer =>
    obtain ⟨hrun', hchild', hnext⟩ := hsends.finished_followed
    by_cases hlist : t.commandList = []
    · have hlast : ¬ s.followed := fun h => hnext.mpr h hlist
      have hover := finished_over env hlist
      refine .ends hanswer hlast ?_ ?_ ?_
      · rw [hover]
      · rw [hover]
        exact hlist
      · simp [putUp, hx, hlist]
    · obtain ⟨hrun'', hchild''⟩ := finished_waits env hlist
      refine .waits ?_ (hrun''.trans (hrun'.trans hrun)) (hchild''.trans (hchild'.trans hchild))
        fun hnot => absurd hanswer hnot
      rintro (h | h | ⟨_, h⟩)
      · exact habort h
      · exact hshut h
      · exact h (hnext.mp hlist)

end State

namespace Reading

variable (env : Env)

/-- The byte ends a line that is given to `manageConnection`. -/
def EndsLine (r : Reading) (b : UInt8) : Prop := r.failed = none ∧ b = 10 ∧ r.worker.rawRead ≤ 0

instance (r : Reading) (b : UInt8) : Decidable (r.EndsLine b) :=
  have : Decidable (r.failed = none) := decidable_of_iff (r.failed.isNone = true) (by simp)
  inferInstanceAs (Decidable (_ ∧ _ ∧ _))

/-- A line of the bytes that ends its command is the last one: nothing is behind it, and `rest`
is empty. -/
def ClosesLast : Reading → Bytes → Bytes → Prop
  | _, [], _ => True
  | r, b :: bytes, rest =>
    (r.EndsLine b → r.worker.Closes (env.decode r.buf) → bytes ++ rest = []) ∧
      ClosesLast (r.eat env b) bytes rest

def Over : Reading → Bytes → Prop
  | _, [] => False
  | r, b :: bytes =>
    (r.EndsLine b ∧ r.worker.EndsRun (env.decode r.buf)) ∨ Over (r.eat env b) bytes

/-- The number of commands that are put up behind the lines of the bytes. -/
def asked : Reading → Bytes → ℕ
  | _, [] => 0
  | r, b :: bytes =>
    (if r.EndsLine b then r.worker.putUp env (env.decode r.buf) else 0) +
      asked (r.eat env b) bytes

instance decidableClosesLast : ∀ (r : Reading) (bytes rest : Bytes),
    Decidable (ClosesLast env r bytes rest)
  | _, [], _ => .isTrue trivial
  | r, b :: bytes, rest =>
    have := decidableClosesLast (r.eat env b) bytes rest
    inferInstanceAs (Decidable ((_ → _ → _) ∧ _))

instance decidableOver : ∀ (r : Reading) (bytes : Bytes), Decidable (Over env r bytes)
  | _, [] => .isFalse id
  | r, b :: bytes =>
    have := decidableOver (r.eat env b) bytes
    inferInstanceAs (Decidable ((_ ∧ _) ∨ _))

variable {env}

/-- The operation goes on. -/
structure Waits (r : Reading) : Prop where
  failed : r.failed = none
  isRunning : r.worker.isRunning = true
  childPid : r.worker.childPid = true

/-- The operation is over, and no command is left. -/
structure Ended (r : Reading) : Prop where
  isRunning : r.worker.isRunning = false
  commandList : r.worker.commandList = []

variable {r : Reading}

lemma Waits.of_takes (h : Waits r) {t : State} (ht : r.worker.Takes t) (buf : Bytes) :
    Waits ⟨t, buf, none⟩ := by
  obtain ⟨_, _, _, _, _, rfl⟩ := ht
  exact ⟨rfl, h.isRunning, h.childPid⟩

variable {b : UInt8}

lemma Waits.eat (h : Waits r) (hline : ¬ r.EndsLine b) : Waits (r.eat env b) := by
  obtain ⟨s, buf, failed⟩ := r
  have hf : failed = none := h.failed
  subst hf
  unfold Reading.eat
  simp only [Option.isSome_none, Bool.false_eq_true, if_false]
  by_cases hraw : 0 < s.rawRead
  · rw [if_pos hraw]
    split_ifs
    · exact h.of_takes ⟨_, _, _, _, _, rfl⟩ _
    · exact h.of_takes (State.sendMime_takes env s [b]) _
    · exact h.of_takes ⟨_, _, _, _, _, rfl⟩ _
  · have hb : b ≠ 10 := fun hb => hline ⟨rfl, hb, Int.not_lt.mp hraw⟩
    rw [if_neg hraw, if_neg hb]
    exact h.of_takes ⟨_, _, _, _, _, rfl⟩ _

lemma EndsLine.eat (h : r.EndsLine b) :
    r.eat env b = match r.worker.manageLine env r.buf with
      | (worker, .pass) => ⟨worker, [], none⟩
      | (worker, result) => ⟨worker, [], some result⟩ := by
  obtain ⟨hf, hb, hraw⟩ := h
  rcases hm : r.worker.manageLine env r.buf with ⟨worker, _ | ⟨_, _⟩⟩ <;>
    simp [Reading.eat, hf, hb, Int.not_lt.mpr hraw, hm]

variable (env) in
lemma EndsLine.cases (h : r.EndsLine b) (hw : Waits r) :
    ((r.eat env b).Ended ∧ (r.eat env b).failed.isSome ∧
      (r.eat env b).worker.childPid = false) ∨
    ((r.eat env b).Ended ∧ r.worker.Closes (env.decode r.buf) ∧
      r.worker.putUp env (env.decode r.buf) = 0) ∨
    (Waits (r.eat env b) ∧ ¬ r.worker.EndsRun (env.decode r.buf) ∧
      (¬ r.worker.Closes (env.decode r.buf) → r.worker.putUp env (env.decode r.buf) = 0)) := by
  have hleaves := State.manageLine_leaves env hw.isRunning hw.childPid r.buf
  rw [h.eat]
  rcases hx : r.worker.manageLine env r.buf with ⟨t, result⟩
  rw [hx] at hleaves
  cases hleaves with
  | aborts h hfail hrun hlist hput =>
    cases result with
    | pass => simp at hfail
    | fail e detail => exact Or.inr (Or.inl ⟨⟨hrun, hlist⟩, Or.inl h, hput⟩)
  | shuts h hfail hrun hlist hchild =>
    cases result with
    | pass => simp at hfail
    | fail e detail => exact Or.inl ⟨⟨hrun, hlist⟩, rfl, hchild⟩
  | ends h _ hrun hlist hput => exact Or.inr (Or.inl ⟨⟨hrun, hlist⟩, Or.inr h, hput⟩)
  | waits h hrun hchild hput =>
    exact Or.inr (Or.inr ⟨⟨rfl, hrun, hchild⟩, h, fun hnot => hput fun ha => hnot (Or.inr ha)⟩)

/-- **What the bytes leave of an operation that goes on**: it still waits, it has lost the
connection, or it is over and has read everything. -/
theorem Waits.eatAll {r : Reading} (h : Waits r) {bytes rest : Bytes}
    (hlast : ClosesLast env r bytes rest) :
    (Waits (r.eatAll env bytes) ∧ ¬ Over env r bytes) ∨
    ((r.eatAll env bytes).Ended ∧ (r.eatAll env bytes).failed.isSome ∧
      (r.eatAll env bytes).worker.childPid = false) ∨
    ((r.eatAll env bytes).Ended ∧ rest = [] ∧ asked env r bytes = 0) := by
  induction bytes generalizing r with
  | nil => exact Or.inl ⟨h, id⟩
  | cons b bytes ih =>
    obtain ⟨hclose, hlast⟩ := hlast
    rw [eatAll_cons]
    by_cases hline : r.EndsLine b
    · rcases hline.cases env h with ⟨hended, hfail, hchild⟩ | ⟨hended, hcloses, hput⟩ |
        ⟨hwaits, hends, hput⟩
      · rw [eatAll_failed env hfail]
        exact Or.inr (Or.inl ⟨hended, hfail, hchild⟩)
      · obtain ⟨rfl, rfl⟩ := List.append_eq_nil_iff.mp (hclose hline hcloses)
        exact Or.inr (Or.inr ⟨hended, rfl, by simp [asked, hline, hput]⟩)
      · by_cases hcloses : r.worker.Closes (env.decode r.buf)
        · -- the next command is put up, and nothing is there yet to answer it
          obtain ⟨rfl, rfl⟩ := List.append_eq_nil_iff.mp (hclose hline hcloses)
          exact Or.inl ⟨hwaits, by simp [Over, hends]⟩
        · rcases ih hwaits hlast with ⟨hwaits', hover⟩ | hshut | ⟨hended, hrest, hasked⟩
          · exact Or.inl ⟨hwaits', by simp [Over, hends, hover]⟩
          · exact Or.inr (Or.inl hshut)
          · exact Or.inr (Or.inr ⟨hended, hrest, by simp [asked, hput hcloses, hasked]⟩)
    · rcases ih (h.eat hline) hlast with ⟨hwaits', hover⟩ | hshut | ⟨hended, hrest, hasked⟩
      · exact Or.inl ⟨hwaits', by simp [Over, hline, hover]⟩
      · exact Or.inr (Or.inl hshut)
      · exact Or.inr (Or.inr ⟨hended, hrest, by simp [asked, hline, hasked]⟩)

end Reading

/-! ### The connection -/

/-- A session, and what the server has yet to send: the answers to the commands put up, but for
what was read of them. -/
structure Link where
  session : Session
  owed : Bytes

/-- A step of the session, and the answers the server will give to the commands put up in it. -/
structure Exchange where
  label : Label
  answers : List Bytes

namespace Link

variable (env : Env) (connectionHost : String)

def chunk : Label → Bytes
  | .turn (.read chunk) _ => chunk
  | _ => []

/-- The number of commands that are put up in a step. -/
def asked (σ : Session) : Label → ℕ
  | .call op login =>
    match σ.worker.call env op login with
    | (_, none) => 1
    | (_, some _) => 0
  | .turn (.read chunk) _ =>
    if σ.buf.length < BUFSIZE then Reading.asked env ⟨σ.worker, σ.buf, none⟩ chunk else 0
  | .turn _ _ => 0

/-- What is read is owed, and each command that is put up is answered at some time. Without a child
nothing is owed. -/
def step (L : Link) (e : Exchange) : Option Link :=
  if chunk e.label <+: L.owed ∧ e.answers.length = asked env L.session e.label then
    (L.session.step env connectionHost e.label).map fun τ =>
      { session := τ
        owed :=
          if τ.worker.childPid = true then
            L.owed.drop (chunk e.label).length ++ e.answers.flatten
          else [] }
  else none

def initial (toRead : List ReadData) : Link := ⟨Session.initial toRead, []⟩

/-- What is in order: a line that ends a command is the last one of its answer; the kill flag is seen in `run` only when
the operation is over in any case, and no new connection is opened for permissions that are not
set. -/
def Orderly (L : Link) (e : Exchange) : Prop :=
  match e.label with
  | .call (.chmod path permissions) login =>
    permissions < 0 → env.normalized path ≠ [] → login.success = true →
      L.session.worker.childPid = true
  | .call _ _ => True
  | .turn (.read chunk) killed =>
    L.session.buf.length < BUFSIZE →
      Reading.ClosesLast env ⟨L.session.worker, L.session.buf, none⟩ chunk
        (L.owed.drop chunk.length) ∧
      (killed = true → Reading.Over env ⟨L.session.worker, L.session.buf, none⟩ chunk)
  | .turn .broken _ => True
  | .turn .none killed => killed = false
  | .turn (.write _) killed => killed = false

instance decidableOrderly (L : Link) (e : Exchange) : Decidable (Orderly env L e) := by
  obtain ⟨label, answers⟩ := e
  exact match label with
  | .call (.chmod _ _) _ => inferInstanceAs (Decidable (_ → _ → _ → _))
  | .call (.get _) _ | .call (.put _ _ _) _ | .call (.stat _) _ | .call (.mimetype _) _
  | .call (.listDir _) _ | .call (.mkdir _ _) _ | .call (.rename _ _ _ _) _
  | .call (.symlink _ _ _) _ | .call (.copy _ _ _ _ _) _ | .call (.del _ _) _
  | .call (.exec _ _) _ => .isTrue trivial
  | .turn (.read _) _ => inferInstanceAs (Decidable (_ → _ ∧ (_ → _)))
  | .turn .broken _ => .isTrue trivial
  | .turn .none killed => inferInstanceAs (Decidable (killed = false))
  | .turn (.write _) killed => inferInstanceAs (Decidable (killed = false))

end Link

namespace State

variable (env : Env)

variable {s : State}

lemma startRun_loops (h : s.isRunning = false) : (s.startRun env).2 = none := by
  simp [startRun, h]

/-- How `openConnection` ends: no connection is left, the one that is there is used, or a new one is
opened. -/
lemma openConnection_cases (login : WorkerResult) (s : State) :
    ((s.openConnection env login).2.success = false ∧
      (s.openConnection env login).1 = (s.openConnection env login).1.shutdownConnection) ∨
    ((s.openConnection env login).2 = .pass ∧
      (s.openConnection env login).1.isRunning = s.isRunning ∧
      ((s.childPid = true ∧ (s.openConnection env login).1 = s) ∨
        (s.childPid = false ∧ login.success = true))) := by
  unfold openConnection
  dsimp only
  split_ifs with hchild hlogin
  · exact Or.inr ⟨rfl, rfl, Or.inl ⟨hchild, rfl⟩⟩
  · exact Or.inr ⟨rfl, rfl, Or.inr ⟨by simpa using hchild, hlogin⟩⟩
  · exact Or.inl ⟨by simpa using hlogin, rfl⟩

/-- An operation that does not get to the loop of `run` leaves no command, unless it has opened a
connection for permissions that are not set. -/
lemma call_returned {op : Op} {login : WorkerResult} {t : State} {result : WorkerResult}
    (hrun : s.isRunning = false) (hlist : s.commandList = [])
    (hchmod : ∀ path permissions, op = .chmod path permissions → permissions < 0 →
      env.normalized path ≠ [] → login.success = true → s.childPid = true)
    (h : s.call env op login = (t, some result)) : t.isRunning = false ∧ t.commandList = [] := by
  have hopen : ∀ u : State, u.isRunning = false → (u.startRun env) ≠ (t, some result) := by
    intro u hu hstart
    have hnone := startRun_loops env hu
    rw [hstart] at hnone
    simp at hnone
  unfold call at h
  cases hop : op.otherHost with
  | some src =>
    simp only [hop, Prod.mk.injEq] at h
    obtain ⟨rfl, _⟩ := h
    exact ⟨rfl, rfl⟩
  | none =>
    simp only [hop] at h
    rcases hx : openConnection env login { s with url := op.path } with ⟨u, login'⟩
    have hcases := openConnection_cases env login { s with url := op.path }
    rw [hx] at hcases h
    rcases hcases with ⟨hfail, hu⟩ | ⟨hpass, hu, hchild⟩
    · have hfail' : login'.success = false := hfail
      simp only [hfail', if_true, Prod.mk.injEq] at h
      rw [← h.1, show u = _ from hu]
      exact ⟨rfl, rfl⟩
    · have hpass' : login' = .pass := hpass
      have hu' : u.isRunning = false := Eq.trans hu hrun
      subst hpass'
      simp only [WorkerResult.success_pass, Bool.true_eq_false, if_false] at h
      have hqueues : ∀ v : State, Queues v ((v.enqueue env op)) := fun v =>
        (enqueue_queues env v op).1
      cases op with
      | exec command path => exact absurd h (hopen _ ((hqueues u).2.1.trans hu'))
      | chmod path permissions =>
        simp only at h
        split_ifs at h with hpath hneg
        · exact absurd h (hopen _ hu')
        · rcases hchild with ⟨_, hsame⟩ | ⟨hnew, hlogin⟩
          · have hsame' : u = { s with url := path } := hsame
            rw [← (Prod.mk.inj h).1, hsame']
            exact ⟨hrun, hlist⟩
          · have hold := hchmod path permissions rfl hneg hpath hlogin
            exact absurd (hold.symm.trans hnew) (by decide)
        · exact absurd h (hopen _ ((hqueues _).2.1.trans hu'))
      | _ =>
        simp only at h
        split_ifs at h
        · exact absurd h (hopen _ hu')
        · exact absurd h (hopen _ ((hqueues _).2.1.trans hu'))

end State

namespace Link

variable {env : Env} {connectionHost : String}

/-- What holds of a connection: when no operation is under way, no command is left and nothing is
owed. -/
structure Settled (L : Link) : Prop where
  sound : L.session.Sound
  returned : L.session.inside = false →
    L.session.worker.isRunning = false ∧ L.session.worker.commandList = [] ∧ L.owed = []

variable {L M : Link} {answers : List Bytes}

variable {e : Exchange} {op : Op}

lemma step_some (h : L.step env connectionHost e = some M) :
    e.answers.length = asked env L.session e.label ∧
    L.session.step env connectionHost e.label = some M.session ∧
    M.owed = if M.session.worker.childPid = true then
      L.owed.drop (chunk e.label).length ++ e.answers.flatten else [] := by
  unfold step at h
  split_ifs at h with hcan
  obtain ⟨τ, hτ, rfl⟩ := Option.map_eq_some_iff.mp h
  exact ⟨hcan.2, hτ, rfl⟩

lemma flatten_of_none (h : answers.length = 0) : answers.flatten = [] := by
  rw [List.length_eq_zero_iff.mp h, List.flatten_nil]

/-- A call that gets to the loop of `run` puts up its first command, and the server owes the answer
to it. -/
lemma Settled.call {login : WorkerResult} (h : Settled L)
    (hl : L.step env connectionHost ⟨.call op login, answers⟩ = some M)
    (hin : M.session.inside = true) : ∃ answer, answers = [answer] ∧ M.owed = answer := by
  obtain ⟨hcount, hs, howed⟩ := step_some hl
  have hchild := ((h.sound.step hs).inside hin).2.ready.childPid
  rw [hchild, if_pos rfl] at howed
  simp only [Session.step] at hs
  split_ifs at hs with hbusy
  obtain ⟨_, _, hnone⟩ := h.returned (by simpa using hbusy)
  simp only [asked] at hcount
  rcases hx : L.session.worker.call env op login with ⟨worker, _ | result⟩
  · rw [hx] at hcount
    obtain ⟨answer, rfl⟩ := List.length_eq_one_iff.mp hcount
    refine ⟨answer, rfl, ?_⟩
    rw [howed, hnone]
    simp [chunk]
  · rw [hx] at hs
    have hm := Option.some.inj hs
    rw [← hm] at hin
    exact absurd hin (by simp [Session.leave])

lemma Settled.step_call {login : WorkerResult} (h : Settled L)
    (ho : Orderly env L ⟨.call op login, answers⟩)
    (hl : L.step env connectionHost ⟨.call op login, answers⟩ = some M) : Settled M := by
  obtain ⟨hcount, hs, howed⟩ := step_some hl
  refine ⟨h.sound.step hs, fun hout => ?_⟩
  simp only [Session.step] at hs
  split_ifs at hs with hbusy
  obtain ⟨hrun, hlist, hnone⟩ := h.returned (by simpa using hbusy)
  simp only [asked] at hcount
  rcases hx : L.session.worker.call env op login with ⟨worker, _ | result⟩
  · -- the first command is put up
    rw [hx] at hs
    obtain ⟨⟨u, _, hcase⟩, _⟩ := State.call_called env op login L.session.worker
    rcases hcase with ⟨result, hcall⟩ | ⟨_, _, _, hne, hcall⟩
    · rw [hx] at hcall
      simp at hcall
    · rw [hx, Prod.mk.injEq] at hcall
      have hturns : worker.isRunning = true := by
        rw [hcall.1, (State.finished_waits env (s := { u with isRunning := true }) hne).1]
      have hin := Option.some.inj hs
      rw [Session.goOn, if_pos hturns] at hin
      rw [← hin] at hout
      exact absurd hout (by simp)
  · rw [hx] at hs hcount
    obtain ⟨hrun', hlist'⟩ := State.call_returned env hrun hlist
      (fun path permissions hop hneg hpath hlogin => by subst hop; exact ho hneg hpath hlogin) hx
    have hm := Option.some.inj hs
    rw [← hm] at howed ⊢
    refine ⟨hrun', hlist', ?_⟩
    rw [howed, hnone, flatten_of_none hcount]
    simp

lemma Settled.step_read {bytes : Bytes} {killed : Bool} (h : Settled L)
    (ho : Orderly env L ⟨.turn (.read bytes) killed, answers⟩)
    (hl : L.step env connectionHost ⟨.turn (.read bytes) killed, answers⟩ = some M) :
    Settled M := by
  obtain ⟨hcount, hs, howed⟩ := step_some hl
  refine ⟨h.sound.step hs, fun hout => ?_⟩
  simp only [Session.step, Session.turn] at hs
  split_ifs at hs with hin
  obtain ⟨hrun, hclean⟩ := h.sound.inside hin
  have hwaits : Reading.Waits ⟨L.session.worker, L.session.buf, none⟩ :=
    ⟨rfl, hrun, hclean.ready.childPid⟩
  rcases Session.read_eatAll env connectionHost hclean rfl bytes with ⟨_, heq⟩ | ⟨hroom, hsame⟩
  · rw [heq] at hs
    have hm := Option.some.inj hs
    rw [← hm] at howed ⊢
    exact ⟨rfl, rfl, howed⟩
  · obtain ⟨hlast, hkill⟩ := ho hroom
    have hcount' : answers.length =
        Reading.asked env ⟨L.session.worker, L.session.buf, none⟩ bytes := by
      simpa only [asked, if_pos hroom] using hcount
    have hpaid : L.owed.drop bytes.length = [] →
        Reading.asked env ⟨L.session.worker, L.session.buf, none⟩ bytes = 0 → M.owed = [] := by
      intro hrest hasked
      rw [howed, flatten_of_none (hcount'.trans hasked)]
      simp [chunk, hrest]
    have hend := hwaits.eatAll hlast
    cases hf : ((⟨L.session.worker, L.session.buf, none⟩ : Reading).read env connectionHost
      bytes).failed with
    | some result =>
      simp only [hf] at hs
      have hm := Option.some.inj hs
      have hworker : M.session.worker =
          (Reading.eatAll env ⟨L.session.worker, L.session.buf, none⟩ bytes).worker := by
        rw [← hm, ← hsame.worker]
        rfl
      rw [hworker] at howed ⊢
      rcases hend with ⟨hgo, _⟩ | ⟨hended, _, hchild⟩ | ⟨hended, hrest, hasked⟩
      · have hnone := hsame.failed.trans hgo.failed
        rw [hf] at hnone
        exact absurd hnone (by simp)
      · rw [hchild] at howed
        exact ⟨hended.1, hended.2, howed⟩
      · exact ⟨hended.1, hended.2, hpaid hrest hasked⟩
    | none =>
      simp only [hf] at hs
      have hm := Option.some.inj hs
      have heq := hsame.eq hf
      rw [heq] at hm
      rcases hend with ⟨hgo, hover⟩ | ⟨_, hfail, _⟩ | ⟨hended, hrest, hasked⟩
      · -- the loop goes on
        have hnot : killed = false := by
          cases killed with
          | false => rfl
          | true => exact absurd (hkill rfl) hover
        rw [hnot, Session.endTurn, if_neg (by decide), Session.goOn, if_pos hgo.isRunning] at hm
        rw [← hm] at hout
        exact absurd hout (by simp)
      · rw [← heq, hf] at hfail
        exact absurd hfail (by simp)
      · have hworker : M.session.worker =
            (Reading.eatAll env ⟨L.session.worker, L.session.buf, none⟩ bytes).worker := by
          rw [← hm, Session.endTurn, Session.goOn, hended.1]
          cases killed <;> rfl
        rw [hworker]
        exact ⟨hended.1, hended.2, hpaid hrest hasked⟩

lemma goes_on {σ τ : Session} {worker : State} (hrun : worker.isRunning = true) (buf : Bytes)
    (hτ : σ.endTurn false worker buf = τ) : τ.inside = true := by
  rw [← hτ, Session.endTurn, if_neg (by decide), Session.goOn, if_pos hrun]

theorem Settled.step {L M : Link} (h : Settled L) (ho : Orderly env L e)
    (hl : L.step env connectionHost e = some M) : Settled M := by
  obtain ⟨label, answers⟩ := e
  cases label with
  | call op login => exact h.step_call ho hl
  | turn io killed =>
    obtain ⟨_, hs, howed⟩ := step_some hl
    have hsound := h.sound.step hs
    cases io with
    | read bytes => exact h.step_read ho hl
    | none =>
      have hnot : killed = false := ho
      simp only [Session.step, Session.turn, hnot] at hs
      split_ifs at hs with hin
      have hgo := goes_on (h.sound.inside hin).1 _ (Option.some.inj hs)
      exact ⟨hsound, fun hout => absurd (hgo.symm.trans hout) (by decide)⟩
    | write n =>
      have hnot : killed = false := ho
      simp only [Session.step, Session.turn, hnot] at hs
      split_ifs at hs with hin hroom
      obtain ⟨hrun, _⟩ := h.sound.inside hin
      obtain ⟨_, out, hout⟩ := State.writeSome_sound h.sound.worker hrun n
      have hrun' : (L.session.worker.writeSome n).isRunning = true := by
        rw [hout]
        exact hrun
      have hgo := goes_on hrun' _ (Option.some.inj hs)
      exact ⟨hsound, fun hout => absurd (hgo.symm.trans hout) (by decide)⟩
    | broken =>
      simp only [Session.step, Session.turn] at hs
      split_ifs at hs with hin
      have hm := Option.some.inj hs
      rw [← hm] at howed
      refine ⟨hsound, fun _ => ?_⟩
      rw [← hm]
      exact ⟨rfl, rfl, howed⟩

lemma initial_settled (toRead : List ReadData) : Settled (initial toRead) :=
  ⟨Session.initial_sound toRead, fun _ => ⟨rfl, rfl, rfl⟩⟩

/-- **What is left when an operation returns**: in a run in order nothing runs, no command is left,
all that the server sends was read, and what the next operation reads first is the answer to its
own first command. -/
theorem returned_settled {toRead : List ReadData} {es : List Exchange} {L : Link}
    (ho : AllSteps (step env connectionHost) (Orderly env) (initial toRead) es)
    (hrun : run (step env connectionHost) (initial toRead) es = some L)
    (hout : L.session.inside = false) :
    L.session.worker.isRunning = false ∧ L.session.worker.commandList = [] ∧ L.owed = [] ∧
      ∀ op login answers M, L.step env connectionHost ⟨.call op login, answers⟩ = some M →
        M.session.inside = true → ∃ answer, answers = [answer] ∧ M.owed = answer := by
  have hinv : Settled L :=
    run_inv (fun _ _ _ hs ho hl => hs.step ho hl) ho (initial_settled toRead) hrun
  obtain ⟨hidle, hlist, howed⟩ := hinv.returned hout
  exact ⟨hidle, hlist, howed, fun _ _ _ _ hl hin => hinv.call hl hin⟩

/-- What a shell answers to `FISH` where there is no perl, and to `VER`. -/
def shellAnswers : List Bytes :=
  [ascii "\n### 200\n", ascii "VER 0.0.3 copy append lscount lslinks lsmime exec stat\n### 200\n"]

/-- A shell is asked for a file, up to its answer. -/
def getLabels (answer : Bytes) : List Exchange :=
  [⟨.call (.get "/d".toList) .pass, shellAnswers.take 1⟩,
    ⟨.turn (.write 258) false, []⟩,
    ⟨.turn (.read (shellAnswers.getD 0 [])) false, shellAnswers.drop 1⟩,
    ⟨.turn (.write 139) false, []⟩,
    ⟨.turn (.read (shellAnswers.getD 1 [])) false, [answer]⟩,
    ⟨.turn (.write 108) false, []⟩]

def fileLabels : List Exchange :=
  getLabels (ascii "3\n### 001\nabc### 200\n") ++
    [⟨.turn (.read (ascii "3\n### 001\na")) false, []⟩, ⟨.turn (.read (ascii "bc### 200\n")) true, []⟩]

theorem returned_settled_file : ∃ L,
    run (step asciiEnv "host") (initial []) fileLabels = some L ∧
      L.session.worker.isRunning = false ∧ L.session.worker.commandList = [] ∧ L.owed = [] := by
  have hdone : AllSteps (step asciiEnv "host") (Orderly asciiEnv) (initial []) fileLabels ∧
      ((run (step asciiEnv "host") (initial []) fileLabels).map fun L => L.session.inside) =
        some false := by
    decide +kernel
  obtain ⟨ho, hout⟩ := hdone
  obtain ⟨L, hL, hin⟩ := Option.map_eq_some_iff.mp hout
  obtain ⟨hidle, hlist, howed, _⟩ := returned_settled ho hL hin
  exact ⟨L, hL, hidle, hlist, howed⟩

/-- The size of a directory is an empty line in a shell: `get` returns at once, and the rest of the
answer is there for the next operation. -/
theorem directory_owes_answer : ¬ ∀ (env : Env) (connectionHost : String)
    (toRead : List ReadData) (es : List Exchange) (L : Link),
    run (step env connectionHost) (initial toRead) es = some L →
      L.session.inside = false → L.session.worker.childPid = true →
      L.session.worker.isRunning = false ∧ L.session.worker.commandList = [] ∧ L.owed = [] := by
  intro h
  have hrun : ((run (step asciiEnv "host") (initial [])
      (getLabels (ascii "\n### 001\ncat: /d: Is a directory\n### 200\n") ++
        [⟨.turn (.read [10]) false, []⟩])).map
      fun L => (L.session.inside, L.session.worker.childPid, L.owed)) =
      some (false, true, ascii "### 001\ncat: /d: Is a directory\n### 200\n") := by
    decide +kernel
  obtain ⟨L, hL, heq⟩ := Option.map_eq_some_iff.mp hrun
  obtain ⟨hin, hchild, howed⟩ : L.session.inside = false ∧ L.session.worker.childPid = true ∧
      L.owed = ascii "### 001\ncat: /d: Is a directory\n### 200\n" := by
    simpa using heq
  have hnone := (h asciiEnv "host" [] _ L hL hin hchild).2.2
  rw [howed] at hnone
  exact absurd hnone (by decide)

end Link

end KioExtras.Fish
