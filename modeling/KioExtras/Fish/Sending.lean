import KioExtras.Fish.Session

/-!
What the worker writes in a session: the commands, the server it carries along, and the bodies
of `STOR`, `WRITE` and `APPEND` with their padding.
-/

namespace KioExtras.Fish

open KioExtras.Kio KioExtras.Lib.Run Text

namespace State

variable (env : Env)

/-! ### What a line does to what is sent -/

structure SameSending (s t : State) : Prop where
  childPid : t.childPid = s.childPid
  out : t.out = s.out
  rawData : t.rawData = s.rawData
  sendLen : t.sendLen = s.sendLen
  isRunning : t.isRunning = s.isRunning
  commandList : t.commandList = s.commandList

variable {s : State} {rc : ℤ}

lemma Listing.sameSending {t : State} (h : Listing s t) : SameSending s t := by
  obtain ⟨_, _, _, _, _, _, _, _, rfl⟩ := h
  exact ⟨rfl, rfl, rfl, rfl, rfl, rfl⟩

def sendsBody (s : State) : Prop :=
  s.fishCommand = .STOR ∨ s.fishCommand = .WRITE ∨ s.fishCommand = .APPEND

instance (s : State) : Decidable s.sendsBody := inferInstanceAs (Decidable (_ ∨ _ ∨ _))

/-- The response ends the command, and no error ends the operation. -/
def Answers (s : State) (rc : ℤ) : Prop :=
  rc ≠ 0 ∧ rc ≠ 100 ∧ (rc.tdiv 100 = 2 ∨ (s.fishCommand = .LIST ∧ s.listReason = .CHECK) ∨
    (s.fishCommand = .READ ∧ rc = 501))

instance (s : State) (rc : ℤ) : Decidable (s.Answers rc) :=
  inferInstanceAs (Decidable (_ ∧ _ ∧ (_ ∨ _ ∨ _)))

/-- The application has another chunk. -/
def hasMore (s : State) : Bool :=
  match s.toRead with
  | .chunk buffer :: _ => !buffer.isEmpty
  | _ => false

def followed (s : State) : Prop :=
  s.commandList ≠ [] ∨
    (s.sendsBody ∧ (s.hasMore = true ∨ (s.checkExist = false ∧ -1 < s.putPerm)))

instance (s : State) : Decidable s.followed :=
  inferInstanceAs (Decidable (_ ∨ (_ ∧ (_ ∨ (_ ∧ _)))))

/-- What a response does to what is sent: nothing, unless it is the perl server that is asked
for, a body, or the next chunk. -/
inductive Sends (s : State) (rc : ℤ) : State × Next → Prop
  | fail {t : State} {result : WorkerResult} (hresult : result.success = false)
      (h : Failed s t) : Sends s rc (t, .fail result)
  | go {t : State} (h : SameSending s t) : Sends s rc (t, .go)
  | finished {t : State} (hrc : s.Answers rc) (h : SameSending s t)
      (hbody : s.sendsBody → False) : Sends s rc (t, .finished)
  | code {t : State} (hcmd : s.fishCommand = .FISH) (hrc : rc = 100)
      (h : SameSending { s with out :=
        { s.out.writeChild env.fishCode with due := s.out.due ++ env.fishCode } } t) :
      Sends s rc (t, .go)
  | body {t : State} (hcmd : s.sendsBody) (hrc : rc = 100)
      (h : SameSending { s with out := s.out.beginBody s.rawData s.sendLen } t) :
      Sends s rc (t, .go)
  | chunk {t : State} (hcmd : s.sendsBody) (hrc : s.Answers rc)
      (hchild : t.childPid = s.childPid) (hout : t.out = s.out)
      (hlen : t.sendLen = t.rawData.length) (hrun : t.isRunning = s.isRunning)
      (hlist : t.commandList ≠ [] ↔ s.followed) : Sends s rc (t, .finished)

variable {env}

lemma Unless.sends {P : State → Prop} {t : State} {result : WorkerResult}
    (h : Unless s P (t, .fail result)) : Sends env s rc (t, .fail result) :=
  .fail h.1 h.2

variable (env)

lemma respondLine_sends (s : State) (line : Text) (rc : ℤ) :
    Sends env s rc (s.respondLine env line) := by
  unfold respondLine
  split
  · split_ifs
    · exact .go ⟨rfl, rfl, rfl, rfl, rfl, rfl⟩
    · exact (shutdown_unless (P := fun _ => True) s _ _).sends
  · exact .go ⟨rfl, rfl, rfl, rfl, rfl, rfl⟩
  · exact .go (listLine_listing env s line).sameSending
  · exact .go (listLine_listing env s line).sameSending
  · split_ifs
    · exact .fail rfl ⟨rfl, rfl, rfl, rfl, Or.inl ⟨rfl, rfl, rfl⟩⟩
    · split
      · exact (shutdown_unless (P := fun _ => True) s _ _).sends
      · exact .go ⟨rfl, rfl, rfl, rfl, rfl, rfl⟩
  · exact .go ⟨rfl, rfl, rfl, rfl, rfl, rfl⟩

lemma beginRead_sends (s : State) (recvLen rc : ℤ) :
    Sends env s rc (({ s with recvLen := recvLen } : State).beginRead env) := by
  unfold beginRead
  dsimp only
  split
  · exact .fail rfl ⟨rfl, rfl, rfl, rfl, Or.inr ⟨rfl, rfl, rfl⟩⟩
  · split
    · exact .go ⟨rfl, rfl, rfl, rfl, rfl, rfl⟩
    · exact .go ⟨rfl, rfl, rfl, rfl, rfl, rfl⟩

lemma respond100_sends (s : State) : Sends env s 100 (s.respond100 env) := by
  unfold respond100
  split
  case h_1 h => exact .code h rfl ⟨rfl, rfl, rfl, rfl, rfl, rfl⟩
  case h_2 => exact beginRead_sends env s 1024 100
  case h_3 => exact beginRead_sends env s s.recvLen 100
  case h_4 h => exact .body (Or.inl h) rfl ⟨rfl, rfl, rfl, rfl, rfl, rfl⟩
  case h_5 h => exact .body (Or.inr (Or.inl h)) rfl ⟨rfl, rfl, rfl, rfl, rfl, rfl⟩
  case h_6 h => exact .body (Or.inr (Or.inr h)) rfl ⟨rfl, rfl, rfl, rfl, rfl, rfl⟩
  case h_7 => exact .go ⟨rfl, rfl, rfl, rfl, rfl, rfl⟩

lemma respondError_sends (s : State) (h0 : rc ≠ 0) (h100 : rc ≠ 100) (line : Text) :
    Sends env s rc (s.respondError env rc line) := by
  unfold respondError
  dsimp only
  split
  case h_5 h =>
    split_ifs with h501
    · refine .finished ⟨h0, h100, Or.inr (Or.inr ⟨h, h501⟩)⟩ ⟨rfl, rfl, rfl, rfl, rfl, rfl⟩ ?_
      simp [sendsBody, h]
    · exact (shutdown_unless (P := fun _ => True) s _ _).sends
  case h_10 h =>
    split_ifs with hreason
    · exact (error_unless (P := fun _ => True) s _ _).sends
    · have hcheck : s.listReason = .CHECK := by
        cases hr : s.listReason with
        | CHECK => rfl
        | LIST => exact absurd hr hreason
      refine .finished ⟨h0, h100, Or.inr (Or.inl ⟨h, hcheck⟩)⟩ ⟨rfl, rfl, rfl, rfl, rfl, rfl⟩ ?_
      simp [sendsBody, h]
  all_goals first
    | exact (error_unless (P := fun _ => True) s _ _).sends
    | exact (shutdown_unless (P := fun _ => True) s _ _).sends
    | exact .fail rfl ⟨rfl, rfl, rfl, rfl, Or.inl ⟨rfl, rfl, rfl⟩⟩
    | exact .go ⟨rfl, rfl, rfl, rfl, rfl, rfl⟩

lemma readData_sends (s : State) :
    s.readData.1 = s.hasMore ∧ s.readData.2.childPid = s.childPid ∧ s.readData.2.out = s.out ∧
      s.readData.2.isRunning = s.isRunning ∧ s.readData.2.commandList = s.commandList ∧
      s.readData.2.checkExist = s.checkExist ∧ s.readData.2.putPerm = s.putPerm := by
  unfold readData hasMore
  dsimp only [emit]
  split
  · simp_all
  · simp_all
  · simp_all

lemma chmodNew_sends (s : State) :
    (s.chmodNew env).childPid = s.childPid ∧ (s.chmodNew env).out = s.out ∧
      (s.chmodNew env).rawData = s.rawData ∧ (s.chmodNew env).isRunning = s.isRunning ∧
      ((s.chmodNew env).commandList ≠ [] ↔
        s.commandList ≠ [] ∨ (s.checkExist = false ∧ -1 < s.putPerm)) := by
  unfold chmodNew
  split_ifs with h
  · simp [sendCommand, h]
  · simp [h]

lemma nextAppend_sends (cmd : Command) (hcmd : s.sendsBody) (hrc : s.Answers rc) :
    Sends env s rc (({ s with fishCommand := cmd } : State).nextAppend env, .finished) := by
  obtain ⟨hmore, hchild, hout, hrun, hlist, hexist, hperm⟩ :=
    readData_sends { s with fishCommand := cmd }
  have hmore' : State.hasMore { s with fishCommand := cmd } = s.hasMore := rfl
  rw [hmore'] at hmore
  unfold nextAppend
  dsimp only
  split_ifs with h
  · refine .chunk hcmd hrc hchild hout rfl hrun ?_
    simp [sendCommand, followed, hcmd, ← hmore, h]
  · have hchmod := chmodNew_sends env (readData { s with fishCommand := cmd }).2
    obtain ⟨hchild', hout', _, hrun', hlist'⟩ := hchmod
    refine .chunk hcmd hrc (hchild'.trans hchild) (hout'.trans hout) rfl (hrun'.trans hrun) ?_
    rw [hlist, hexist, hperm] at hlist'
    simp [hlist', followed, hcmd, ← hmore, h]

lemma nextWrite_sends (cmd : Command) (hcmd : s.sendsBody) (hrc : s.Answers rc) :
    Sends env s rc (({ s with fishCommand := cmd } : State).nextWrite env, .finished) := by
  obtain ⟨hmore, hchild, hout, hrun, hlist, hexist, hperm⟩ :=
    readData_sends { s with fishCommand := cmd }
  have hmore' : State.hasMore { s with fishCommand := cmd } = s.hasMore := rfl
  rw [hmore'] at hmore
  unfold nextWrite
  dsimp only
  split_ifs with h
  · refine .chunk hcmd hrc hchild hout rfl hrun ?_
    simp [sendCommand, followed, hcmd, ← hmore, h]
  · have hchmod := chmodNew_sends env (readData { s with fishCommand := cmd }).2
    obtain ⟨hchild', hout', _, hrun', hlist'⟩ := hchmod
    refine .chunk hcmd hrc (hchild'.trans hchild) (hout'.trans hout) rfl (hrun'.trans hrun) ?_
    rw [hlist, hexist, hperm] at hlist'
    simp [hlist', followed, hcmd, ← hmore, h]

lemma afterStor_eq (s : State) :
    s.afterStor = { s with fishCommand := s.afterStor.fishCommand } := by
  unfold afterStor
  split_ifs <;> rfl

lemma afterStor_sendsBody {cmd : Command} (hcmd : cmd = .WRITE ∨ cmd = .APPEND)
    (h : s.afterStor.fishCommand = cmd) : s.sendsBody := by
  unfold afterStor at h
  by_cases hstor : s.fishCommand = .STOR
  · exact Or.inl hstor
  · rw [if_neg hstor] at h
    exact Or.inr (h ▸ hcmd)

lemma respondOk_sends (s : State) (h0 : rc ≠ 0) (h100 : rc ≠ 100) (h2 : rc.tdiv 100 = 2) :
    Sends env s rc (s.respondOk env) := by
  have hrc : s.Answers rc := ⟨h0, h100, Or.inl h2⟩
  have hnot : s.afterStor.fishCommand ≠ .APPEND → s.afterStor.fishCommand ≠ .WRITE →
      s.sendsBody → False := by
    rintro happend hwrite (hstor | hcmd | hcmd)
    · unfold afterStor at happend hwrite
      rw [if_pos hstor] at happend hwrite
      cases hhas : s.hasAppend <;> simp [hhas] at happend hwrite
    · simp [afterStor, hcmd] at hwrite
    · simp [afterStor, hcmd] at happend
  unfold respondOk
  dsimp only
  rw [afterStor_eq]
  split
  case h_1 h =>
    split_ifs
    · exact .fail rfl ⟨rfl, rfl, rfl, rfl, Or.inl ⟨rfl, rfl, rfl⟩⟩
    · exact .finished hrc ⟨rfl, rfl, rfl, rfl, rfl, rfl⟩ (hnot (by simp_all) (by simp_all))
  case h_2 h =>
    exact .finished hrc ⟨rfl, rfl, rfl, rfl, rfl, rfl⟩ (hnot (by simp_all) (by simp_all))
  case h_3 h => exact nextAppend_sends env _ (afterStor_sendsBody (Or.inr rfl) h) hrc
  case h_4 h => exact nextWrite_sends env _ (afterStor_sendsBody (Or.inl rfl) h) hrc
  case h_5 h =>
    exact .finished hrc ⟨rfl, rfl, rfl, rfl, rfl, rfl⟩ (hnot (by simp_all) (by simp_all))
  case h_6 =>
    exact .finished hrc ⟨rfl, rfl, rfl, rfl, rfl, rfl⟩ (hnot (by simp_all) (by simp_all))

variable {env} in
lemma Sends.of {count : ℤ} {signals : List Signal} {x : State × Next}
    (h : Sends env { s with errorCount := count, signals := signals } rc x) :
    Sends env s rc x := by
  cases h with
  | fail hresult h => exact .fail hresult ⟨h.1, h.2, h.3, h.4, h.5⟩
  | go h => exact .go ⟨h.1, h.2, h.3, h.4, h.5, h.6⟩
  | finished hrc h hbody => exact .finished hrc ⟨h.1, h.2, h.3, h.4, h.5, h.6⟩ hbody
  | code hcmd hrc h => exact .code hcmd hrc ⟨h.1, h.2, h.3, h.4, h.5, h.6⟩
  | body hcmd hrc h => exact .body hcmd hrc ⟨h.1, h.2, h.3, h.4, h.5, h.6⟩
  | chunk hcmd hrc hchild hout hlen hrun hlist =>
    exact .chunk hcmd hrc hchild hout hlen hrun hlist

theorem respond_sends (s : State) (line : Text) :
    Sends env s (handleResponse s.errorCount line).1 (s.respond env line) := by
  unfold respond
  dsimp only
  split_ifs with h0 h100 h2
  · exact (respondLine_sends env { s with errorCount := _ } line _).of
  · rw [h100]
    exact (respond100_sends env { s with errorCount := _ }).of
  · exact (respondError_sends env { s with errorCount := _ } h0 h100 line).of
  · exact (respondOk_sends env { s with errorCount := _ } h0 h100 (not_not.mp h2)).of

/-- What `manageConnection` returns. -/
def conclude : State × Next → State × WorkerResult
  | (s, .go) => (s, .pass)
  | (s, .finished) => (s.finished env, .pass)
  | (s, .fail result) => (s, result)

lemma manageLine_sends (s : State) (line : Bytes) :
    ∃ x, Sends env s (handleResponse s.errorCount (env.decode line)).1 x ∧
      s.manageLine env line = conclude env x := by
  have h := respond_sends env (s.emit (.line (env.decode line))) (env.decode line)
  refine ⟨(s.emit (.line (env.decode line))).respond env (env.decode line), h.of, ?_⟩
  unfold manageLine manageConnection conclude
  rcases (s.emit (.line (env.decode line))).respond env (env.decode line) with ⟨t, next⟩
  cases next <;> rfl

/-- Raw data sets these members only. -/
def Takes (s t : State) : Prop :=
  ∃ rawRead dataRead mimeBuffer mimeTypeSent signals, t = { s with
    rawRead := rawRead
    dataRead := dataRead
    mimeBuffer := mimeBuffer
    mimeTypeSent := mimeTypeSent
    signals := signals }

lemma sendMime_takes (s : State) (bytes : Bytes) : Takes s ((s.collect bytes).sendMime env) := by
  unfold sendMime
  dsimp only
  split_ifs <;> exact ⟨_, _, _, _, _, rfl⟩

end State

namespace Reading

variable (env : Env)

/-- What a byte does: it is kept or taken as data, or it ends a line. -/
inductive Eats (r : Reading) (b : UInt8) : Reading → Prop
  | take {t : State} {buf : Bytes} (h : r.worker.Takes t) : Eats r b ⟨t, buf, none⟩
  | line {x : State × Next} (hb : b = 10) (hraw : r.worker.rawRead ≤ 0)
      (h : State.Sends env r.worker (handleResponse r.worker.errorCount (env.decode r.buf)).1 x)
      (hpass : (State.conclude env x).2 = .pass) : Eats r b ⟨(State.conclude env x).1, [], none⟩
  | fail {t : State} {result : WorkerResult} (hresult : result.success = false)
      (h : State.Failed r.worker t) : Eats r b ⟨t, [], some result⟩

lemma eat_eats {r : Reading} (hf : r.failed = none) (b : UInt8) : Eats env r b (r.eat env b) := by
  obtain ⟨s, buf, failed⟩ := r
  simp only at hf
  subst hf
  unfold eat
  simp only [Option.isSome_none, Bool.false_eq_true, if_false]
  by_cases hraw : 0 < s.rawRead
  · rw [if_pos hraw]
    split_ifs
    · exact .take ⟨_, _, _, _, _, rfl⟩
    · exact .take (State.sendMime_takes env s [b])
    · exact .take ⟨_, _, _, _, _, rfl⟩
  · rw [if_neg hraw]
    by_cases hb : b = 10
    · rw [if_pos hb]
      have hraw' : s.rawRead ≤ 0 := Int.not_lt.mp hraw
      obtain ⟨⟨t, next⟩, hsends, hline⟩ := State.manageLine_sends env s buf
      rw [hline]
      cases next with
      | go => exact .line (r := ⟨s, buf, none⟩) hb hraw' hsends rfl
      | finished => exact .line (r := ⟨s, buf, none⟩) hb hraw' hsends rfl
      | fail result =>
        cases hsends with
        | fail hresult h =>
          cases result with
          | pass => simp at hresult
          | fail type detail => exact .fail rfl h
    · rw [if_neg hb]
      exact .take ⟨_, _, _, _, _, rfl⟩

end Reading

/-! ### What holds in every session -/

def Op.sends (env : Env) (op : Op) : Bool :=
  match op with
  | .chmod path permissions => decide (env.normalized path = []) || decide (0 ≤ permissions)
  | op => op.otherHost.isNone

namespace Out

lemma writeChild_rawWrite (o : Out) (buf : Bytes) : (o.writeChild buf).rawWrite = o.rawWrite := by
  unfold writeChild
  split_ifs <;> rfl

lemma writeFirst_rawWrite (o : Out) : o.writeFirst.rawWrite = o.rawWrite := by
  unfold writeFirst
  split
  · rfl
  · exact writeChild_rawWrite o _

lemma writeStdin_rawWrite (o : Out) (line : Bytes) : (o.writeStdin line).rawWrite = o.rawWrite := by
  unfold writeStdin
  dsimp only
  split_ifs
  · exact writeFirst_rawWrite _
  · rfl

lemma nextLine_rawWrite (o : Out) : o.nextLine.rawWrite = o.rawWrite := by
  unfold nextLine
  dsimp only
  split_ifs
  · rfl
  · exact writeFirst_rawWrite _

end Out

namespace State

/-- The body that is announced or being written is `rawData`, and without a child nothing is. -/
structure Sound (s : State) : Prop where
  sendLen : s.sendLen = -1 ∨ s.sendLen = s.rawData.length
  rawWrite : s.isRunning = true →
    s.out.rawWrite = -1 ∨ s.out.rawWrite = 0 ∨ s.out.rawWrite = s.rawData.length
  closed : s.childPid = false → s.out = Out.initial ∧ s.isRunning = false

variable {s t : State}

lemma Takes.sound (h : Takes s t) (hs : Sound s) : Sound t := by
  obtain ⟨_, _, _, _, _, rfl⟩ := h
  exact ⟨hs.1, hs.2, hs.3⟩

lemma SameSending.sound (h : SameSending s t) (hs : Sound s) : Sound t := by
  obtain ⟨hchild, hout, hraw, hlen, hrun, _⟩ := h
  refine ⟨?_, ?_, ?_⟩
  · rw [hlen, hraw]
    exact hs.sendLen
  · rw [hrun, hout, hraw]
    exact hs.rawWrite
  · rw [hchild, hout, hrun]
    exact hs.closed

lemma Failed.sound (h : Failed s t) (hs : Sound s) : Sound t := by
  obtain ⟨hrun, _, _, hraw, hconnection⟩ := h
  refine ⟨?_, fun h => absurd (hrun.symm.trans h) (by decide), fun hchild => ⟨?_, hrun⟩⟩
  · rcases hconnection with ⟨_, _, hlen⟩ | ⟨_, _, hlen⟩
    · rw [hlen, hraw]
      exact hs.sendLen
    · exact Or.inl hlen
  · rcases hconnection with ⟨hchild', hout, _⟩ | ⟨_, hout, _⟩
    · rw [hout]
      exact (hs.closed (hchild'.symm.trans hchild)).1
    · exact hout

lemma shutdown_sound (s : State) : Sound s.shutdownConnection :=
  ⟨Or.inl rfl, fun h => absurd h (by simp [shutdownConnection]), fun _ => ⟨rfl, rfl⟩⟩

variable (env : Env)

lemma finished_sound (hlen : s.sendLen = -1 ∨ s.sendLen = s.rawData.length)
    (hchild : s.childPid = true) : Sound (s.finished env) := by
  have hopen : s.childPid = false → False := fun h => absurd (hchild.symm.trans h) (by decide)
  unfold finished
  split
  · exact ⟨hlen, fun h => absurd h (by simp), fun h => (hopen h).elim⟩
  · exact ⟨hlen, fun _ => Or.inl (Out.writeStdin_rawWrite _ _), fun h => (hopen h).elim⟩

lemma Sends.sound (hs : Sound s) (hchild : s.childPid = true) {rc : ℤ} {x : State × Next}
    (h : Sends env s rc x) : Sound (conclude env x).1 := by
  have hopen : s.childPid = false → False := fun h => absurd (hchild.symm.trans h) (by decide)
  cases h with
  | fail _ h => exact h.sound hs
  | go h => exact h.sound hs
  | finished _ h _ =>
    have ht := h.sound hs
    exact finished_sound env ht.sendLen (h.childPid.trans hchild)
  | code _ _ h =>
    refine h.sound ⟨hs.sendLen, fun hrun => ?_, fun h' => (hopen h').elim⟩
    have hkeep : (s.out.writeChild env.fishCode).rawWrite = s.out.rawWrite :=
      Out.writeChild_rawWrite _ _
    rw [hkeep]
    exact hs.rawWrite hrun
  | body _ _ h =>
    refine h.sound ⟨hs.sendLen, fun _ => ?_, fun h' => (hopen h').elim⟩
    have hbody : (s.out.beginBody s.rawData s.sendLen).rawWrite = s.sendLen :=
      Out.writeChild_rawWrite _ _
    rw [hbody]
    rcases hs.sendLen with hlen | hlen
    · exact Or.inl hlen
    · exact Or.inr (Or.inr hlen)
  | chunk _ _ hchild' _ hlen _ _ =>
    exact finished_sound env (Or.inr hlen) (hchild'.trans hchild)

/-- The branch of `sent` that asks for more of a body is never taken: a body is written as a
whole. -/
lemma sent_eq (h : s.out.rawWrite = -1 ∨ s.out.rawWrite = 0 ∨
    s.out.rawWrite = s.rawData.length) :
    s.sent = { s with out :=
      if 0 < s.out.rawWrite then { s.out.writeChild s.rawData with rawWrite := 0 }
      else if s.out.rawWrite = 0 then { s.out.writeChild Out.padding with rawWrite := -1 }
      else s.out.nextLine } := by
  unfold sent
  by_cases hpos : 0 < s.out.rawWrite
  · have hraw : s.out.rawWrite = s.rawData.length := by omega
    have htake : s.rawData.take s.out.rawWrite.toNat = s.rawData := by
      rw [hraw, Int.toNat_natCast, List.take_length]
    have hzero : s.out.rawWrite - s.rawData.length = 0 := by omega
    simp only [hpos, if_true, htake, hzero]
    exact if_neg (by decide)
  · simp only [hpos, if_false]
    split_ifs <;> rfl

lemma sent_sound (hs : Sound s) (hrun : s.isRunning = true) :
    Sound s.sent ∧ ∃ out, s.sent = { s with out := out } := by
  have hraw := hs.rawWrite hrun
  rw [sent_eq hraw]
  refine ⟨⟨hs.sendLen, fun _ => ?_, fun h => ?_⟩, _, rfl⟩
  · dsimp only
    split_ifs with hpos hzero
    · exact Or.inr (Or.inl rfl)
    · exact Or.inl rfl
    · rw [Out.nextLine_rawWrite]
      exact hraw
  · exact absurd (hrun.symm.trans (hs.closed h).2) (by decide)

lemma writeSome_sound (hs : Sound s) (hrun : s.isRunning = true) (n : ℕ) :
    Sound (s.writeSome n) ∧ ∃ out, s.writeSome n = { s with out := out } := by
  have hopen : s.childPid = false → False := fun h =>
    absurd (hrun.symm.trans (hs.closed h).2) (by decide)
  unfold writeSome
  dsimp only
  split_ifs
  · exact sent_sound ⟨hs.sendLen, hs.rawWrite, fun h => (hopen h).elim⟩ hrun
  · exact ⟨⟨hs.sendLen, hs.rawWrite, fun h => (hopen h).elim⟩, _, rfl⟩

/-- What an operation changes before the loop of `run`: the commands are put up, on a connection
that is there or new, or no connection is left. -/
structure Prepares (s t : State) : Prop where
  mimeBuffer : t.mimeBuffer = s.mimeBuffer
  rawData : t.rawData = s.rawData
  connection : (t.out = s.out ∧ t.sendLen = s.sendLen ∧
      (t.isRunning = true → s.isRunning = true) ∧ (s.childPid = true → t.childPid = true)) ∨
    (t.out = Out.initial ∧ t.sendLen = -1 ∧ t.isRunning = false ∧ t.childPid = false)

lemma Prepares.sound (h : Prepares s t) (hs : Sound s) : Sound t := by
  obtain ⟨_, hraw, hconnection⟩ := h
  rcases hconnection with ⟨hout, hlen, hrun, hchild⟩ | ⟨hout, hlen, hrun, _⟩
  · refine ⟨?_, ?_, fun h => ?_⟩
    · rw [hlen, hraw]
      exact hs.sendLen
    · rw [hout, hraw]
      exact fun h => hs.rawWrite (hrun h)
    · have hclosed : s.childPid = false := by
        cases hc : s.childPid with
        | false => rfl
        | true => exact absurd (h.symm.trans (hchild hc)) (by decide)
      obtain ⟨hinitial, hidle⟩ := hs.closed hclosed
      refine ⟨hout.trans hinitial, ?_⟩
      cases ht : t.isRunning with
      | false => rfl
      | true => exact absurd (hidle.symm.trans (hrun ht)) (by decide)
  · exact ⟨Or.inl hlen, fun h => absurd (hrun.symm.trans h) (by decide), fun _ => ⟨hout, hrun⟩⟩

lemma openConnection_prepares (login : WorkerResult) (s : State) :
    Prepares s (s.openConnection env login).1 ∧
      ((s.openConnection env login).2.success = true →
        (s.openConnection env login).1.childPid = true ∧
        (s.openConnection env login).1.isRunning = s.isRunning) := by
  unfold openConnection
  dsimp only
  split_ifs with hchild hlogin
  · exact ⟨⟨rfl, rfl, Or.inl ⟨rfl, rfl, id, id⟩⟩, fun _ => ⟨hchild, rfl⟩⟩
  · exact ⟨⟨rfl, rfl, Or.inl ⟨rfl, rfl, id, fun _ => rfl⟩⟩, fun _ => ⟨rfl, rfl⟩⟩
  · exact ⟨⟨rfl, rfl, Or.inr ⟨rfl, rfl, rfl, rfl⟩⟩, fun h => absurd h hlogin⟩

/-- Members that the commands of an operation leave as they are. -/
def Queues (s t : State) : Prop :=
  t.childPid = s.childPid ∧ t.isRunning = s.isRunning ∧ t.out = s.out ∧
    t.sendLen = s.sendLen ∧ t.rawData = s.rawData ∧ t.mimeBuffer = s.mimeBuffer

lemma Queues.refl (s : State) : Queues s s := ⟨rfl, rfl, rfl, rfl, rfl, rfl⟩

lemma Queues.trans {u : State} (h : Queues s t) (h' : Queues t u) : Queues s u := by
  obtain ⟨h1, h2, h3, h4, h5, h6⟩ := h
  obtain ⟨h1', h2', h3', h4', h5', h6'⟩ := h'
  exact ⟨h1'.trans h1, h2'.trans h2, h3'.trans h3, h4'.trans h4, h5'.trans h5, h6'.trans h6⟩

lemma checkDestination_queues (overwrite : Bool) (s : State) :
    Queues s (s.checkDestination env overwrite) := by
  unfold checkDestination
  split_ifs
  · exact Queues.refl s
  · exact Queues.refl s

lemma setPermissions_queues (permissions : ℤ) (s : State) :
    Queues s (s.setPermissions env permissions) := by
  unfold setPermissions
  split_ifs
  · exact Queues.refl s
  · exact Queues.refl s

lemma setPermissions_ne {permissions : ℤ} (h : s.commandList ≠ []) :
    (s.setPermissions env permissions).commandList ≠ [] := by
  unfold setPermissions
  split_ifs
  · simp [sendCommand]
  · exact h

lemma enqueue_queues (s : State) (op : Op) :
    Queues s (s.enqueue env op) ∧ (s.enqueue env op).commandList ≠ [] := by
  cases op with
  | rename src path overwrite sameHost =>
    exact ⟨checkDestination_queues env overwrite s, by simp [enqueue, sendCommand]⟩
  | symlink target path overwrite =>
    exact ⟨checkDestination_queues env overwrite s, by simp [enqueue, sendCommand]⟩
  | mkdir path permissions =>
    exact ⟨setPermissions_queues env permissions _, setPermissions_ne env (by simp [sendCommand])⟩
  | copy src path permissions overwrite sameHost =>
    have hcheck := checkDestination_queues env overwrite s
    have hcopy : Queues s ((s.checkDestination env overwrite).sendCommand env .COPY
        [env.E (env.normalized src), env.E s.url]) := hcheck
    exact ⟨hcopy.trans (setPermissions_queues env permissions _),
      setPermissions_ne env (by simp [sendCommand])⟩
  | _ => exact ⟨Queues.refl s, by simp [enqueue, sendCommand]⟩

/-- What a call comes to: a result, or the loop of `run` with commands to send. -/
def Called (s : State) (x : State × Option WorkerResult) : Prop :=
  ∃ u, Prepares s u ∧ ((∃ result, x = (u, some result)) ∨
    (u.childPid = true ∧ u.isRunning = false ∧ s.isRunning = false ∧ u.commandList ≠ [] ∧
      x = (({ u with isRunning := true } : State).finished env, none)))

lemma startRun_called {u : State} (hprep : Prepares s t) (hchild : t.childPid = true)
    (hrun : t.isRunning = s.isRunning) (hu : Queues t u) (hlist : u.commandList ≠ []) :
    Called env s (u.startRun env) := by
  obtain ⟨hchild', hrun', hout, hlen, hraw, hmime⟩ := hu
  have hprep' : Prepares s u := by
    refine ⟨hmime.trans hprep.mimeBuffer, hraw.trans hprep.rawData, ?_⟩
    rw [hout, hlen, hrun', hchild']
    exact hprep.connection
  refine ⟨u, hprep', ?_⟩
  unfold startRun
  split_ifs with hbusy
  · exact Or.inl ⟨_, rfl⟩
  · have hidle : u.isRunning = false := by simpa using hbusy
    exact Or.inr ⟨hchild'.trans hchild, hidle, hrun ▸ hrun' ▸ hidle, hlist, rfl⟩

lemma call_called (op : Op) (login : WorkerResult) (s : State) :
    Called env s (s.call env op login) ∧
      (op.sends env = false → (s.call env op login).2.isSome) := by
  unfold call
  cases hop : op.otherHost with
  | some src =>
    dsimp only
    refine ⟨⟨(s.error .ERR_UNSUPPORTED_ACTION "").1, ⟨rfl, rfl, Or.inl ⟨rfl, rfl, ?_, id⟩⟩,
      Or.inl ⟨_, rfl⟩⟩, fun _ => rfl⟩
    exact fun h => absurd h (by simp [error])
  | none =>
    obtain ⟨hprep, hopen⟩ := openConnection_prepares env login { s with url := op.path }
    rcases hx : openConnection env login { s with url := op.path } with ⟨t, result⟩
    rw [hx] at hprep hopen
    have hprep' : Prepares s t := ⟨hprep.1, hprep.2, hprep.3⟩
    dsimp only
    by_cases hresult : result.success = false
    · rw [if_pos hresult]
      exact ⟨⟨t, hprep', Or.inl ⟨result, rfl⟩⟩, fun _ => rfl⟩
    · rw [if_neg hresult]
      obtain ⟨hchild, hrun⟩ := hopen (by simpa using hresult)
      have hstart : ∀ u, Queues t u → u.commandList ≠ [] → Called env s (u.startRun env) :=
        fun u hu hlist => startRun_called env hprep' hchild hrun hu hlist
      have henqueue : ∀ v : State, Queues t v → Called env s ((v.enqueue env op).startRun env) := by
        intro v hv
        obtain ⟨hq, hlist⟩ := enqueue_queues env v op
        exact hstart _ (hv.trans hq) hlist
      have hpwd : ∀ v : State, Queues t v →
          Called env s ((v.sendCommand env .PWD []).startRun env) := fun v hv =>
        hstart _ hv (by simp [sendCommand])
      cases op with
      | exec command path =>
        exact ⟨henqueue t (Queues.refl t), fun h => absurd h (by simp [Op.sends, Op.otherHost])⟩
      | chmod path permissions =>
        dsimp only
        split_ifs with hpath hneg
        · exact ⟨hpwd _ (Queues.refl t), fun h => absurd h (by
            have hpath' : env.normalized path = [] := hpath
            simp [Op.sends, hpath'])⟩
        · exact ⟨⟨{ t with url := env.normalized path }, ⟨hprep'.1, hprep'.2, hprep'.3⟩, Or.inl ⟨_, rfl⟩⟩,
            fun _ => rfl⟩
        · refine ⟨henqueue _ (Queues.refl t), fun h => absurd h (by
            simp only [Op.sends, Bool.or_eq_false_iff, decide_eq_false_iff_not]; omega)⟩
      | _ =>
        dsimp only
        split_ifs
        · exact ⟨hpwd _ (Queues.refl t), fun h => absurd h (by simp [Op.sends, hop])⟩
        · exact ⟨henqueue _ (Queues.refl t), fun h => absurd h (by simp [Op.sends, hop])⟩

end State

namespace Reading

variable {env : Env}

variable {r : Reading}

variable (env) in
lemma Clean.eatAll (h : Clean r) (hf : r.failed = none) (bytes : Bytes)
    (hf' : (r.eatAll env bytes).failed = none) : Clean (r.eatAll env bytes) := by
  have hreceived := State.received_received env h.ready (r.buf ++ bytes)
  unfold State.Received at hreceived
  rw [eatAll_append, h.eatAll_buf hf] at hreceived
  rcases hreceived with ⟨_, heq, hready, hline⟩ | ⟨_, heq⟩
  · rw [heq]
    exact ⟨hready, hline⟩
  · rw [heq] at hf'
    simp at hf'

/-- What holds between two bytes. -/
structure Sound (r : Reading) : Prop where
  worker : r.worker.Sound
  size : r.worker.mimeBuffer.length = 1024 ∨ r.failed = none
  clean : r.failed = none → Clean r

lemma Eats.sound {r' : Reading} {b : UInt8} (h : Eats env r b r') (hs : r.worker.Sound)
    (hready : r.worker.Ready) :
    r'.worker.Sound ∧ (r'.worker.mimeBuffer.length = 1024 ∨ r'.failed = none) := by
  cases h with
  | take h => exact ⟨h.sound hs, Or.inr rfl⟩
  | line _ _ hsends _ => exact ⟨hsends.sound env hs hready.childPid, Or.inr rfl⟩
  | fail _ h => exact ⟨h.sound hs, Or.inl (h.mimeBuffer ▸ hready.size)⟩

lemma Sound.mimeBuffer (h : Sound r) : r.worker.mimeBuffer.length = 1024 := by
  rcases h.size with hsize | hf
  · exact hsize
  · exact (h.clean hf).ready.size

lemma Sound.eat (h : Sound r) (b : UInt8) : Sound (r.eat env b) := by
  cases hf : r.failed with
  | some result =>
    have heat : r.eat env b = r := by
      simp only [Reading.eat, hf, Option.isSome_some, if_true]
    rw [heat]
    exact h
  | none =>
    have hclean := h.clean hf
    have hclean' : (r.eat env b).failed = none → Clean (r.eat env b) :=
      hclean.eatAll env hf [b]
    obtain ⟨hwork, hsize⟩ := (eat_eats env hf b).sound h.worker hclean.ready
    exact ⟨hwork, hsize, hclean'⟩

variable (env) in
lemma Sound.eatAll (h : Sound r) (bytes : Bytes) : Sound (r.eatAll env bytes) := by
  induction bytes generalizing r with
  | nil => exact h
  | cons b bytes ih => exact ih (h.eat b)

end Reading

namespace Session

variable (env : Env) (connectionHost : String)

/-- What holds of a session: the worker keeps its laws, and in the loop of `run` it waits for the
rest of a line, or for data. -/
structure Sound (σ : Session) : Prop where
  worker : σ.worker.Sound
  size : σ.worker.mimeBuffer.length = 1024
  inside : σ.inside = true → σ.worker.isRunning = true ∧ Reading.Clean ⟨σ.worker, σ.buf, none⟩

variable {env connectionHost}

variable {σ : Session}

lemma Sound.reading (h : Sound σ) (hin : σ.inside = true) : Reading.Sound ⟨σ.worker, σ.buf, none⟩ :=
  ⟨h.worker, Or.inr rfl, fun _ => (h.inside hin).2⟩

lemma Sound.leave {s : State} (hs : s.Sound) (hsize : s.mimeBuffer.length = 1024)
    (result : WorkerResult) : Sound (σ.leave s result) :=
  ⟨hs, hsize, fun h => absurd h (by simp [Session.leave])⟩

lemma Sound.goOn {r : Reading} (hr : r.Sound) (hf : r.failed = none) :
    Sound (σ.goOn r.worker r.buf) := by
  have hclean := hr.clean hf
  have hread : (⟨r.worker, r.buf, none⟩ : Reading) = r := by rw [← hf]
  unfold Session.goOn
  split_ifs with hrun
  · exact ⟨hr.worker, hclean.ready.size, fun _ => ⟨hrun, hread ▸ hclean⟩⟩
  · exact Sound.leave hr.worker hclean.ready.size _

lemma Sound.endTurn {r : Reading} (hr : r.Sound) (hf : r.failed = none) (killed : Bool) :
    Sound (σ.endTurn killed r.worker r.buf) := by
  unfold Session.endTurn
  split_ifs
  · exact Sound.leave hr.worker (hr.clean hf).ready.size _
  · exact Sound.goOn hr hf

variable (env connectionHost) in
lemma read_eatAll {r : Reading} (h : r.Clean) (hf : r.failed = none) (chunk : Bytes) :
    (BUFSIZE ≤ r.buf.length ∧ r.read env connectionHost chunk = { r with
      worker := r.worker.shutdownConnection
      failed := some (.fail .ERR_CONNECTION_BROKEN connectionHost) }) ∨
    (r.buf.length < BUFSIZE ∧
      Reading.Same (r.read env connectionHost chunk) (r.eatAll env chunk)) := by
  by_cases hroom : BUFSIZE ≤ r.buf.length
  · refine Or.inl ⟨hroom, ?_⟩
    simp only [Reading.read, hf, Option.isSome_none, Bool.false_eq_true, if_false, hroom, if_true]
  · exact Or.inr ⟨by omega, (Reading.read_same env connectionHost h hf (by omega) chunk).1⟩

variable (env connectionHost) in
lemma Sound.read (h : Sound σ) (hin : σ.inside = true) (chunk : Bytes) :
    Reading.Sound ((⟨σ.worker, σ.buf, none⟩ : Reading).read env connectionHost chunk) := by
  have hr := h.reading hin
  rcases read_eatAll env connectionHost (hr.clean rfl) rfl chunk
    with ⟨_, heq⟩ | ⟨_, hsame⟩
  · rw [heq]
    exact ⟨State.shutdown_sound _, Or.inl h.size, fun h => absurd h (by simp)⟩
  · have heat := hr.eatAll env chunk
    refine ⟨hsame.worker ▸ heat.worker, Or.inl (hsame.worker ▸ heat.mimeBuffer), fun hf => ?_⟩
    rw [hsame.eq hf]
    exact heat.clean (hsame.failed ▸ hf)

theorem Sound.step {σ τ : Session} {l : Label} (h : Sound σ)
    (hl : σ.step env connectionHost l = some τ) : Sound τ := by
  cases l with
  | call op login =>
    simp only [Session.step] at hl
    split_ifs at hl with hin
    obtain ⟨⟨u, hprep, hcase⟩, _⟩ := State.call_called env op login σ.worker
    have hu := hprep.sound h.worker
    have hsize : u.mimeBuffer.length = 1024 := hprep.mimeBuffer ▸ h.size
    rcases hcase with ⟨result, hcall⟩ | ⟨hchild, _, _, hlist, hcall⟩
    · rw [hcall] at hl
      obtain rfl := Option.some.inj hl
      exact Sound.leave hu hsize _
    · rw [hcall] at hl
      obtain rfl := Option.some.inj hl
      set v := State.finished env { u with isRunning := true } with hv
      have hvs : v.Sound := State.finished_sound env (s := { u with isRunning := true }) hu.1 hchild
      have hready : v.Ready := by
        rw [hv]
        unfold State.finished
        split
        · rename_i hnil
          exact absurd hnil hlist
        · exact ⟨hchild, hsize, fun h => absurd h (by simp)⟩
      exact Sound.goOn (r := ⟨v, [], none⟩) ⟨hvs, Or.inr rfl, fun _ => ⟨hready, Or.inl rfl⟩⟩ rfl
  | turn io killed =>
    simp only [Session.step] at hl
    split_ifs at hl with hin
    obtain ⟨hrun, hclean⟩ := h.inside hin
    cases io with
    | none =>
      obtain rfl := Option.some.inj hl
      exact Sound.endTurn (h.reading hin) rfl killed
    | write n =>
      simp only [turn] at hl
      split_ifs at hl with hroom
      obtain rfl := Option.some.inj hl
      obtain ⟨hw, out, hout⟩ := State.writeSome_sound h.worker hrun n
      have hclean' : Reading.Clean ⟨σ.worker.writeSome n, σ.buf, none⟩ := by
        rw [hout]
        exact ⟨⟨hclean.ready.childPid, hclean.ready.size, hclean.ready.room⟩, hclean.line⟩
      exact Sound.endTurn (r := ⟨σ.worker.writeSome n, σ.buf, none⟩)
        ⟨hw, Or.inr rfl, fun _ => hclean'⟩ rfl killed
    | read chunk =>
      simp only [turn] at hl
      have hr := h.read env connectionHost hin chunk
      split at hl
      · obtain rfl := Option.some.inj hl
        exact Sound.leave hr.worker hr.mimeBuffer _
      · rename_i hf
        obtain rfl := Option.some.inj hl
        exact Sound.endTurn hr hf killed
    | broken =>
      obtain rfl := Option.some.inj hl
      exact Sound.leave (State.shutdown_sound _) h.size _

lemma initial_sound (toRead : List ReadData) : Sound (initial toRead) :=
  ⟨⟨Or.inl rfl, fun h : false = true => absurd h (by decide), fun _ => ⟨rfl, rfl⟩⟩,
    List.length_replicate, fun h : false = true => absurd h (by decide)⟩

theorem reaches_sound {toRead : List ReadData} {σ : Session}
    (h : Reaches (step env connectionHost) (initial toRead) σ) : Sound σ :=
  Reaches.inv (I := Sound) (fun _ _ _ hs hl => hs.step hl) (initial_sound toRead) h

end Session

end KioExtras.Fish
