import KioExtras.Fish.Sending

/-!
What is read does not depend on how the bytes come in.

The turns of `run` may write in between, read any chunks, and leave the loop when the operation
is over: the lines, the mime type and the data are those of the bytes one by one.
-/

namespace KioExtras.Fish

open KioExtras.Kio KioExtras.Lib.Run Text

namespace State

/-! ### What is read does not depend on what is written -/

def withOut (s : State) (out : Out) : State := { s with out := out }

/-- Equal, but for the members that hold what is to be written. -/
def SameButOut (s t : State) : Prop := ∃ out, t = s.withOut out

lemma SameButOut.refl (s : State) : SameButOut s s := ⟨s.out, rfl⟩

variable {t : State}

lemma SameButOut.symm {s : State} (h : SameButOut s t) : SameButOut t s := by
  obtain ⟨out, rfl⟩ := h
  exact ⟨s.out, rfl⟩

lemma SameButOut.trans {s u : State} (h : SameButOut s t) (h' : SameButOut t u) :
    SameButOut s u := by
  obtain ⟨_, rfl⟩ := h
  obtain ⟨_, rfl⟩ := h'
  exact ⟨_, rfl⟩

variable (env : Env) (s : State) (out : Out)

lemma lineAccess_out (line : Text) :
    lineAccess (s.withOut out) line = (s.lineAccess line).withOut out := by
  unfold lineAccess
  cases indexOf ':' 12 line <;> rfl

lemma lineP_out (line : Text) : lineP (s.withOut out) line = (s.lineP line).withOut out := by
  unfold lineP withOut
  dsimp only
  split_ifs
  · exact lineAccess_out { s with
      errorCount := s.errorCount - 1, udsMime := some inodeDirectory, udsType := S_IFDIR } out _
  · cases fileType (at' 1 (units 12 line)) with
    | some type =>
      exact lineAccess_out { s with errorCount := s.errorCount - 1, udsType := type } out _
    | none => rfl

lemma lineLsTime_out (line : Text) :
    lineLsTime env (s.withOut out) line = (s.lineLsTime env line).withOut out := by
  unfold lineLsTime
  cases indexOf ' ' 0 line with
  | none => rfl
  | some pos =>
    dsimp only
    cases indexOf ' ' (pos + 1) line <;> rfl

lemma lineTime_out (line : Text) :
    lineTime env (s.withOut out) line = (s.lineTime env line).withOut out := by
  unfold lineTime
  cases threeInts 1 line true with
  | none => rfl
  | some found =>
    dsimp only
    cases threeInts (found.2.2.2 + 1) line false <;> rfl

lemma lineSize_out (line : Text) :
    lineSize (s.withOut out) line = (s.lineSize line).withOut out := by
  unfold lineSize
  cases toLongLong (line.drop 1) <;> rfl

lemma lineName_out (line : Text) :
    lineName env (s.withOut out) line = (s.lineName env line).withOut out := by
  unfold lineName withOut
  dsimp only
  split_ifs
  · cases env.mimeTypeForUrl (afterLastSlash 1 line) <;> rfl
  · rfl
  · cases env.mimeTypeForUrl (afterLastSlash 1 line) <;> rfl
  · rfl

lemma lineMime_out (line : Text) :
    lineMime (s.withOut out) line = (s.lineMime line).withOut out := by
  unfold lineMime withOut
  dsimp only
  split_ifs <;> rfl

lemma lineNumber_out (line : Text) :
    lineNumber (s.withOut out) line = (s.lineNumber line).withOut out := by
  unfold lineNumber withOut
  dsimp only
  split_ifs <;> rfl

lemma lineEnd_out : lineEnd (s.withOut out) = s.lineEnd.withOut out := by
  unfold lineEnd withOut
  dsimp only
  cases s.udsMime with
  | none => split_ifs <;> rfl
  | some mime => split_ifs <;> rfl

lemma listLine_out (line : Text) :
    listLine env (s.withOut out) line = (s.listLine env line).withOut out := by
  unfold listLine listUnits
  cases units 1 line with
  | nil => exact lineEnd_out s out
  | cons c rest =>
    dsimp only
    split_ifs
    · exact lineNumber_out s out _
    · exact lineP_out s out _
    · exact lineLsTime_out env s out _
    · exact lineTime_out env s out _
    · exact lineSize_out s out _
    · rfl
    · exact lineName_out env s out _
    · exact lineMime_out s out _
    · rfl
    · rfl

/-- The same way on, and the same state but for what is to be written. -/
def SameNext (x y : State × Next) : Prop := SameButOut x.1 y.1 ∧ x.2 = y.2

lemma error_out (type : Error) (detail : String) :
    SameNext (s.error type detail) ((s.withOut out).error type detail) :=
  ⟨⟨out, rfl⟩, rfl⟩

lemma shutdown_out (type : Error) (detail : String) :
    SameNext (s.shutdownConnection.error type detail)
      ((s.withOut out).shutdownConnection.error type detail) :=
  ⟨⟨Out.initial, rfl⟩, rfl⟩

lemma respondLine_out (line : Text) :
    SameNext (s.respondLine env line) (respondLine env (s.withOut out) line) := by
  have hcmd : (s.withOut out).fishCommand = s.fishCommand := rfl
  unfold respondLine
  rw [hcmd]
  cases s.fishCommand <;> dsimp only
  case VER =>
    split_ifs
    · exact ⟨⟨out, rfl⟩, rfl⟩
    · exact shutdown_out s out _ _
  case LIST => exact ⟨⟨out, listLine_out env s out line⟩, rfl⟩
  case STAT => exact ⟨⟨out, listLine_out env s out line⟩, rfl⟩
  case RETR =>
    split_ifs
    · exact ⟨⟨out, rfl⟩, rfl⟩
    · cases toLongLong line with
      | none => exact shutdown_out s out _ _
      | some recvLen => exact ⟨⟨out, rfl⟩, rfl⟩
  all_goals exact ⟨⟨out, rfl⟩, rfl⟩

lemma beginRead_out (recvLen : ℤ) : SameNext (beginRead env { s with recvLen := recvLen })
      (beginRead env { s.withOut out with recvLen := recvLen }) := by
  unfold beginRead
  dsimp only
  split_ifs
  · exact shutdown_out { s with recvLen := recvLen } out _ _
  · exact ⟨⟨out, rfl⟩, rfl⟩
  · exact ⟨⟨out, rfl⟩, rfl⟩

lemma respond100_out : SameNext (s.respond100 env) (respond100 env (s.withOut out)) := by
  have hcmd : (s.withOut out).fishCommand = s.fishCommand := rfl
  unfold respond100
  rw [hcmd]
  cases s.fishCommand <;> dsimp only
  case FISH => exact ⟨⟨{ out.writeChild env.fishCode with due := out.due ++ env.fishCode }, rfl⟩, rfl⟩
  case READ => exact beginRead_out env { s with fishCommand := .READ } out 1024
  case RETR => exact beginRead_out env s out s.recvLen
  case STOR => exact ⟨⟨out.beginBody s.rawData s.sendLen, rfl⟩, rfl⟩
  case WRITE => exact ⟨⟨out.beginBody s.rawData s.sendLen, rfl⟩, rfl⟩
  case APPEND => exact ⟨⟨out.beginBody s.rawData s.sendLen, rfl⟩, rfl⟩
  all_goals exact ⟨⟨out, rfl⟩, rfl⟩

lemma respondError_out (rc : ℤ) (line : Text) :
    SameNext (s.respondError env rc line) (respondError env (s.withOut out) rc line) := by
  have hcmd : (s.withOut out).fishCommand = s.fishCommand := rfl
  have hreason : (s.withOut out).listReason = s.listReason := rfl
  unfold respondError
  rw [hcmd, hreason]
  cases s.fishCommand <;> dsimp only
  case READ =>
    split_ifs
    · exact ⟨⟨out, rfl⟩, rfl⟩
    · exact shutdown_out s out _ _
  case LIST =>
    split_ifs
    · exact error_out s out _ _
    · exact ⟨⟨out, rfl⟩, rfl⟩
  case STAT => exact error_out { s with udsStatEntry := {}, fishCommand := .STAT } out _ _
  all_goals first
    | exact error_out s out _ _
    | exact shutdown_out s out _ _
    | exact ⟨⟨out, rfl⟩, rfl⟩

lemma readData_out : (readData (s.withOut out)).1 = s.readData.1 ∧
    (readData (s.withOut out)).2 = s.readData.2.withOut out := by
  unfold readData withOut
  dsimp only [emit]
  cases s.toRead with
  | nil => exact ⟨rfl, rfl⟩
  | cons data rest => cases data <;> exact ⟨rfl, rfl⟩

lemma chmodNew_out : chmodNew env (s.withOut out) = (s.chmodNew env).withOut out := by
  unfold chmodNew withOut
  dsimp only
  split_ifs <;> rfl

lemma nextAppend_out : nextAppend env (s.withOut out) = (s.nextAppend env).withOut out := by
  obtain ⟨hmore, hdata⟩ := readData_out s out
  unfold nextAppend
  dsimp only
  rw [hmore, hdata]
  split_ifs
  · rfl
  · rw [chmodNew_out]
    rfl

lemma nextWrite_out : nextWrite env (s.withOut out) = (s.nextWrite env).withOut out := by
  obtain ⟨hmore, hdata⟩ := readData_out s out
  unfold nextWrite
  dsimp only
  rw [hmore, hdata]
  split_ifs
  · rfl
  · rw [chmodNew_out]
    rfl

lemma afterStor_out : afterStor (s.withOut out) = s.afterStor.withOut out := by
  unfold afterStor withOut
  dsimp only
  split_ifs <;> rfl

lemma respondOk_out : SameNext (s.respondOk env) (respondOk env (s.withOut out)) := by
  have hcmd : (s.afterStor.withOut out).fishCommand = s.afterStor.fishCommand := rfl
  have hlist : (s.afterStor.withOut out).listReason = s.afterStor.listReason := rfl
  have hover : (s.afterStor.withOut out).checkOverwrite = s.afterStor.checkOverwrite := rfl
  have hexist : (s.afterStor.withOut out).checkExist = s.afterStor.checkExist := rfl
  unfold respondOk
  dsimp only
  rw [afterStor_out, hcmd, hlist, hover, hexist]
  cases s.afterStor.fishCommand <;> dsimp only
  case LIST =>
    split_ifs
    · exact error_out s.afterStor out _ _
    · exact ⟨⟨out, rfl⟩, rfl⟩
  case APPEND => exact ⟨⟨out, nextAppend_out env s.afterStor out⟩, rfl⟩
  case WRITE => exact ⟨⟨out, nextWrite_out env s.afterStor out⟩, rfl⟩
  all_goals exact ⟨⟨out, rfl⟩, rfl⟩

lemma respond_out (line : Text) :
    SameNext (s.respond env line) (respond env (s.withOut out) line) := by
  have hcount : (s.withOut out).errorCount = s.errorCount := rfl
  unfold respond
  rw [hcount]
  rcases handleResponse s.errorCount line with ⟨rc, count⟩
  dsimp only
  split_ifs
  · exact respondLine_out env { s with errorCount := count } out line
  · exact respond100_out env { s with errorCount := count } out
  · exact respondError_out env { s with errorCount := count } out rc line
  · exact respondOk_out env { s with errorCount := count } out

lemma finished_out : SameButOut (s.finished env) (finished env (s.withOut out)) := by
  unfold finished withOut
  dsimp only
  cases s.commandList <;> exact ⟨_, rfl⟩

lemma sendMime_out : (s.withOut out).sendMime env = (s.sendMime env).withOut out := by
  by_cases hread : s.fishCommand = .READ
  · simp [sendMime, withOut, emit, hread]
  · simp [sendMime, withOut, emit, data, hread]

lemma manageLine_out (line : Bytes) :
    SameButOut (s.manageLine env line).1 (manageLine env (s.withOut out) line).1 ∧
      (s.manageLine env line).2 = (manageLine env (s.withOut out) line).2 := by
  obtain ⟨⟨out', hstate⟩, hnext⟩ :=
    respond_out env (s.emit (.line (env.decode line))) out (env.decode line)
  have hemit : (s.withOut out).emit (.line (env.decode line)) =
      (s.emit (.line (env.decode line))).withOut out := rfl
  unfold manageLine manageConnection
  rw [hemit]
  rcases hx : (s.emit (.line (env.decode line))).respond env (env.decode line) with ⟨t, next⟩
  rcases hy : ((s.emit (.line (env.decode line))).withOut out).respond env (env.decode line)
    with ⟨t', next'⟩
  rw [hx, hy] at hstate hnext
  simp only at hstate hnext
  subst hstate hnext
  cases next with
  | go => exact ⟨⟨out', rfl⟩, rfl⟩
  | finished => exact ⟨finished_out env t out', rfl⟩
  | fail result => exact ⟨⟨out', rfl⟩, rfl⟩

end State

namespace Reading

variable {env : Env}

/-- Equal, but for what is to be written. -/
structure SameButOut (r r' : Reading) : Prop where
  worker : r.worker.SameButOut r'.worker
  buf : r.buf = r'.buf
  failed : r.failed = r'.failed

variable {r r' : Reading} {n : ℕ} {s : State}

variable (env) in
lemma SameButOut.eat (h : SameButOut r r') (b : UInt8) :
    SameButOut (r.eat env b) (r'.eat env b) := by
  obtain ⟨s, buf, failed⟩ := r
  obtain ⟨s', buf', failed'⟩ := r'
  obtain ⟨⟨out, rfl⟩, rfl, rfl⟩ := h
  have hraw : (s.withOut out).rawRead = s.rawRead := rfl
  have hsent : (s.withOut out).mimeTypeSent = s.mimeTypeSent := rfl
  have hcollect : (s.withOut out).collect [b] = (s.collect [b]).withOut out := rfl
  have hdata : ((s.collect [b]).withOut out).dataRead = (s.collect [b]).dataRead := rfl
  have hsize : ((s.collect [b]).withOut out).mimeBuffer = (s.collect [b]).mimeBuffer := rfl
  unfold Reading.eat
  dsimp only
  rw [hraw, hsent, hcollect, hdata, hsize]
  split_ifs
  · exact ⟨⟨out, rfl⟩, rfl, rfl⟩
  · exact ⟨⟨out, rfl⟩, rfl, rfl⟩
  · exact ⟨⟨out, State.sendMime_out env (s.collect [b]) out⟩, rfl, rfl⟩
  · exact ⟨⟨out, rfl⟩, rfl, rfl⟩
  · obtain ⟨hstate, hresult⟩ := State.manageLine_out env s out buf
    rcases hx : s.manageLine env buf with ⟨t, result⟩
    rcases hy : (s.withOut out).manageLine env buf with ⟨t', result'⟩
    rw [hx, hy] at hstate hresult
    simp only at hstate hresult
    subst hresult
    cases result with
    | pass => exact ⟨hstate, rfl, rfl⟩
    | fail type detail => exact ⟨hstate, rfl, rfl⟩
  · exact ⟨⟨out, rfl⟩, rfl, rfl⟩

variable (env) in
lemma SameButOut.eatAll (h : SameButOut r r') (bytes : Bytes) :
    SameButOut (r.eatAll env bytes) (r'.eatAll env bytes) := by
  induction bytes generalizing r r' with
  | nil => exact h
  | cons b bytes ih => exact ih (h.eat env b)

lemma SameButOut.shortLines (h : SameButOut r r') {bytes : Bytes}
    (hshort : ShortLines env r bytes) : ShortLines env r' bytes := by
  intro u hu hf
  have hu' := h.eatAll env u
  rw [← hu'.buf]
  exact hshort u hu (hu'.failed.trans hf)

lemma ShortLines.append {u v : Bytes} (h : ShortLines env r (u ++ v)) :
    ShortLines env r u ∧ ShortLines env (r.eatAll env u) v := by
  refine ⟨fun w hw => h w (hw.trans (List.prefix_append u v)), fun w hw hf => ?_⟩
  rw [← eatAll_append] at hf ⊢
  exact h (u ++ w) ((List.prefix_append_right_inj u).mpr hw) hf

variable (env) in
lemma eat_buf_length (r : Reading) (b : UInt8) : (r.eat env b).buf.length ≤ r.buf.length + 1 := by
  unfold Reading.eat
  split_ifs
  · exact Nat.le_succ _
  · exact Nat.le_succ _
  · exact Nat.le_succ _
  · rcases r.worker.manageLine env r.buf with ⟨t, result⟩
    cases result <;> exact Nat.zero_le _
  · simp

variable (env) in
lemma eatAll_buf_length (r : Reading) (bytes : Bytes) :
    (r.eatAll env bytes).buf.length ≤ r.buf.length + bytes.length := by
  induction bytes generalizing r with
  | nil => exact Nat.le_refl _
  | cons b bytes ih =>
    have hfirst := eat_buf_length env r b
    have hrest := ih (r.eat env b)
    rw [eatAll_cons, List.length_cons]
    omega

lemma shortLines_of_length {bytes : Bytes} (h : r.buf.length + bytes.length < BUFSIZE) :
    ShortLines env r bytes := by
  intro u hu _
  have hle := eatAll_buf_length env r u
  have hlen := hu.length_le
  omega

variable (env) in
lemma beginRead_section (hlen : s.recvLen = n) :
    ∃ t, s.beginRead env = (t, .go) ∧ t.rawRead = n ∧ t.dataRead = 0 ∧
      (n ≠ 0 → t.mimeTypeSent = false) ∧ t.url = s.url ∧ t.fishCommand = s.fishCommand ∧
      t.childPid = s.childPid ∧ t.mimeBuffer = s.mimeBuffer ∧
      t.signals = s.signals ++
        if n = 0 then [.mimeType "application/x-zerosize".toList] else [] := by
  have hpos : ¬ s.recvLen = -1 := by omega
  unfold State.beginRead
  rw [if_neg hpos]
  dsimp only
  by_cases h0 : n = 0
  · rw [if_pos (by omega), if_pos h0]
    exact ⟨_, rfl, hlen, rfl, fun h => absurd h0 h, rfl, rfl, rfl, rfl, rfl⟩
  · rw [if_neg (by omega), if_neg h0, List.append_nil]
    exact ⟨_, rfl, hlen, rfl, fun _ => rfl, rfl, rfl, rfl, rfl, rfl⟩

variable (env) in
lemma manageLine_section (line : Bytes)
    (hrc : (handleResponse s.errorCount (env.decode line)).1 = 100)
    (hcmd : (s.fishCommand = .RETR ∧ s.recvLen = n) ∨ (s.fishCommand = .READ ∧ n = 1024)) :
    ∃ t, s.manageLine env line = (t, .pass) ∧ t.rawRead = n ∧ t.dataRead = 0 ∧
      (n ≠ 0 → t.mimeTypeSent = false) ∧ t.url = s.url ∧ t.fishCommand = s.fishCommand ∧
      t.childPid = s.childPid ∧ t.mimeBuffer = s.mimeBuffer ∧
      t.signals = s.signals ++ .line (env.decode line) ::
        if n = 0 then [.mimeType "application/x-zerosize".toList] else [] := by
  set u := s.emit (.line (env.decode line)) with hu
  have hrespond : u.respond env (env.decode line) = State.respond100 env
      { u with errorCount := (handleResponse s.errorCount (env.decode line)).2 } := by
    have hcount : u.errorCount = s.errorCount := rfl
    unfold State.respond
    rw [hcount]
    simp only [hrc, if_true]
    exact if_neg (by decide)
  have hbegin : ∃ recvLen : ℤ, recvLen = n ∧ u.respond env (env.decode line) =
      State.beginRead env { u with
        errorCount := (handleResponse s.errorCount (env.decode line)).2, recvLen := recvLen } := by
    rw [hrespond]
    unfold State.respond100
    rcases hcmd with ⟨hfish, hlen⟩ | ⟨hfish, hlen⟩
    · have hfish' : u.fishCommand = .RETR := hfish
      simp only [hfish']
      exact ⟨s.recvLen, hlen, rfl⟩
    · have hfish' : u.fishCommand = .READ := hfish
      simp only [hfish']
      exact ⟨1024, by omega, rfl⟩
  obtain ⟨recvLen, hlen, hbegin⟩ := hbegin
  obtain ⟨t, ht, hraw, hdata, hsent, hurl, hfish, hchild, hmime, hsignals⟩ :=
    beginRead_section env (n := n) (s := { u with
      errorCount := (handleResponse s.errorCount (env.decode line)).2, recvLen := recvLen }) hlen
  refine ⟨t, ?_, hraw, hdata, hsent, hurl, hfish, hchild, hmime, ?_⟩
  · unfold State.manageLine State.manageConnection
    rw [← hu, hbegin, ht]
  · have hemit : u.signals = s.signals ++ [.line (env.decode line)] := rfl
    rw [hsignals]
    dsimp only
    rw [hemit, List.append_assoc, List.singleton_append]

lemma eatAll_section (h : Clean r) (hf : r.failed = none) (hline : r.worker.rawRead ≤ 0)
    {line raw : Bytes} (hnl : 10 ∉ line)
    (hrc : (handleResponse r.worker.errorCount (env.decode (r.buf ++ line))).1 = 100)
    (hcmd : (r.worker.fishCommand = .RETR ∧ r.worker.recvLen = raw.length) ∨
      (r.worker.fishCommand = .READ ∧ raw.length = 1024)) :
    ∃ t, r.eatAll env (line ++ 10 :: raw) = ⟨t, [], none⟩ ∧ t.Ready ∧ t.rawRead = 0 ∧
      t.signals = r.worker.signals ++
        .line (env.decode (r.buf ++ line)) :: rawSignals env r.worker raw := by
  obtain ⟨s, buf, failed⟩ := r
  simp only at hf
  subst hf
  obtain ⟨t, hmanage, hraw, hdata, hsent, hurl, hfish, hchild, hmime, hsignals⟩ :=
    manageLine_section env (s := s) (buf ++ line) hrc hcmd
  have hready : t.Ready := ⟨hchild.trans h.ready.childPid, by rw [hmime, h.ready.size],
    fun _ _ => by omega⟩
  have hbuf : (⟨s, buf, none⟩ : Reading).eatAll env line = ⟨s, buf ++ line, none⟩ :=
    eatAll_line hline hnl
  have hend : (⟨s, buf ++ line, none⟩ : Reading).eat env 10 = ⟨t, [], none⟩ := by
    simp only [Reading.eat, Option.isSome_none, Bool.false_eq_true, if_false,
      Int.not_lt.mpr hline, if_true, hmanage]
  rw [eatAll_append, hbuf, eatAll_cons, hend]
  by_cases hnil : raw = []
  · subst hnil
    exact ⟨t, rfl, hready, hraw, hsignals⟩
  · have hne : raw.length ≠ 0 := fun h0 => hnil (List.length_eq_zero_iff.mp h0)
    obtain ⟨u, heat, hready', hraw', hsignals'⟩ :=
      eatAll_raw env hready hdata (hsent hne) hraw hnil
    refine ⟨u, heat, hready', hraw', ?_⟩
    rw [hsignals', hsignals, if_neg hne]
    have hsame : rawSignals env t raw = rawSignals env s raw := by
      unfold rawSignals
      rw [hurl, hfish]
    rw [hsame, List.append_assoc, List.singleton_append]

end Reading

def Label.bytes : Label → Bytes
  | .turn (.read chunk) _ => chunk
  | _ => []

/-- A turn of `run` that nothing but a response can end. -/
def Label.undisturbed : Label → Bool
  | .turn .broken _ => false
  | .turn _ killed => !killed
  | .call _ _ => false

namespace Session

variable (env : Env) (connectionHost : String)

/-- Where a session is when `run` has read what `r` tells. -/
structure At (r : Reading) (returned : List WorkerResult) (τ : Session) : Prop where
  worker : r.worker.SameButOut τ.worker
  inside : τ.inside = (r.failed.isNone && r.worker.isRunning)
  buf : τ.buf = if τ.inside = true then r.buf else []
  returned : τ.returned = if τ.inside = true then returned else
    returned ++ [r.failed.getD .pass]

variable {env connectionHost}

variable {σ τ : Session}

lemma At.of_same {r r' : Reading} {returned : List WorkerResult} (h : At r' returned τ)
    (hr : Reading.SameButOut r r') : At r returned τ := by
  obtain ⟨hworker, hinside, hbuf, hreturned⟩ := h
  have hrun : r'.worker.isRunning = r.worker.isRunning := by
    obtain ⟨out, hout⟩ := hr.worker
    rw [hout]
    rfl
  rw [← hr.failed, hrun] at hinside
  rw [← hr.buf] at hbuf
  rw [← hr.failed] at hreturned
  exact ⟨hr.worker.trans hworker, hinside, hbuf, hreturned⟩

lemma turn_at (hs : Sound σ) (hin : σ.inside = true) {l : Label} (hquiet : l.undisturbed = true)
    (hl : σ.step env connectionHost l = some τ)
    (hshort : Reading.ShortLines env ⟨σ.worker, σ.buf, none⟩ l.bytes) :
    At ((⟨σ.worker, σ.buf, none⟩ : Reading).eatAll env l.bytes) σ.returned τ := by
  obtain ⟨hrun, hclean⟩ := hs.inside hin
  cases l with
  | call op login => simp [Label.undisturbed] at hquiet
  | turn io killed =>
    simp only [Session.step, hin, if_true] at hl
    cases io with
    | broken => simp [Label.undisturbed] at hquiet
    | none =>
      have hk : killed = false := by simpa [Label.undisturbed] using hquiet
      obtain rfl := Option.some.inj hl
      subst hk
      simp only [endTurn, goOn, hrun, if_true, Bool.false_eq_true, if_false]
      exact ⟨State.SameButOut.refl _, by simp [hrun, Label.bytes], by simp [Label.bytes], by simp⟩
    | write n =>
      have hk : killed = false := by simpa [Label.undisturbed] using hquiet
      simp only [turn] at hl
      split_ifs at hl with hroom
      obtain rfl := Option.some.inj hl
      subst hk
      obtain ⟨_, out, hout⟩ := State.writeSome_sound hs.worker hrun n
      have hrun' : (σ.worker.writeSome n).isRunning = true := by rw [hout]; exact hrun
      simp only [endTurn, goOn, hrun', if_true, Bool.false_eq_true, if_false]
      exact ⟨⟨out, hout⟩, by simp [hrun, Label.bytes], by simp [Label.bytes], by simp⟩
    | read chunk =>
      have hk : killed = false := by simpa [Label.undisturbed] using hquiet
      subst hk
      have hroom : σ.buf.length < BUFSIZE := hshort [] List.nil_prefix rfl
      obtain ⟨hsame, _⟩ := Reading.read_same env connectionHost hclean rfl hroom chunk
      simp only [turn] at hl
      have hbytes : Label.bytes (.turn (.read chunk) false) = chunk := rfl
      rw [hbytes]
      rcases hread : Reading.read env connectionHost ⟨σ.worker, σ.buf, none⟩ chunk with ⟨t, buf, f⟩
      rw [hread] at hl hsame
      cases f with
      | some result =>
        have hfailed := hsame.failed
        obtain rfl := Option.some.inj hl
        refine ⟨?_, ?_, by simp [leave], ?_⟩
        · rw [← hsame.worker]
          exact State.SameButOut.refl _
        · simp [leave, ← hfailed]
        · simp [leave, ← hfailed]
      | none =>
        have heq := hsame.eq rfl
        obtain rfl := Option.some.inj hl
        rw [← heq]
        simp only [endTurn, goOn, Bool.false_eq_true, if_false]
        by_cases hrun' : t.isRunning = true
        · rw [if_pos hrun']
          exact ⟨State.SameButOut.refl _, by simp [hrun'], by simp, by simp⟩
        · rw [if_neg hrun']
          exact ⟨State.SameButOut.refl _, by simp [hrun', leave], by simp [leave],
            by simp [leave]⟩

/-- **The turns of `run` read the stream byte by byte.** -/
theorem run_at {ls : List Label} (hs : Sound σ) (hin : σ.inside = true)
    (hquiet : ∀ l ∈ ls, l.undisturbed = true) (hrun : run (step env connectionHost) σ ls = some τ)
    (hshort : Reading.ShortLines env ⟨σ.worker, σ.buf, none⟩ (ls.flatMap Label.bytes)) :
    At ((⟨σ.worker, σ.buf, none⟩ : Reading).eatAll env (ls.flatMap Label.bytes)) σ.returned τ := by
  induction ls generalizing σ with
  | nil =>
    obtain rfl := Option.some.inj hrun
    exact ⟨State.SameButOut.refl _, by simp [hin, (hs.inside hin).1], by simp [hin], by simp [hin]⟩
  | cons l ls ih =>
    obtain ⟨υ, hl, hrest⟩ := run_cons_some _ hrun
    rw [List.flatMap_cons] at hshort ⊢
    obtain ⟨hfirst, hlast⟩ := hshort.append
    obtain ⟨hworker, hinside, hbuf, hreturned⟩ :=
      turn_at hs hin (hquiet l (by simp)) hl hfirst
    rw [Reading.eatAll_append]
    set r := (⟨σ.worker, σ.buf, none⟩ : Reading).eatAll env l.bytes with hr
    cases hυ : υ.inside with
    | true =>
      rw [hυ] at hinside hbuf hreturned
      simp only [if_true] at hbuf hreturned
      have hnone : r.failed = none := by
        cases hf : r.failed with
        | none => rfl
        | some result => simp [hf] at hinside
      have hsame : Reading.SameButOut r ⟨υ.worker, υ.buf, none⟩ := ⟨hworker, hbuf.symm, hnone⟩
      have hat := ih (hs.step hl) hυ (fun m hm => hquiet m (by simp [hm])) hrest
        (hsame.shortLines hlast)
      rw [hreturned] at hat
      exact hat.of_same (hsame.eatAll env (ls.flatMap Label.bytes))
    | false =>
      -- no turn follows the end of `run`
      obtain rfl : ls = [] := by
        cases ls with
        | nil => rfl
        | cons m ms =>
          obtain ⟨_, hm, _⟩ := run_cons_some _ hrest
          have hquiet' := hquiet m (by simp)
          cases m with
          | call op login => simp [Label.undisturbed] at hquiet'
          | turn io killed => simp [Session.step, hυ] at hm
      obtain rfl := Option.some.inj hrest
      exact ⟨hworker, hinside, hbuf, hreturned⟩

end Session

end KioExtras.Fish
