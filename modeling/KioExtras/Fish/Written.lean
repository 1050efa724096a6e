import KioExtras.Fish.Sending
import Mathlib.Tactic.Common

/-!
The bytes given to `::write`.

The buffer for them is shared by the commands, the server the worker carries along, the bodies
and the padding. What is due and what is still pending are told apart, and nothing is lost as
long as every response comes when its turn is.
-/

namespace KioExtras.Fish

open KioExtras.Kio KioExtras.Lib.Run Text

namespace Out

/-- What follows the buffer of a body that has been asked for. -/
def body (o : Out) (rawData : Bytes) : Bytes :=
  if o.rawWrite < 0 then [] else rawData.take o.rawWrite.toNat ++ padding

/-- What has yet to be written: the rest of the buffer, of a body, and the commands that wait. -/
def pending (o : Out) (rawData : Bytes) : Bytes :=
  o.outBuf.drop o.outBufPos.toNat ++ o.body rawData ++ o.qlist.tail.flatten

/-- Nothing was lost: what was written and what is pending is what is due. -/
def Faithful (o : Out) (rawData : Bytes) : Prop :=
  o.discarded = false ∧ o.dropped = false ∧ o.due = o.written ++ o.pending rawData

/-- What is kept between the turns of `run`. -/
structure Tidy (o : Out) (rawData : Bytes) : Prop where
  faithful : o.Faithful rawData
  buffer : (o.outBufPos = -1 ∧ o.outBuf = []) ∨ 0 ≤ o.outBufPos
  queue : o.writeReady = true ↔ o.qlist = []
  handed : o.qlist ≠ [] → o.handed = true
  rawWrite : o.rawWrite = -1 ∨ o.rawWrite = 0 ∨ o.rawWrite = rawData.length

/-- The next command can be given to `writeStdin`: no body is under way, and the buffer is free
or the command queues up. -/
def Idle (o : Out) : Prop := o.rawWrite < 0 ∧ (o.writeReady = true → o.busy = false)

instance (o : Out) : Decidable o.Idle := inferInstanceAs (Decidable (_ ∧ (_ → _)))

lemma initial_tidy (rawData : Bytes) : Out.initial.Tidy rawData :=
  ⟨⟨rfl, rfl, rfl⟩, Or.inl ⟨rfl, rfl⟩, ⟨fun _ => rfl, fun _ => rfl⟩, fun h => absurd rfl h, Or.inl rfl⟩

lemma initial_idle : Out.initial.Idle := by decide

variable {o : Out} {rawData : Bytes}

lemma Tidy.outBuf (h : o.Tidy rawData) (hbusy : o.busy = false) : o.outBuf = [] := by
  rcases h.buffer with ⟨_, hbuf⟩ | hpos
  · exact hbuf
  · have hempty : o.outBuf.isEmpty = true := by
      simpa [busy, hpos] using hbusy
    exact List.isEmpty_iff.mp hempty

lemma writeChild_free (hbusy : o.busy = false) (buf : Bytes) :
    o.writeChild buf = { o with outBuf := buf, outBufPos := 0 } := by
  simp [writeChild, hbusy]

lemma body_neg (h : o.rawWrite < 0) (rawData : Bytes) : o.body rawData = [] :=
  if_pos h

lemma Tidy.other (h : o.Tidy rawData) (hraw : o.rawWrite ≤ 0) (rawData' : Bytes) :
    o.Tidy rawData' := by
  have hbody : o.body rawData' = o.body rawData := by
    unfold body
    split_ifs with hneg
    · rfl
    · have hzero : o.rawWrite = 0 := by omega
      simp [hzero]
  obtain ⟨hdiscarded, hdropped, hdue⟩ := h.faithful
  have hkinds : o.rawWrite = -1 ∨ o.rawWrite = 0 := by
    rcases h.rawWrite with h1 | h0 | hlen
    · exact Or.inl h1
    · exact Or.inr h0
    · exact Or.inr (by omega)
  refine ⟨⟨hdiscarded, hdropped, ?_⟩, h.buffer, h.queue, h.handed, ?_⟩
  swap
  · exact hkinds.imp_right Or.inl
  rw [hdue]
  unfold pending
  rw [hbody]

lemma writeFirst_free {first : Bytes} {rest : List Bytes} (hq : o.qlist = first :: rest)
    (hbusy : o.busy = false) :
    o.writeFirst = { o with outBuf := first, outBufPos := 0, handed := true } := by
  simp [writeFirst, hq, writeChild, hbusy]

lemma writeStdin_free (hready : o.writeReady = true) (hqueue : o.qlist = [])
    (hbusy : o.busy = false) (line : Bytes) :
    o.writeStdin line = { o with
      outBuf := line, outBufPos := 0, qlist := [line], writeReady := false, handed := true
      due := o.due ++ line } := by
  have hbusy' : Out.busy { o with
      qlist := [line], due := o.due ++ line, writeReady := false } = false := hbusy
  simp [Out.writeStdin, hready, hqueue, writeFirst, writeChild, hbusy']

lemma writeStdin_waits (hready : o.writeReady = false) (line : Bytes) :
    o.writeStdin line = { o with qlist := o.qlist ++ [line], due := o.due ++ line } := by
  simp [Out.writeStdin, hready]

lemma Tidy.writeStdin (h : o.Tidy rawData) (hidle : o.Idle) (line : Bytes) :
    (o.writeStdin line).Tidy rawData := by
  obtain ⟨hdiscarded, hdropped, hdue⟩ := h.faithful
  obtain ⟨hraw, hfree⟩ := hidle
  unfold pending at hdue
  rw [body_neg hraw] at hdue
  by_cases hready : o.writeReady = true
  · have hnil := h.queue.mp hready
    have hbuf := h.outBuf (hfree hready)
    rw [writeStdin_free hready hnil (hfree hready)]
    refine ⟨⟨hdiscarded, hdropped, ?_⟩, Or.inr (Int.le_refl 0), by simp, fun _ => rfl, h.rawWrite⟩
    simp [hdue, pending, body, hraw, hnil, hbuf]
  · have hne : o.qlist ≠ [] := fun hnil => hready (h.queue.mpr hnil)
    obtain ⟨first, rest, hq⟩ := List.exists_cons_of_ne_nil hne
    have hfalse : o.writeReady = false := by simpa using hready
    rw [writeStdin_waits hfalse]
    refine ⟨⟨hdiscarded, hdropped, ?_⟩, h.buffer, by simp [hfalse], fun _ => h.handed hne,
      h.rawWrite⟩
    simp [hdue, pending, body, hraw, hq]

lemma Tidy.noBody (h : o.Tidy rawData) (hraw : o.rawWrite < 0) : { o with rawWrite := -1 } = o := by
  have hneg : o.rawWrite = -1 := by
    rcases h.rawWrite with h1 | h0 | hlen <;> omega
  rw [← hneg]

lemma Tidy.code (h : o.Tidy rawData) (hbusy : o.busy = false) (hraw : o.rawWrite < 0)
    (hqueue : o.qlist.tail = []) (code : Bytes) :
    Tidy { o.writeChild code with due := o.due ++ code } rawData := by
  obtain ⟨hdiscarded, hdropped, hdue⟩ := h.faithful
  have hbuf := h.outBuf hbusy
  rw [writeChild_free hbusy]
  refine ⟨⟨hdiscarded, hdropped, ?_⟩, Or.inr (Int.le_refl 0), h.queue, h.handed, h.rawWrite⟩
  simp [hdue, pending, body, hraw, hqueue, hbuf]

lemma Tidy.writeNothing (h : o.Tidy rawData) : (o.writeChild []).Tidy rawData := by
  obtain ⟨hdiscarded, hdropped, hdue⟩ := h.faithful
  cases hbusy : o.busy with
  | true =>
    have hsame : o.writeChild [] = o := by simp [writeChild, hbusy]
    rw [hsame]
    exact h
  | false =>
    have hbuf := h.outBuf hbusy
    rw [writeChild_free hbusy]
    refine ⟨⟨hdiscarded, hdropped, ?_⟩, Or.inr (Int.le_refl 0), h.queue, h.handed, h.rawWrite⟩
    simp [hdue, pending, body, hbuf]

lemma Tidy.beginBody (h : o.Tidy rawData) {sendLen : ℤ}
    (hlen : sendLen = -1 ∨ sendLen = rawData.length) (hraw : o.rawWrite < 0)
    (hqueue : 0 ≤ sendLen → o.qlist.tail = []) : (o.beginBody rawData sendLen).Tidy rawData := by
  obtain ⟨hdiscarded, hdropped, hdue⟩ := h.faithful
  refine Tidy.writeNothing ⟨⟨hdiscarded, hdropped, ?_⟩, h.buffer, h.queue, h.handed, ?_⟩
  · unfold pending at hdue ⊢
    rw [body_neg hraw] at hdue
    rcases hlen with rfl | rfl
    · simp [hdue, body]
    · have hpos : (0 : ℤ) ≤ rawData.length := by omega
      have hnot : ¬ (rawData.length : ℤ) < 0 := by omega
      have hnone : ¬ ((0 : ℤ) ≤ rawData.length → (rawData.length : ℤ) < 0) := fun hlt =>
        hnot (hlt hpos)
      simp [hdue, body, hqueue hpos, hnot]
  · exact hlen.imp_right Or.inr

lemma Tidy.nextLine (h : o.Tidy rawData) (hbuf : o.outBuf = []) (hpos : o.outBufPos = -1)
    (hraw : o.rawWrite < 0) : o.nextLine.Tidy rawData := by
  obtain ⟨hdiscarded, hdropped, hdue⟩ := h.faithful
  have hwritten : o.due = o.written ++ o.qlist.tail.flatten := by
    rw [hdue, pending, body_neg hraw, hbuf, List.drop_nil, List.nil_append, List.nil_append]
  have hfree : o.busy = false := by simp [busy, hbuf]
  have hkept : (o.dropped || (!o.qlist.isEmpty && !o.handed)) = false := by
    cases hq : o.qlist with
    | nil => simp [hdropped]
    | cons first rest => simp [hdropped, h.handed (by simp [hq])]
  unfold Out.nextLine
  dsimp only
  rw [hkept]
  by_cases htail : o.qlist.tail = []
  · rw [if_pos htail]
    refine ⟨⟨hdiscarded, rfl, ?_⟩, Or.inl ⟨hpos, hbuf⟩, by simp [htail], by simp [htail],
      h.rawWrite⟩
    simp [hwritten, pending, body, hraw, hbuf, htail]
  · obtain ⟨next, rest, ht⟩ := List.exists_cons_of_ne_nil htail
    have hready : o.writeReady = false := by
      cases hr : o.writeReady with
      | false => rfl
      | true => simp [h.queue.mp hr] at htail
    rw [if_neg htail, writeFirst_free ht (by simp [busy, hbuf])]
    refine ⟨⟨hdiscarded, rfl, ?_⟩, Or.inr (Int.le_refl 0), by simp [hready, htail], fun _ => rfl,
      h.rawWrite⟩
    simp [hwritten, pending, body, hraw, ht]

lemma Tidy.sent (h : o.Tidy rawData) (hbuf : o.outBuf = []) (hpos : o.outBufPos = -1) :
    Tidy (if 0 < o.rawWrite then { o.writeChild rawData with rawWrite := 0 }
      else if o.rawWrite = 0 then { o.writeChild padding with rawWrite := -1 }
      else o.nextLine) rawData := by
  obtain ⟨hdiscarded, hdropped, hdue⟩ := h.faithful
  have hfree : o.busy = false := by simp [busy, hbuf]
  have hwritten : o.due = o.written ++ (o.body rawData ++ o.qlist.tail.flatten) := by
    rw [hdue, pending, hbuf, List.drop_nil, List.nil_append]
  unfold body at hwritten
  split_ifs with h1 h0
  · have hraw : o.rawWrite = rawData.length := by
      rcases h.rawWrite with hneg | hzero | hlen <;> omega
    have hnot : ¬ (rawData.length : ℤ) < 0 := by omega
    rw [writeChild_free hfree]
    refine ⟨⟨hdiscarded, hdropped, ?_⟩, Or.inr (Int.le_refl 0), h.queue, h.handed, by simp⟩
    rw [if_neg (by omega)] at hwritten
    simp [hwritten, hraw, pending, body]
  · rw [writeChild_free hfree]
    refine ⟨⟨hdiscarded, hdropped, ?_⟩, Or.inr (Int.le_refl 0), h.queue, h.handed, by simp⟩
    rw [if_neg (by omega), h0] at hwritten
    simp [hwritten, pending, body]
  · refine h.nextLine hbuf hpos ?_
    rcases h.rawWrite with hneg | hzero | hlen <;> omega

lemma Tidy.write (h : o.Tidy rawData) (hpos : 0 ≤ o.outBufPos) (n : ℕ) : Tidy { o with
      written := o.written ++ (o.outBuf.drop o.outBufPos.toNat).take n
      outBufPos := o.outBufPos + n } rawData := by
  obtain ⟨hdiscarded, hdropped, hdue⟩ := h.faithful
  refine ⟨⟨hdiscarded, hdropped, ?_⟩, Or.inr (by simp only; omega), h.queue, h.handed,
    h.rawWrite⟩
  have hnat : (o.outBufPos + n).toNat = o.outBufPos.toNat + n := by omega
  have hsplit := List.take_append_drop n (o.outBuf.drop o.outBufPos.toNat)
  rw [List.drop_drop] at hsplit
  have hrest : o.pending rawData = (o.outBuf.drop o.outBufPos.toNat).take n ++
      (o.outBuf.drop (o.outBufPos.toNat + n) ++ o.body rawData ++ o.qlist.tail.flatten) := by
    rw [pending, ← List.append_assoc, ← List.append_assoc, hsplit]
  rw [hdue, hrest]
  simp only [pending, body, hnat, List.append_assoc]

lemma Tidy.clear (h : o.Tidy rawData) (hpos : (o.outBuf.length : ℤ) ≤ o.outBufPos) :
    Tidy { o with outBufPos := -1, outBuf := [] } rawData := by
  obtain ⟨hdiscarded, hdropped, hdue⟩ := h.faithful
  refine ⟨⟨hdiscarded, hdropped, ?_⟩, Or.inl ⟨rfl, rfl⟩, h.queue, h.handed, h.rawWrite⟩
  have hdrop : o.outBuf.drop o.outBufPos.toNat = [] := List.drop_eq_nil_iff.mpr (by omega)
  rw [hdue, pending, hdrop]
  simp [pending, body]

end Out

namespace State

/-- Nothing was lost, and the members for sending fit together. -/
def Tidy (s : State) : Prop := s.out.Tidy s.rawData

variable {s : State}

lemma SameSending.tidy {t : State} (ht : SameSending s t) (h : s.Tidy) : t.Tidy := by
  unfold Tidy
  rw [ht.out, ht.rawData]
  exact h

lemma Tidy.failed {t : State} (h : s.Tidy) (ht : Failed s t) : t.Tidy := by
  unfold Tidy
  rcases ht.connection with ⟨_, hout, _⟩ | ⟨_, hout, _⟩
  · rw [hout, ht.rawData]
    exact h
  · rw [hout]
    exact Out.initial_tidy _

variable (env : Env)

lemma Tidy.finished (h : s.Tidy) (hidle : s.commandList ≠ [] → s.out.Idle) :
    (s.finished env).Tidy := by
  unfold State.finished
  split
  · exact h
  · rename_i cmd text rest hlist
    have hi := hidle (by simp [hlist])
    have hstop : { s.out with rawWrite := -1 } = s.out := Out.Tidy.noBody h hi.1
    unfold Tidy
    simp only [hstop]
    exact Out.Tidy.writeStdin h hi _

/-- A response comes in its turn: the perl server is asked for when the buffer is free; a body
when none is under way, and behind the commands; a command is answered when it is written, with
its body and the padding, if another one follows, and after its body in any case. -/
def RespondsInTurn (s : State) (rc : ℤ) : Prop :=
  (s.fishCommand = .FISH → rc = 100 →
    s.out.busy = false ∧ s.out.rawWrite < 0 ∧ s.out.qlist.tail = []) ∧
  (s.sendsBody → rc = 100 →
    s.out.rawWrite < 0 ∧ (0 ≤ s.sendLen → s.out.qlist.tail = [])) ∧
  (s.Answers rc → s.followed → s.out.Idle) ∧
  (s.Answers rc → s.sendsBody → s.out.rawWrite ≤ 0)

instance (s : State) (rc : ℤ) : Decidable (s.RespondsInTurn rc) :=
  inferInstanceAs (Decidable (_ ∧ _ ∧ _ ∧ _))

theorem Sends.tidy {s : State} (h : s.Tidy) (hs : s.Sound) {rc : ℤ} {x : State × Next}
    (hx : Sends env s rc x) (hturn : s.RespondsInTurn rc) : (conclude env x).1.Tidy := by
  obtain ⟨hcode, hbody, hnext, hlast⟩ := hturn
  cases hx with
  | fail _ ht => exact h.failed ht
  | go ht => exact ht.tidy h
  | finished hrc ht _ =>
    refine Tidy.finished env (ht.tidy h) fun hlist => ?_
    rw [ht.out]
    exact hnext hrc (Or.inl (ht.commandList ▸ hlist))
  | code hcmd hrc ht =>
    obtain ⟨hbusy, hraw, hqueue⟩ := hcode hcmd hrc
    exact ht.tidy (Out.Tidy.code h hbusy hraw hqueue env.fishCode)
  | body hcmd hrc ht =>
    obtain ⟨hraw, hqueue⟩ := hbody hcmd hrc
    exact ht.tidy (Out.Tidy.beginBody h hs.sendLen hraw hqueue)
  | @chunk t hcmd hrc _ hout _ _ hlist =>
    have ht : t.Tidy := by
      unfold Tidy
      rw [hout]
      exact Out.Tidy.other h (hlast hrc hcmd) t.rawData
    refine Tidy.finished env ht fun hne => ?_
    rw [hout]
    exact hnext hrc (hlist.mp hne)

lemma Tidy.writeSome (h : s.Tidy) (hs : s.Sound) (hrun : s.isRunning = true) {n : ℕ}
    (hpos : 0 ≤ s.out.outBufPos) : (s.writeSome n).Tidy := by
  have hwrite := Out.Tidy.write h hpos n
  unfold State.writeSome
  dsimp only
  split_ifs with hdone
  · have hclear := hwrite.clear hdone
    rw [sent_eq (s := { s with out := { s.out with
      written := s.out.written ++ (s.out.outBuf.drop s.out.outBufPos.toNat).take n
      outBufPos := -1
      outBuf := [] } }) (hs.rawWrite hrun)]
    exact hclear.sent rfl rfl
  · exact hwrite

end State

/-! ### A session -/

namespace Reading

variable (env : Env)

/-- The lines that end in these bytes are responses in their turn. -/
def RespondInTurn : Reading → Bytes → Prop
  | _, [] => True
  | r, b :: bytes =>
    (r.failed = none → b = 10 → r.worker.rawRead ≤ 0 →
      r.worker.RespondsInTurn (handleResponse r.worker.errorCount (env.decode r.buf)).1) ∧
    RespondInTurn (r.eat env b) bytes

instance decidableFailed (r : Reading) : Decidable (r.failed = none) :=
  Option.decidableEqNone r.failed

instance decidableRespondInTurn : ∀ (r : Reading) (bytes : Bytes),
    Decidable (RespondInTurn env r bytes)
  | _, [] => .isTrue trivial
  | r, b :: bytes =>
    have := decidableRespondInTurn (r.eat env b) bytes
    inferInstanceAs (Decidable ((_ → _ → _ → _) ∧ _))

variable {env}

lemma Eats.tidy {r r' : Reading} {b : UInt8} (h : Eats env r b r') (ht : r.worker.Tidy)
    (hs : r.worker.Sound) (hturn : b = 10 → r.worker.rawRead ≤ 0 →
      r.worker.RespondsInTurn (handleResponse r.worker.errorCount (env.decode r.buf)).1) :
    r'.worker.Tidy := by
  cases h with
  | take htake =>
    obtain ⟨_, _, _, _, _, rfl⟩ := htake
    exact ht
  | line hb hraw hsends _ => exact hsends.tidy env ht hs (hturn hb hraw)
  | fail _ hfailed => exact ht.failed hfailed

lemma RespondInTurn.tidy {r : Reading} (hr : r.Sound) (ht : r.worker.Tidy) {bytes : Bytes}
    (h : RespondInTurn env r bytes) : (r.eatAll env bytes).worker.Tidy := by
  induction bytes generalizing r with
  | nil => exact ht
  | cons b bytes ih =>
    obtain ⟨hfirst, hrest⟩ := h
    refine ih (hr.eat b) ?_ hrest
    cases hf : r.failed with
    | none => exact (eat_eats env hf b).tidy ht hr.worker (hfirst hf)
    | some result =>
      have heat : r.eat env b = r := by
        simp only [Reading.eat, hf, Option.isSome_some, if_true]
      rw [heat]
      exact ht

end Reading

namespace Session

variable (env : Env) (connectionHost : String)

/-- An operation is called when the last one has been written out, and the responses come in
their turn. -/
def InTurn (σ : Session) : Label → Prop
  | .call op _ => op.sends env = true → σ.worker.isRunning = false → σ.worker.out.Idle
  | .turn (.read chunk) _ =>
    σ.buf.length < BUFSIZE → Reading.RespondInTurn env ⟨σ.worker, σ.buf, none⟩ chunk
  | .turn _ _ => True

instance decidableInTurn (σ : Session) : ∀ l, Decidable (InTurn env σ l)
  | .call _ _ => inferInstanceAs (Decidable (_ → _ → _))
  | .turn (.read _) _ => inferInstanceAs (Decidable (_ → _))
  | .turn .none _ => .isTrue trivial
  | .turn (.write _) _ => .isTrue trivial
  | .turn .broken _ => .isTrue trivial

variable {env connectionHost}

theorem InTurn.tidy {σ τ : Session} {l : Label} (hs : Sound σ) (ht : σ.worker.Tidy)
    (h : InTurn env σ l) (hl : σ.step env connectionHost l = some τ) : τ.worker.Tidy := by
  have hleave : ∀ (worker : State) (result : WorkerResult),
      worker.Tidy → (σ.leave worker result).worker.Tidy := fun _ _ h => h
  have hgoOn : ∀ (worker : State) (buf : Bytes), worker.Tidy → (σ.goOn worker buf).worker.Tidy := by
    intro worker buf h
    unfold Session.goOn
    split_ifs
    · exact h
    · exact h
  have hend : ∀ (killed : Bool) (worker : State) (buf : Bytes),
      worker.Tidy → (σ.endTurn killed worker buf).worker.Tidy := by
    intro killed worker buf h
    unfold Session.endTurn
    split_ifs
    · exact h
    · exact hgoOn worker buf h
  have hshut : ∀ worker : State, worker.shutdownConnection.Tidy := fun _ => Out.initial_tidy _
  cases l with
  | call op login =>
    simp only [Session.step] at hl
    split_ifs at hl with hin
    obtain ⟨⟨u, hprep, hcase⟩, hsends⟩ := State.call_called env op login σ.worker
    have hu : u.Tidy := by
      unfold State.Tidy
      rw [hprep.rawData]
      rcases hprep.connection with ⟨hout, _⟩ | ⟨hout, _⟩
      · rw [hout]
        exact ht
      · rw [hout]
        exact Out.initial_tidy _
    rcases hcase with ⟨result, hcall⟩ | ⟨hchild, _, hidle, _, hcall⟩
    · rw [hcall] at hl
      obtain rfl := Option.some.inj hl
      exact hu
    · have hop : op.sends env = true := by
        cases hop : op.sends env with
        | true => rfl
        | false =>
          have := hsends hop
          rw [hcall] at this
          simp at this
      rw [hcall] at hl
      obtain rfl := Option.some.inj hl
      refine hgoOn _ _ (State.Tidy.finished env (s := { u with isRunning := true }) hu fun _ => ?_)
      rcases hprep.connection with ⟨hout, _⟩ | ⟨hout, _⟩
      · have hi := h hop hidle
        rw [← hout] at hi
        exact hi
      · have hi := Out.initial_idle
        rw [← hout] at hi
        exact hi
  | turn io killed =>
    simp only [Session.step] at hl
    split_ifs at hl with hin
    obtain ⟨hrun, hclean⟩ := hs.inside hin
    cases io with
    | none =>
      obtain rfl := Option.some.inj hl
      exact hend killed _ _ ht
    | write n =>
      simp only [turn] at hl
      split_ifs at hl with hroom
      obtain rfl := Option.some.inj hl
      exact hend killed _ _ (ht.writeSome hs.worker hrun hroom.1)
    | read chunk =>
      simp only [turn] at hl
      have hread : (Reading.read env connectionHost ⟨σ.worker, σ.buf, none⟩ chunk).worker.Tidy := by
        rcases read_eatAll env connectionHost hclean rfl chunk
          with ⟨_, heq⟩ | ⟨hroom, hsame⟩
        · rw [heq]
          exact hshut _
        · rw [hsame.worker]
          exact Reading.RespondInTurn.tidy (hs.reading hin) ht (h hroom)
      split at hl
      · obtain rfl := Option.some.inj hl
        exact hread
      · obtain rfl := Option.some.inj hl
        exact hend killed _ _ hread
    | broken =>
      obtain rfl := Option.some.inj hl
      exact hshut _

/-- The remote side has asked for the perl server, and a part of it has been written. -/
def codeLabels : List Label :=
  [.call (.get "/f".toList) .pass, .turn (.write 258) false,
    .turn (.read (ascii "### 100\n")) false, .turn (.write 10) false]

end Session

end KioExtras.Fish
