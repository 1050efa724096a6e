import KioExtras.Fish.Check
import KioExtras.Fish.Requests
import KioExtras.Fish.Written
import Mathlib.Logic.Function.Iterate
import Mathlib.Tactic.Common

/-!
`put` against the perl server.

The upload is a sequence of rounds. In a round the worker writes the command that is up, the server
reads and answers it, the worker sends the body that it is asked for, and what it makes of the last
line of the response sets up the next command. How the writes and the reads are split does not
matter for what the worker does.
-/

namespace KioExtras.Fish

open KioExtras.Kio KioExtras.Lib.FileStore Text

namespace State

/-- `::write` takes the buffer whole, as long as there is one. -/
def flushLoop : ℕ → State → State
  | 0, s => s
  | fuel + 1, s =>
    if 0 ≤ s.out.outBufPos then
      flushLoop fuel (s.writeSome (s.out.outBuf.length - s.out.outBufPos.toNat))
    else s

/-- The commands that wait, a body and its padding go out. -/
def flush (s : State) : State := s.flushLoop (s.out.qlist.length + 3)

/-- The lines of a response one after the other, up to an error. -/
def hear (env : Env) : State → List Bytes → State × WorkerResult
  | s, [] => (s, .pass)
  | s, line :: lines =>
    match s.manageLine env line with
    | (s, .pass) => hear env s lines
    | failed => failed

end State

/-- The remote side: what stands at the destination, what the system answers in each `write_loop`,
and the error of `chmod`, if there is one. -/
structure Host where
  localtime : ℤ → DateTime
  place : Perl.Place
  turn : ℕ → Perl.Turn
  chmod : Option Bytes

/-- The server: the files by name, what has arrived and was not read, and the number of files it
has opened for writing. The last one is kept for the proofs: whether a write has failed, that is,
a file could not be opened or its position not set, or a call of `syswrite` was cut short. -/
structure Remote where
  files : Bytes → Option Bytes
  stdin : Bytes
  turns : ℕ
  failed : Bool

/-- The worker in the loop of `run`, the server, and what the operation has returned. -/
structure Upload where
  worker : State
  remote : Remote
  returned : Option WorkerResult

namespace Upload

variable (env : Env) (host : Host)

/-- The lines of a response, and the condition of the loop of `run`. -/
def hear (L : Upload) (lines : List Bytes) : Upload :=
  match L.worker.hear env lines with
  | (s, .pass) =>
    { L with worker := s, returned := if s.isRunning = true then none else some .pass }
  | (s, result) => { L with worker := s, returned := some result }

/-- `write_loop`: the line behind the command is skipped, and the body is asked for. -/
def writeLoop (L : Upload) (truncate : Bool) (offset size : ℕ) (fn : Bytes) : Upload :=
  let turn := host.turn L.remote.turns
  let (file, opened) := turn.begin truncate offset (L.remote.files fn)
  let remote := { L.remote with
    files := Function.update L.remote.files fn file
    turns := L.remote.turns + 1 }
  match opened with
  | .error error =>
    hear env { L with remote := { remote with failed := true } } [ascii "### 400 " ++ error]
  | .ok (data, pos) =>
    match State.splitLine remote.stdin with
    | none => { L with remote := remote }
    | some (_, stdin) =>
      match L.worker.manageLine env (ascii "### 100") with
      | (s, .pass) =>
        let t := s.flush
        let w := Perl.Writing.loops turn
          ⟨size, stdin ++ t.out.written.drop s.out.written.length, data, pos, [], 0, false⟩
        let L := { L with
          worker := t
          remote := { remote with
            files := Function.update L.remote.files fn (some w.file)
            stdin := w.stdin
            failed := L.remote.failed || w.short } }
        if w.size = 0 then hear env L [w.answer] else L
      | (s, result) => { L with worker := s, remote := remote, returned := some result }

/-- A round. A command that cannot be read is not answered. -/
def round (L : Upload) : Upload :=
  if L.returned.isSome then L
  else
    let s := L.worker.flush
    let stdin := L.remote.stdin ++ s.out.written.drop L.worker.out.written.length
    match Perl.nextLine stdin with
    | none => { L with worker := s, remote := { L.remote with stdin := stdin } }
    | some (line, stdin) =>
      let L := { L with worker := s, remote := { L.remote with stdin := stdin } }
      match Perl.request line with
      | none => L
      | some (.LIST _) => hear env L (Perl.listLines host.localtime host.place.found)
      | some (.STOR size fn) => writeLoop env host L true 0 size fn
      | some (.WRITE offset size fn) => writeLoop env host L false offset size fn
      | some (.CHMOD _ _) =>
        hear env L [match host.chmod with
          | none => ascii "### 200"
          | some error => ascii "### 500 " ++ error]

def after (n : ℕ) (L : Upload) : Upload := (round env host)^[n] L

end Upload

/-! ### What the application hands out -/

/-- The chunks of an upload. -/
def delivered : List ReadData → List Bytes
  | .chunk buffer :: reads => if buffer = [] then [] else buffer :: delivered reads
  | _ => []

/-- The data end with an empty buffer, not with an error. -/
def endsWell : List ReadData → Bool
  | [] => true
  | .chunk buffer :: reads => if buffer = [] then true else endsWell reads
  | .error _ :: _ => false

/-- What is there for later calls of `readData`. -/
def leftOver : List ReadData → List ReadData
  | [] => []
  | .chunk buffer :: reads => if buffer = [] then reads else leftOver reads
  | .error _ :: reads => reads

lemma leftOver_called (reads : List ReadData) (h : endsWell reads = true) :
    ∃ called, reads = called ++ leftOver reads ∧ ∀ buffer, ReadData.error buffer ∉ called := by
  induction reads with
  | nil => exact ⟨[], rfl, fun _ => List.not_mem_nil⟩
  | cons read reads ih =>
    cases read with
    | error buffer => simp [endsWell] at h
    | chunk buffer =>
      by_cases hbuffer : buffer = []
      · refine ⟨[.chunk buffer], ?_, by simp⟩
        simp [leftOver, hbuffer]
      · rw [endsWell, if_neg hbuffer] at h
        obtain ⟨called, heq, hno⟩ := ih h
        refine ⟨.chunk buffer :: called, ?_, by simp [hno]⟩
        rw [leftOver, if_neg hbuffer, List.cons_append, ← heq]

/-! ### The buffer between two commands -/

namespace Out

/-- Nothing is to be written. -/
structure Free (o : Out) : Prop where
  outBufPos : o.outBufPos = -1
  outBuf : o.outBuf = []
  qlist : o.qlist = []
  writeReady : o.writeReady = true
  rawWrite : o.rawWrite = -1

/-- A command is to be written. -/
structure Handed (text : Bytes) (o : Out) : Prop where
  outBufPos : o.outBufPos = 0
  outBuf : o.outBuf = text
  qlist : o.qlist = [text]
  writeReady : o.writeReady = false
  rawWrite : o.rawWrite = -1

lemma Free.writeStdin {o : Out} (h : o.Free) (text : Bytes) :
    Handed text (Out.writeStdin { o with rawWrite := -1 } text) := by
  obtain ⟨hpos, hbuf, hqlist, hready, hraw⟩ := h
  simp only [Out.writeStdin, hready, if_true, hqlist, List.nil_append, writeFirst, writeChild, busy,
    hpos, hbuf]
  exact ⟨rfl, rfl, rfl, rfl, rfl⟩

end Out

namespace State

variable {s : State}

lemma flushLoop_step (fuel : ℕ) (hpos : s.out.outBufPos = 0) :
    s.flushLoop (fuel + 1) = (sent (s.withOut { s.out with
      written := s.out.written ++ s.out.outBuf, outBufPos := -1, outBuf := [] })).flushLoop
        fuel := by
  have hwrite : s.writeSome (s.out.outBuf.length - s.out.outBufPos.toNat) =
      sent (s.withOut { s.out with
        written := s.out.written ++ s.out.outBuf, outBufPos := -1, outBuf := [] }) := by
    unfold writeSome withOut
    simp [hpos]
  rw [flushLoop, if_pos (by omega), hwrite]

lemma flushLoop_done (fuel : ℕ) (hpos : s.out.outBufPos = -1) : s.flushLoop fuel = s := by
  cases fuel with
  | zero => rfl
  | succ fuel => rw [flushLoop, if_neg (by omega)]

lemma sent_last (hraw : s.out.rawWrite = -1) (htail : s.out.qlist.tail = [])
    (hpos : s.out.outBufPos = -1) (hbuf : s.out.outBuf = []) :
    ∃ o : Out, s.sent = s.withOut o ∧ o.Free ∧ o.written = s.out.written := by
  have hnext : s.sent = s.withOut s.out.nextLine := by
    unfold sent withOut
    rw [if_neg (by omega), if_neg (by omega)]
  refine ⟨s.out.nextLine, hnext, ?_, ?_⟩
  · simp only [Out.nextLine, htail, if_true]
    exact ⟨hpos, hbuf, rfl, rfl, hraw⟩
  · simp only [Out.nextLine, htail, if_true]

lemma flush_handed {text : Bytes} (h : s.out.Handed text) :
    ∃ o : Out, s.flush = s.withOut o ∧ o.Free ∧ o.written = s.out.written ++ text := by
  obtain ⟨hpos, hbuf, hqlist, hready, hraw⟩ := h
  set t := s.withOut { s.out with
    written := s.out.written ++ s.out.outBuf, outBufPos := -1, outBuf := [] } with ht
  obtain ⟨o, ho, hfree, hwritten⟩ := sent_last (s := t) hraw (by simp [ht, withOut, hqlist]) rfl rfl
  refine ⟨o, ?_, hfree, by rw [hwritten, ← hbuf]; rfl⟩
  have hflush : s.flush = s.flushLoop 4 := by
    unfold flush
    rw [hqlist]
    rfl
  rw [hflush, flushLoop_step _ hpos, ← ht, ho, flushLoop_done _ (by exact hfree.outBufPos), ht]
  rfl

def bodyOf (rawData : Bytes) (sendLen : ℤ) : Bytes :=
  if sendLen < 0 then [] else rawData ++ Out.padding

lemma flushLoop_padding (fuel : ℕ) (hpos : s.out.outBufPos = 0) (hqlist : s.out.qlist = [])
    (hraw : s.out.rawWrite = 0) :
    ∃ o : Out, s.flushLoop (fuel + 2) = s.withOut o ∧ o.Free ∧
      o.written = s.out.written ++ s.out.outBuf ++ Out.padding := by
  set t := s.withOut { s.out with
    written := s.out.written ++ s.out.outBuf, outBufPos := -1, outBuf := [] } with ht
  have hpadding : t.sent = t.withOut { t.out with
      outBuf := Out.padding, outBufPos := 0, rawWrite := -1 } := by
    have hraw' : t.out.rawWrite = 0 := hraw
    have hfree : t.out.busy = false := by simp [ht, withOut, Out.busy]
    unfold sent
    rw [if_neg (by omega), if_pos hraw', Out.writeChild_free hfree]
    rfl
  set u := t.withOut { t.out with outBuf := Out.padding, outBufPos := 0, rawWrite := -1 } with hu
  set v := u.withOut { u.out with
    written := u.out.written ++ u.out.outBuf, outBufPos := -1, outBuf := [] } with hv
  have htail : v.out.qlist.tail = [] := by
    have hsame : v.out.qlist = s.out.qlist := rfl
    rw [hsame, hqlist]
    rfl
  obtain ⟨o, ho, hfree, hwritten⟩ := sent_last (s := v) rfl htail rfl rfl
  refine ⟨o, ?_, hfree, hwritten⟩
  rw [flushLoop_step _ hpos, ← ht, hpadding, flushLoop_step _ (by rfl), ← hv, ho,
    flushLoop_done _ (by exact hfree.outBufPos)]
  rfl

lemma flush_body {o : Out} (ho : o.Free) {sendLen : ℤ}
    (hout : s.out = o.beginBody s.rawData sendLen)
    (hlen : sendLen = -1 ∨ sendLen = s.rawData.length) :
    ∃ o' : Out, s.flush = s.withOut o' ∧ o'.Free ∧
      o'.written = o.written ++ bodyOf s.rawData sendLen := by
  obtain ⟨hpos, hbuf, hqlist, hready, hraw⟩ := ho
  have hbusy : Out.busy { o with
      rawWrite := sendLen
      due := if 0 ≤ sendLen then o.due ++ s.rawData.take sendLen.toNat ++ Out.padding
        else o.due } = false := by
    simp [Out.busy, hpos]
  unfold Out.beginBody at hout
  rw [Out.writeChild_free hbusy] at hout
  have hpos' : s.out.outBufPos = 0 := by rw [hout]
  have hbuf' : s.out.outBuf = [] := by rw [hout]
  have hqlist' : s.out.qlist = [] := by rw [hout]; exact hqlist
  have hraw' : s.out.rawWrite = sendLen := by rw [hout]
  have hwritten' : s.out.written = o.written := by rw [hout]
  have hflush : s.flush = s.flushLoop 3 := by
    unfold flush
    rw [hqlist']
    rfl
  rw [hflush]
  by_cases hneg : sendLen < 0
  · -- nothing was announced, and nothing follows
    have hminus : s.out.rawWrite = -1 := by omega
    set t := s.withOut { s.out with
      written := s.out.written ++ s.out.outBuf, outBufPos := -1, outBuf := [] } with ht
    obtain ⟨o', ho', hfree, hwritten⟩ := sent_last (s := t) hminus
      (by simp [ht, withOut, hqlist']) rfl rfl
    refine ⟨o', ?_, hfree, ?_⟩
    · rw [flushLoop_step _ hpos', ← ht, ho', flushLoop_done _ (by exact hfree.outBufPos)]
      rfl
    · rw [hwritten, bodyOf, if_pos hneg, List.append_nil, ← hwritten']
      simp [ht, withOut, hbuf']
  · have hlen' : sendLen = s.rawData.length := by omega
    rw [bodyOf, if_neg hneg]
    by_cases hempty : s.rawData = []
    · have hzero : s.out.rawWrite = 0 := by
        rw [hraw', hlen', hempty]
        rfl
      obtain ⟨o', ho', hfree, hwritten⟩ := flushLoop_padding 1 hpos' hqlist' hzero
      refine ⟨o', ho', hfree, ?_⟩
      rw [hwritten, hbuf', hempty, hwritten', List.append_nil, List.nil_append]
    · have hpositive : 0 < s.out.rawWrite := by
        have hlength := List.length_pos_of_ne_nil hempty
        omega
      set t := s.withOut { s.out with
        written := s.out.written ++ s.out.outBuf, outBufPos := -1, outBuf := [] } with ht
      have hbody : t.sent = t.withOut { t.out with
          outBuf := s.rawData, outBufPos := 0, rawWrite := 0 } := by
        have hraw'' : t.out.rawWrite = s.rawData.length := hraw'.trans hlen'
        have hfree : t.out.busy = false := by simp [ht, withOut, Out.busy]
        have htake : t.rawData.take t.out.rawWrite.toNat = s.rawData := by
          rw [hraw'']
          exact List.take_of_length_le (by simp [ht, withOut])
        have hzero : t.out.rawWrite - t.rawData.length = 0 := by
          rw [hraw'']
          simp [ht, withOut]
        have hpositive' : 0 < t.out.rawWrite := hpositive
        unfold sent
        rw [if_pos hpositive', Out.writeChild_free hfree, htake, hzero]
        dsimp only
        rw [if_neg (by decide)]
        rfl
      set u := t.withOut { t.out with outBuf := s.rawData, outBufPos := 0, rawWrite := 0 } with hu
      obtain ⟨o', ho', hfree, hwritten⟩ := flushLoop_padding (s := u) 0 rfl hqlist' rfl
      refine ⟨o', ?_, hfree, ?_⟩
      · rw [flushLoop_step _ hpos', ← ht, hbody, ho']
        rfl
      · rw [hwritten]
        simp [hu, ht, withOut, hbuf', hwritten']

/-! ### The worker and the last line of a response -/

variable {env : Env}

lemma manageLine_begin (h : DecodesAscii env)
    (hcmd : s.fishCommand = .STOR ∨ s.fishCommand = .WRITE) :
    ∃ signals, s.manageLine env (ascii "### 100") = ({ s with
      signals := signals, out := s.out.beginBody s.rawData s.sendLen }, .pass) := by
  refine ⟨s.signals ++ [.line (env.decode (ascii "### 100"))], ?_⟩
  rw [manageLine_code (decode_100 h) (n := 100) (by decide) (by decide) (by decide), if_pos rfl]
  have hsame : ∀ signal, (s.emit signal).fishCommand = s.fishCommand := fun _ => rfl
  unfold respond100
  rcases hcmd with hcmd | hcmd
  · rw [hsame, hcmd]
    rfl
  · rw [hsame, hcmd]
    rfl

lemma manageLine_done (h : DecodesAscii env) (hcmd : s.fishCommand = .STOR ∨ s.fishCommand = .WRITE)
    (happend : s.hasAppend = false) :
    ∃ signals, s.manageLine env (ascii "### 200") =
      ((({ s with signals := signals, fishCommand := .WRITE } : State).nextWrite env).finished env,
        .pass) := by
  refine ⟨s.signals ++ [.line (env.decode (ascii "### 200"))], ?_⟩
  rw [manageLine_ok h]
  set u := s.emit (.line (env.decode (ascii "### 200"))) with hu
  have hstor : u.afterStor = { s with
      signals := s.signals ++ [.line (env.decode (ascii "### 200"))], fishCommand := .WRITE } := by
    have hu' : u.hasAppend = false := happend
    unfold afterStor
    rcases hcmd with hcmd | hcmd
    · have hucmd : u.fishCommand = .STOR := hcmd
      have hnext : (if u.hasAppend = true then Command.APPEND else Command.WRITE) = .WRITE := by
        rw [hu']
        rfl
      rw [if_pos hucmd, hnext]
      rfl
    · have hucmd : u.fishCommand = .WRITE := hcmd
      rw [if_neg (by rw [hucmd]; decide), hu, emit, ← hcmd]
  unfold respondOk
  dsimp only
  rw [hstor]
  rfl

lemma manageLine_refused
    (hcmd : s.fishCommand = .STOR ∨ s.fishCommand = .WRITE ∨ s.fishCommand = .CHMOD) {line : Bytes}
    {n : ℤ} (hn : ErrorLine env line n) :
    ∃ t type detail, s.manageLine env line = (t, .fail type detail) := by
  rw [manageLine_error hn]
  have hsame : ∀ signal, (s.emit signal).fishCommand = s.fishCommand := fun _ => rfl
  unfold respondError
  rcases hcmd with hcmd | hcmd | hcmd <;> rw [hsame, hcmd] <;> exact ⟨_, _, _, rfl⟩

lemma manageLine_mode (h : DecodesAscii env) (hcmd : s.fishCommand = .CHMOD) :
    ∃ signals, s.manageLine env (ascii "### 200") =
      (({ s with signals := signals } : State).finished env, .pass) := by
  refine ⟨s.signals ++ [.line (env.decode (ascii "### 200"))], ?_⟩
  rw [manageLine_ok h]
  set u := s.emit (.line (env.decode (ascii "### 200"))) with hu
  have hucmd : u.fishCommand = .CHMOD := hcmd
  unfold respondOk
  dsimp only
  rw [afterStor_self hucmd (by decide), hucmd]
  rfl

/-! ### The next command -/

lemma number_fromUtf8 (h : EncodesAscii env) {base : ℕ} (hlo : 1 < base) (hhi : base ≤ 10) (n : ℕ) :
    env.fromUtf8 (env.E (number base n)) = number base n := by
  have hascii : ∀ c ∈ number base n, 0 < c.toNat ∧ c.toNat < 128 := fun c hc =>
    ⟨(Perl.number_plain' hlo hhi c hc).1, (Perl.number_plain' hlo hhi c hc).2.1⟩
  rw [h.eq_bytesOf hascii, h.fromUtf8 _ hascii]

lemma nextWrite_chunk (h : EncodesAscii env) (hlist : s.commandList = []) {c : Bytes}
    {rest : List ReadData} (hread : s.toRead = .chunk c :: rest) (hne : c ≠ []) :
    (s.nextWrite env).finished env = { s with
      signals := s.signals ++ [.dataReq]
      rawData := c
      toRead := rest
      putPos := s.putPos + c.length
      sendLen := c.length
      fishCommand := .WRITE
      errorCount := -((fishInfo env.CHECKSUM .WRITE).lines : ℤ)
      rawRead := 0
      udsEntry := {}
      udsStatEntry := {}
      out := Out.writeStdin { s.out with rawWrite := -1 } (env.E
        (commandText (fishInfo env.CHECKSUM .WRITE)
          [number 10 s.putPos, number 10 c.length, Perl.pathArg env s.url])) } := by
  have hempty : c.isEmpty = false := by simpa using hne
  have hnumber := number_fromUtf8 h (by decide : 1 < 10) (by decide)
  simp [nextWrite, readData, emit, hread, hempty, sendCommand, finished, hlist, hnumber,
    Perl.pathArg]

lemma readData_end (hread : delivered s.toRead = []) :
    ∃ rawData, s.readData = (false, { s with
      signals := s.signals ++ [.dataReq], rawData := rawData, toRead := leftOver s.toRead }) := by
  unfold readData
  dsimp only [emit]
  cases hreads : s.toRead with
  | nil => exact ⟨[], rfl⟩
  | cons read reads =>
    cases read with
    | error buffer => exact ⟨buffer, rfl⟩
    | chunk buffer =>
      rw [hreads] at hread
      have hbuffer : buffer = [] := by
        by_contra hne
        rw [delivered, if_neg hne] at hread
        simp at hread
      exact ⟨buffer, by simp [leftOver, hbuffer]⟩

lemma nextWrite_mode (h : EncodesAscii env) (hlist : s.commandList = [])
    (hread : delivered s.toRead = []) (hnew : s.checkExist = false ∧ -1 < s.putPerm) :
    ∃ rawData : Bytes, (s.nextWrite env).finished env = { s with
      signals := s.signals ++ [.dataReq]
      rawData := rawData
      toRead := leftOver s.toRead
      putPos := s.putPos + rawData.length
      sendLen := rawData.length
      fishCommand := .CHMOD
      errorCount := -((fishInfo env.CHECKSUM .CHMOD).lines : ℤ)
      rawRead := 0
      udsEntry := {}
      udsStatEntry := {}
      out := Out.writeStdin { s.out with rawWrite := -1 } (env.E
        (commandText (fishInfo env.CHECKSUM .CHMOD)
          [number 8 s.putPerm.toNat, Perl.pathArg env s.url])) } := by
  obtain ⟨rawData, hdata⟩ := readData_end hread
  have hnumber := number_fromUtf8 h (by decide : 1 < 8) (by decide)
  refine ⟨rawData, ?_⟩
  unfold nextWrite
  rw [hdata]
  simp [chmodNew, hnew, sendCommand, finished, hlist, hnumber, Perl.pathArg]

variable (env) in
lemma nextWrite_over (hlist : s.commandList = []) (hread : delivered s.toRead = [])
    (hnew : ¬ (s.checkExist = false ∧ -1 < s.putPerm)) :
    ((s.nextWrite env).finished env).isRunning = false ∧
      ((s.nextWrite env).finished env).toRead = leftOver s.toRead := by
  obtain ⟨rawData, hdata⟩ := readData_end hread
  unfold nextWrite
  rw [hdata]
  dsimp only [Bool.false_eq_true, if_false]
  rw [if_neg (by decide), chmodNew, if_neg hnew]
  simp [finished, hlist]

end State

/-! ### The stages of an upload -/

structure Uploads (path : Text) (permissions : ℤ) (exist : Bool) (reads : List ReadData)
    (s : State) : Prop where
  isRunning : s.isRunning = true
  url : s.url = path
  putPerm : s.putPerm = permissions
  checkExist : s.checkExist = exist
  hasAppend : s.hasAppend = false
  toRead : s.toRead = reads

/-- A command is up, and the server waits for it. -/
structure Up (env : Env) (cmd : Command) (args : List Text) (turns : ℕ) (L : Upload) : Prop where
  fishCommand : L.worker.fishCommand = cmd
  commandList : L.worker.commandList = []
  out : L.worker.out.Handed (env.E (commandText (fishInfo env.CHECKSUM cmd) args))
  stdin : Perl.skips true L.remote.stdin = some true
  turns : L.remote.turns = turns
  returned : L.returned = none

/-- The `i`-th chunk is up, for the offset `p`. -/
structure AtWrite (env : Env) (path : Text) (permissions : ℤ) (exist : Bool) (i p : ℕ) (c : Bytes)
    (reads : List ReadData) (L : Upload) : Prop where
  uploads : Uploads path permissions exist reads L.worker
  up : Up env .WRITE [number 10 p, number 10 c.length, Perl.pathArg env path] i L
  rawData : L.worker.rawData = c
  sendLen : L.worker.sendLen = c.length
  putPos : L.worker.putPos = p + c.length

/-- `CHMOD` is up. -/
structure AtMode (env : Env) (path : Text) (permissions : ℤ) (reads : List ReadData)
    (L : Upload) : Prop where
  isRunning : L.worker.isRunning = true
  toRead : L.worker.toRead = leftOver reads
  up : ∃ i, Up env .CHMOD [number 8 permissions.toNat, Perl.pathArg env path] i L

/-- What comes after a command with a body. -/
inductive Goes (env : Env) (path : Text) (permissions : ℤ) (exist : Bool) (i p : ℕ)
    (reads : List ReadData) (L : Upload) : Prop
  | write {c : Bytes} {rest : List ReadData} (hreads : reads = .chunk c :: rest) (hne : c ≠ [])
      (h : AtWrite env path permissions exist i p c rest L)
  | mode (hend : delivered reads = []) (hnew : exist = false ∧ -1 < permissions)
      (h : AtMode env path permissions reads L)
  | ended (hend : delivered reads = []) (hnew : ¬ (exist = false ∧ -1 < permissions))
      (hread : L.worker.toRead = leftOver reads) (hreturned : L.returned = some .pass)

namespace Upload

variable {env : Env}

variable {L : Upload} {permissions : ℤ} {reads : List ReadData}

variable {exist : Bool} {i p : ℕ}

lemma hear_done (h : EncodesAscii env) (hd : DecodesAscii env) {path : Text}
    (hcmd : L.worker.fishCommand = .STOR ∨ L.worker.fishCommand = .WRITE)
    (hlist : L.worker.commandList = []) (hout : L.worker.out.Free)
    (hup : Uploads path permissions exist reads L.worker)
    (hstdin : Perl.skips true L.remote.stdin = some true) (hturns : L.remote.turns = i) :
    Goes env path permissions exist i L.worker.putPos reads (L.hear env [ascii "### 200"]) ∧
      (L.hear env [ascii "### 200"]).remote = L.remote := by
  obtain ⟨signals, hmanage⟩ := State.manageLine_done hd hcmd hup.hasAppend
  set u : State := { L.worker with signals := signals, fishCommand := .WRITE } with hu
  have hhear : L.hear env [ascii "### 200"] = { L with
      worker := (u.nextWrite env).finished env
      returned := if ((u.nextWrite env).finished env).isRunning = true then none
        else some .pass } := by
    unfold hear State.hear
    rw [hmanage]
    rfl
  rw [hhear]
  refine ⟨?_, rfl⟩
  have hread : u.toRead = reads := hup.toRead
  by_cases hend : delivered reads = []
  · by_cases hnew : exist = false ∧ -1 < permissions
    · obtain ⟨rawData, hnext⟩ := State.nextWrite_mode h (s := u) hlist (hread ▸ hend)
        (by rw [← hup.checkExist, ← hup.putPerm] at hnew; exact hnew)
      refine .mode hend hnew ⟨?_, ?_, i, ?_, ?_, ?_, hstdin, hturns, ?_⟩
      · rw [hnext]
        exact hup.isRunning
      · rw [hnext, ← hread]
      · rw [hnext]
      · rw [hnext]
        exact hlist
      · rw [hnext, ← hup.putPerm, ← hup.url]
        exact hout.writeStdin _
      · have hrun : ((u.nextWrite env).finished env).isRunning = true := by
          rw [hnext]
          exact hup.isRunning
        rw [if_pos hrun]
    · obtain ⟨hrun, hleft⟩ := State.nextWrite_over env (s := u) hlist (hread ▸ hend)
        (by rw [← hup.checkExist, ← hup.putPerm] at hnew; exact hnew)
      refine .ended hend hnew ?_ ?_
      · rw [← hread]
        exact hleft
      · rw [hrun]
        rfl
  · obtain ⟨c, rest, hreads, hne⟩ : ∃ c rest, reads = .chunk c :: rest ∧ c ≠ [] := by
      cases reads with
      | nil => exact absurd rfl hend
      | cons read rest =>
        cases read with
        | error buffer => exact absurd rfl hend
        | chunk buffer =>
          refine ⟨buffer, rest, rfl, fun hempty => hend ?_⟩
          rw [delivered, if_pos hempty]
    have hnext := State.nextWrite_chunk h (s := u) hlist (hread.trans hreads) hne
    have hrun : ((u.nextWrite env).finished env).isRunning = true := by
      rw [hnext]
      exact hup.isRunning
    refine .write hreads hne ⟨⟨hrun, ?_, ?_, ?_, ?_, ?_⟩, ⟨?_, ?_, ?_, hstdin, hturns, ?_⟩,
      ?_, ?_, ?_⟩
    · rw [hnext]
      exact hup.url
    · rw [hnext]
      exact hup.putPerm
    · rw [hnext]
      exact hup.checkExist
    · rw [hnext]
      exact hup.hasAppend
    · rw [hnext]
    · rw [hnext]
    · rw [hnext]
      exact hlist
    · rw [hnext, ← hup.url]
      exact hout.writeStdin _
    · rw [if_pos hrun]
    · rw [hnext]
    · rw [hnext]
    · rw [hnext]

lemma hear_failed {line : Bytes} {t : State} {type : Error} {detail : String}
    (h : L.worker.manageLine env line = (t, .fail type detail)) :
    (L.hear env [line]).returned = some (.fail type detail) := by
  unfold hear State.hear
  rw [h]

lemma hear_refused (hcmd : L.worker.fishCommand = .STOR ∨ L.worker.fishCommand = .WRITE ∨
      L.worker.fishCommand = .CHMOD) {line : Bytes} {n : ℤ} (hn : State.ErrorLine env line n) :
    ∃ type detail, (L.hear env [line]).returned = some (.fail type detail) := by
  obtain ⟨t, type, detail, hmanage⟩ := State.manageLine_refused hcmd hn
  exact ⟨type, detail, hear_failed hmanage⟩

variable (host : Host)

lemma beginBody_written (o : Out) (rawData : Bytes) (sendLen : ℤ) :
    (o.beginBody rawData sendLen).written = o.written := by
  unfold Out.beginBody Out.writeChild
  split_ifs <;> rfl

/-- **A `write_loop` and the worker**: either the upload fails, or the chunk is taken and the next
command is up. -/
lemma writeLoop_spec (h : EncodesAscii env) (hd : DecodesAscii env) {path : Text}
    (hcmd : L.worker.fishCommand = .STOR ∨ L.worker.fishCommand = .WRITE)
    (hlist : L.worker.commandList = []) (hout : L.worker.out.Free)
    (hup : Uploads path permissions exist reads L.worker)
    (hlen : L.worker.sendLen = -1 ∨ L.worker.sendLen = L.worker.rawData.length) (size : ℕ)
    (hsize : size ≤ (State.bodyOf L.worker.rawData L.worker.sendLen).length)
    (hrest : Perl.skips true
      ((State.bodyOf L.worker.rawData L.worker.sendLen).drop size) = some true) {shell : Bytes}
    (hstdin : State.splitLine L.remote.stdin = some (shell, [])) (hturns : L.remote.turns = i)
    (hpos : L.worker.putPos = p) (truncate : Bool) (offset : ℕ) (fn : Bytes) :
    let turn := host.turn i
    let M := writeLoop env host L truncate offset size fn
    let data := if truncate = true then [] else (L.remote.files fn).getD []
    (¬ turn.Accepts offset size → ∃ type detail, M.returned = some (.fail type detail)) ∧
    (turn.Accepts offset size → Goes env path permissions exist (i + 1) p reads M ∧
      ∃ w, Perl.Writing.Done turn
          ⟨size, State.bodyOf L.worker.rawData L.worker.sendLen, data, offset, [], 0, false⟩ w ∧
        M.remote.files fn = some w.file ∧ M.remote.failed = (L.remote.failed || w.short)) := by
  intro turn M data
  rcases turn.begin_cases truncate offset (L.remote.files fn) with
    ⟨error, herror, hrefused⟩ | ⟨hopened, hbegin⟩
  · -- the file cannot be opened
    refine ⟨fun _ => ?_, fun hacc => absurd ⟨hacc.sysopen, hacc.sysseek⟩ hrefused⟩
    rcases hb : turn.begin truncate offset (L.remote.files fn) with ⟨file, opened⟩
    rw [hb] at herror
    obtain rfl : opened = .error error := herror
    have hloop : M = hear env { L with remote := { L.remote with
        files := Function.update L.remote.files fn file
        turns := L.remote.turns + 1
        failed := true } } [ascii "### 400 " ++ error] := by
      simp only [M, writeLoop, hturns]
      rw [hb]
    rw [hloop]
    refine hear_refused ?_ (State.errorLine_400 hd error)
    exact hcmd.imp_right Or.inl
  · obtain ⟨signals, hmanage⟩ := State.manageLine_begin hd hcmd
    set s : State := { L.worker with
      signals := signals
      out := L.worker.out.beginBody L.worker.rawData L.worker.sendLen } with hs
    obtain ⟨o, hflush, hfree, hwritten⟩ := State.flush_body (s := s) hout rfl hlen
    set body := State.bodyOf L.worker.rawData L.worker.sendLen with hbody
    have harrived : [] ++ s.flush.out.written.drop s.out.written.length = body := by
      have hbase : s.out.written = L.worker.out.written := beginBody_written _ _ _
      have hnew : s.flush.out.written = L.worker.out.written ++ body := by
        rw [hflush]
        exact hwritten
      rw [hnew, hbase, List.drop_left, List.nil_append]
    set w := Perl.Writing.loops turn ⟨size, body, data, offset, [], 0, false⟩ with hw
    have hdone : Perl.Writing.Done turn ⟨size, body, data, offset, [], 0, false⟩ w :=
      Perl.Writing.loops_spec turn hsize
    set N : Upload := { L with
      worker := s.withOut o
      remote := { L.remote with
        files := Function.update L.remote.files fn (some w.file)
        stdin := w.stdin
        turns := i + 1
        failed := L.remote.failed || w.short } } with hN
    have hloop : M = hear env N [w.answer] := by
      have hempty : data = if truncate = true then [] else (L.remote.files fn).getD [] := rfl
      simp only [M, writeLoop, hturns]
      rw [hbegin]
      simp only [hstdin, hmanage, harrived]
      rw [← hempty, ← hw, if_pos hdone.size, hflush]
    have hfile : N.remote.files fn = some w.file := Function.update_self _ _ _
    have herror : w.error = [] ↔ turn.Silent 0 size := by
      rw [hdone.error]
      simp
    rw [hloop]
    by_cases hquiet : w.error = []
    · have hanswer : w.answer = ascii "### 200" := by
        rw [Perl.Writing.answer, if_pos hquiet]
      have hupN : Uploads path permissions exist reads N.worker :=
        ⟨hup.isRunning, hup.url, hup.putPerm, hup.checkExist, hup.hasAppend, hup.toRead⟩
      have hskip : Perl.skips true N.remote.stdin = some true := by
        have hleft : N.remote.stdin = body.drop size := hdone.stdin
        rw [hleft]
        exact hrest
      obtain ⟨hgoes, hremote⟩ := hear_done (i := i + 1) h hd (L := N) hcmd hlist hfree hupN hskip
        rfl
      have hposN : N.worker.putPos = p := hpos
      rw [hposN] at hgoes
      rw [hanswer]
      refine ⟨fun hno => absurd ⟨hopened.1, hopened.2, herror.mp hquiet⟩ hno, fun _ =>
        ⟨hgoes, w, hdone, ?_, ?_⟩⟩
      · rw [hremote]
        exact hfile
      · rw [hremote]
    · refine ⟨fun _ => ?_, fun hacc => absurd (herror.mpr hacc.silent) hquiet⟩
      rw [Perl.Writing.answer, if_neg hquiet]
      refine hear_refused ?_ (State.errorLine_500 hd w.error)
      exact hcmd.imp_right Or.inl

variable (env) in
lemma round_reads (host : Host) {text : Bytes} (hout : L.worker.out.Handed text)
    (hreturned : L.returned = none) {line rest : Bytes}
    (hnext : Perl.nextLine (L.remote.stdin ++ text) = some (line, rest)) :
    ∃ o : Out, o.Free ∧ round env host L =
      match Perl.request line with
      | none => ⟨L.worker.withOut o, { L.remote with stdin := rest }, none⟩
      | some (.LIST _) => hear env ⟨L.worker.withOut o, { L.remote with stdin := rest }, none⟩
          (Perl.listLines host.localtime host.place.found)
      | some (.STOR size fn) => writeLoop env host
          ⟨L.worker.withOut o, { L.remote with stdin := rest }, none⟩ true 0 size fn
      | some (.WRITE offset size fn) => writeLoop env host
          ⟨L.worker.withOut o, { L.remote with stdin := rest }, none⟩ false offset size fn
      | some (.CHMOD _ _) => hear env ⟨L.worker.withOut o, { L.remote with stdin := rest }, none⟩
          [match host.chmod with
          | none => ascii "### 200"
          | some error => ascii "### 500 " ++ error] := by
  obtain ⟨o, hflush, hfree, hwritten⟩ := State.flush_handed hout
  refine ⟨o, hfree, ?_⟩
  have harrived : (L.worker.withOut o).out.written.drop L.worker.out.written.length = text := by
    have hnew : (L.worker.withOut o).out.written = L.worker.out.written ++ text := hwritten
    rw [hnew, List.drop_left]
  unfold round
  rw [if_neg (by simp [hreturned])]
  simp only [hflush, harrived, hnext, hreturned]

lemma round_write (h : EncodesAscii env) (hd : DecodesAscii env) (host : Host) {path : Text}
    {c : Bytes} (hat : AtWrite env path permissions exist i p c reads L) {fn : Bytes}
    (hfn : Perl.remoteName env path = some fn) {data : Bytes}
    (hfile : L.remote.files fn = some data) :
    (¬ (host.turn i).Accepts p c.length → ∃ type detail,
      (round env host L).returned = some (.fail type detail)) ∧
    ((host.turn i).Accepts p c.length →
      Goes env path permissions exist (i + 1) (p + c.length) reads (round env host L) ∧
      ((round env host L).remote.failed = false ↔
        L.remote.failed = false ∧ (host.turn i).Whole 0 c.length) ∧
      ∃ data', (round env host L).remote.files fn = some data' ∧
        ((host.turn i).Whole 0 c.length → c ≠ [] → data.length = p → data' = data ++ c)) := by
  obtain ⟨line, rest, shell, hnext, hrequest, hshell⟩ := Perl.reads_WRITE path h p c.length
    (by rw [hfn]; rfl) hat.up.stdin
  obtain ⟨o, hfree, hround⟩ := round_reads env host hat.up.out hat.up.returned hnext
  rw [hrequest, hfn] at hround
  set N : Upload := ⟨L.worker.withOut o, { L.remote with stdin := rest }, none⟩ with hN
  have hround : round env host L = writeLoop env host N false p c.length fn := hround
  have hbody : State.bodyOf N.worker.rawData N.worker.sendLen = c ++ Out.padding := by
    have hraw : N.worker.rawData = c := hat.rawData
    have hlen : N.worker.sendLen = c.length := hat.sendLen
    rw [State.bodyOf, if_neg (by omega), hraw]
  have hskip : Perl.skips true ((c ++ Out.padding).drop c.length) = some true := by
    rw [List.drop_left]
    decide
  have hupN : Uploads path permissions exist reads N.worker :=
    ⟨hat.uploads.1, hat.uploads.2, hat.uploads.3, hat.uploads.4, hat.uploads.5, hat.uploads.6⟩
  have hlen : N.worker.sendLen = -1 ∨ N.worker.sendLen = N.worker.rawData.length := by
    refine Or.inr ?_
    have hraw : N.worker.rawData = c := hat.rawData
    rw [hraw]
    exact hat.sendLen
  obtain ⟨hrefused, haccepted⟩ := writeLoop_spec host h hd (L := N)
    (Or.inr hat.up.fishCommand) hat.up.commandList hfree hupN hlen
    c.length (by rw [hbody]; simp) (by rw [hbody]; exact hskip) hshell hat.up.turns
    hat.putPos false p fn
  rw [hround]
  refine ⟨hrefused, fun hacc => ?_⟩
  obtain ⟨hgoes, w, hdone, hfileN, hfailed⟩ := haccepted hacc
  rw [hbody] at hdone
  have hshort : w.short = false ↔ (host.turn i).Whole 0 c.length := by
    rw [hdone.short]
    simp
  refine ⟨hgoes, ?_, w.file, hfileN, fun hwhole hne hlength => ?_⟩
  · rw [hfailed, Bool.or_eq_false_iff, hshort]
  · have hdata : (N.remote.files fn).getD [] = data := by
      have hsame : N.remote.files fn = some data := hfile
      rw [hsame]
      rfl
    have hwritten := hdone.file (hshort.mpr hwhole) (by simpa using hne)
    simp only [Bool.false_eq_true, if_false, hdata] at hwritten
    rw [hwritten, List.take_left, ← hlength, Store.splice_end]

lemma round_mode (h : EncodesAscii env) (hd : DecodesAscii env) (host : Host) {path : Text}
    (hat : AtMode env path permissions reads L) (hfn : (Perl.remoteName env path).isSome) :
    (host.chmod ≠ none → ∃ type detail,
      (round env host L).returned = some (.fail type detail)) ∧
    (host.chmod = none → (round env host L).returned = some .pass ∧
      (round env host L).worker.toRead = leftOver reads ∧
      (round env host L).remote.files = L.remote.files ∧
      (round env host L).remote.failed = L.remote.failed) := by
  obtain ⟨i, hup⟩ := hat.up
  obtain ⟨line, rest, hnext, hrequest⟩ := Perl.reads_CHMOD path h permissions.toNat hfn hup.stdin
  obtain ⟨fn, hfn⟩ := Option.isSome_iff_exists.mp hfn
  obtain ⟨o, hfree, hround⟩ := round_reads env host hup.out hup.returned hnext
  rw [hrequest, hfn] at hround
  set N : Upload := ⟨L.worker.withOut o, { L.remote with stdin := rest }, none⟩ with hN
  have hround : round env host L = hear env N
      [match host.chmod with
      | none => ascii "### 200"
      | some error => ascii "### 500 " ++ error] := hround
  have hcmd : N.worker.fishCommand = .CHMOD := hup.fishCommand
  rw [hround]
  cases hchmod : host.chmod with
  | some error =>
    exact ⟨fun _ => hear_refused (Or.inr (Or.inr hcmd)) (State.errorLine_500 hd error),
      fun hnone => absurd hnone (by simp)⟩
  | none =>
    refine ⟨fun hno => absurd rfl hno, fun _ => ?_⟩
    obtain ⟨signals, hmanage⟩ := State.manageLine_mode hd hcmd
    have hover : (({ N.worker with signals := signals } : State).finished env) =
        { N.worker with signals := signals, isRunning := false } := by
      have hlist : N.worker.commandList = [] := hup.commandList
      simp [State.finished, hlist]
    have hhear : hear env N [ascii "### 200"] =
        ⟨{ N.worker with signals := signals, isRunning := false }, N.remote, some .pass⟩ := by
      unfold hear State.hear
      rw [hmanage, hover]
      rfl
    dsimp only
    rw [hhear]
    exact ⟨rfl, hat.toRead, rfl, rfl⟩

end Upload

/-! ### The rounds of an upload -/

/-- No command of an upload is answered with an error: from a turn and an offset on, for the chunks
that follow. -/
def Host.Accepts (host : Host) : ℕ → ℕ → List Bytes → Prop
  | _, _, [] => True
  | i, p, c :: cs => (host.turn i).Accepts p c.length ∧ host.Accepts (i + 1) (p + c.length) cs

/-- No call of `syswrite` is cut short. -/
def Host.Whole (host : Host) : ℕ → List Bytes → Prop
  | _, [] => True
  | i, c :: cs => (host.turn i).Whole 0 c.length ∧ host.Whole (i + 1) cs

/-- The permissions of a new file can be set, where that is asked for. -/
def Host.Permits (host : Host) (permissions : ℤ) (exist : Bool) : Prop :=
  exist = false ∧ -1 < permissions → host.chmod = none

/-- How an upload ends. -/
structure Outcome (fn : Bytes) (accepted clean whole : Prop) (content : Bytes)
    (unread : List ReadData) (L : Upload) : Prop where
  returned : (¬ accepted ∧ ∃ type detail, L.returned = some (.fail type detail)) ∨
    (accepted ∧ L.returned = some .pass)
  failed : accepted → (L.remote.failed = false ↔ clean)
  content : accepted → whole → L.remote.files fn = some content
  unread : accepted → L.worker.toRead = unread

namespace Upload

variable {env : Env}

lemma after_succ (host : Host) (n : ℕ) (L : Upload) :
    after env host (n + 1) L = after env host n (round env host L) := by
  unfold after
  exact Function.iterate_succ_apply _ n L

variable {L : Upload} {exist : Bool} {fn : Bytes} {i p : ℕ} {permissions : ℤ}
  {reads : List ReadData}

lemma ends_outcome (h : EncodesAscii env) (hd : DecodesAscii env) (host : Host) {path : Text}
    (hgoes : Goes env path permissions exist i p reads L) (hend : delivered reads = [])
    (hfn : Perl.remoteName env path = some fn) {data : Bytes}
    (hfile : L.remote.files fn = some data) :
    ∃ n, Outcome fn (host.Accepts i p (delivered reads) ∧ host.Permits permissions exist)
      (L.remote.failed = false ∧ host.Whole i (delivered reads))
      (data.length = p ∧ host.Whole i (delivered reads))
      (data ++ (delivered reads).flatten) (leftOver reads) (after env host n L) := by
  have hwhole : host.Whole i (delivered reads) := by
    rw [hend]
    trivial
  have haccepts : host.Accepts i p (delivered reads) := by
    rw [hend]
    trivial
  have hcontent : data ++ (delivered reads).flatten = data := by
    rw [hend]
    simp
  cases hgoes with
  | @write c rest hreads hne hat =>
    rw [hreads, delivered, if_neg hne] at hend
    simp at hend
  | mode hend hnew hat =>
    obtain ⟨hrefused, hdone⟩ := round_mode h hd host hat (by rw [hfn]; rfl)
    by_cases hchmod : host.chmod = none
    · obtain ⟨hpass, hread, hfiles, hfailed⟩ := hdone hchmod
      refine ⟨1, Or.inr ⟨⟨haccepts, fun _ => hchmod⟩, hpass⟩, fun _ => ?_, fun _ _ => ?_,
        fun _ => hread⟩
      · change (round env host L).remote.failed = false ↔ _
        rw [hfailed]
        simp [hwhole]
      · change (round env host L).remote.files fn = _
        rw [hfiles, hfile, hcontent]
    · obtain ⟨type, detail, hfail⟩ := hrefused hchmod
      have hno : ¬ (host.Accepts i p (delivered reads) ∧ host.Permits permissions exist) :=
        fun hall => hchmod (hall.2 hnew)
      exact ⟨1, Or.inl ⟨hno, type, detail, hfail⟩, fun hall => absurd hall hno,
        fun hall => absurd hall hno, fun hall => absurd hall hno⟩
  | ended hend hnew hread hreturned =>
    refine ⟨0, Or.inr ⟨⟨haccepts, fun hnew' => absurd hnew' hnew⟩, hreturned⟩, fun _ => ?_,
      fun _ _ => ?_, fun _ => hread⟩
    · change L.remote.failed = false ↔ _
      simp [hwhole]
    · change L.remote.files fn = _
      rw [hfile, hcontent]

theorem goes_outcome (h : EncodesAscii env) (hd : DecodesAscii env) (host : Host) {path : Text}
    (hgoes : Goes env path permissions exist i p reads L) (hfn : Perl.remoteName env path = some fn)
    {data : Bytes} (hfile : L.remote.files fn = some data) :
    ∃ n, Outcome fn (host.Accepts i p (delivered reads) ∧ host.Permits permissions exist)
      (L.remote.failed = false ∧ host.Whole i (delivered reads))
      (data.length = p ∧ host.Whole i (delivered reads))
      (data ++ (delivered reads).flatten) (leftOver reads) (after env host n L) := by
  induction reads generalizing i p L data with
  | nil => exact ends_outcome h hd host hgoes rfl hfn hfile
  | cons read reads ih =>
    cases hgoes with
    | mode hend hnew hat => exact ends_outcome h hd host (.mode hend hnew hat) hend hfn hfile
    | ended hend hnew hread hreturned =>
      exact ends_outcome h hd host (.ended hend hnew hread hreturned) hend hfn hfile
    | @write c rest hreads hne hat =>
      obtain ⟨rfl, rfl⟩ := List.cons.inj hreads
      have hdelivered : delivered (.chunk c :: reads) = c :: delivered reads := by
        rw [delivered, if_neg hne]
      have hleft : leftOver (.chunk c :: reads) = leftOver reads := by
        rw [leftOver, if_neg hne]
      rw [hdelivered, hleft]
      obtain ⟨hrefused, haccepted⟩ := round_write h hd host hat hfn hfile
      by_cases hacc : (host.turn i).Accepts p c.length
      · obtain ⟨hgoes, hfailed, data', hfile', hdata'⟩ := haccepted hacc
        obtain ⟨n, hout⟩ := ih hgoes hfile'
        refine ⟨n + 1, ?_⟩
        rw [after_succ]
        have hwhole : data.length = p ∧ host.Whole i (c :: delivered reads) →
            data' = data ++ c ∧ data'.length = p + c.length ∧
              host.Whole (i + 1) (delivered reads) := by
          rintro ⟨hlength, hfirst, hothers⟩
          have heq := hdata' hfirst hne hlength
          refine ⟨heq, ?_, hothers⟩
          rw [heq, List.length_append, hlength]
        refine ⟨?_, fun hall => ?_, fun hall hw => ?_, fun hall => ?_⟩
        · rcases hout.returned with ⟨hno, hfail⟩ | ⟨hyes, hpass⟩
          · exact Or.inl ⟨fun hall => hno ⟨hall.1.2, hall.2⟩, hfail⟩
          · exact Or.inr ⟨⟨⟨hacc, hyes.1⟩, hyes.2⟩, hpass⟩
        · rw [hout.failed ⟨hall.1.2, hall.2⟩, hfailed, and_assoc]
          rfl
        · obtain ⟨heq, hothers⟩ := hwhole hw
          rw [hout.content ⟨hall.1.2, hall.2⟩ hothers, heq]
          simp
        · exact hout.unread ⟨hall.1.2, hall.2⟩
      · obtain ⟨type, detail, hfail⟩ := hrefused hacc
        refine ⟨1, Or.inl ⟨fun hall => hacc hall.1.1, type, detail, hfail⟩,
          fun hall => absurd hall.1.1 hacc, fun hall => absurd hall.1.1 hacc,
          fun hall => absurd hall.1.1 hacc⟩

lemma round_stor (h : EncodesAscii env) (hd : DecodesAscii env) (host : Host) {path : Text}
    (hup : Uploads path permissions exist reads L.worker)
    (hstor : Up env .STOR [number 10 0, Perl.pathArg env path] i L)
    (hlen : L.worker.sendLen = -1 ∨ (L.worker.sendLen = 0 ∧ L.worker.rawData = []))
    (hpos : L.worker.putPos = 0) (hfn : Perl.remoteName env path = some fn) :
    (¬ (host.turn i).Accepts 0 0 → ∃ type detail,
      (round env host L).returned = some (.fail type detail)) ∧
    ((host.turn i).Accepts 0 0 →
      Goes env path permissions exist (i + 1) 0 reads (round env host L) ∧
      (round env host L).remote.failed = L.remote.failed ∧
      (round env host L).remote.files fn = some []) := by
  obtain ⟨line, rest, shell, hnext, hrequest, hshell⟩ := Perl.reads_STOR path h 0
    (by rw [hfn]; rfl) hstor.stdin
  obtain ⟨o, hfree, hround⟩ := round_reads env host hstor.out hstor.returned hnext
  rw [hrequest, hfn] at hround
  set N : Upload := ⟨L.worker.withOut o, { L.remote with stdin := rest }, none⟩ with hN
  have hround : round env host L = writeLoop env host N true 0 0 fn := hround
  have hupN : Uploads path permissions exist reads N.worker :=
    ⟨hup.1, hup.2, hup.3, hup.4, hup.5, hup.6⟩
  have hskip : Perl.skips true (State.bodyOf N.worker.rawData N.worker.sendLen) = some true := by
    have hraw : N.worker.rawData = L.worker.rawData := rfl
    have hsend : N.worker.sendLen = L.worker.sendLen := rfl
    rw [hraw, hsend]
    rcases hlen with hminus | ⟨hzero, hempty⟩
    · rw [hminus]
      rfl
    · rw [hzero, hempty]
      decide
  have hlen' : N.worker.sendLen = -1 ∨ N.worker.sendLen = N.worker.rawData.length := by
    rcases hlen with hminus | ⟨hzero, hempty⟩
    · exact Or.inl hminus
    · refine Or.inr ?_
      have hraw : N.worker.rawData = [] := hempty
      rw [hraw]
      exact hzero
  obtain ⟨hrefused, haccepted⟩ := writeLoop_spec host h hd (L := N) (Or.inl hstor.fishCommand)
    hstor.commandList hfree hupN hlen' 0 (Nat.zero_le _) (by simpa using hskip) hshell
    hstor.turns hpos true 0 fn
  rw [hround]
  refine ⟨hrefused, fun hacc => ?_⟩
  obtain ⟨hgoes, w, hdone, hfile, hfailed⟩ := haccepted hacc
  have hshort : w.short = false := hdone.short.mpr ⟨rfl, Perl.Turn.whole_zero _ _⟩
  refine ⟨hgoes, ?_, ?_⟩
  · rw [hfailed, hshort, Bool.or_false]
  · rw [hfile, hdone.same rfl]
    rfl

end Upload

/-! ### The check of the destination -/

namespace Perl

def Place.shows (place : Place) : Bool :=
  match place.found with
  | .entries _ => true
  | _ => false

lemma Place.found_entries {place : Place} {entries : List Entry}
    (h : place.found = .entries entries) : entries ≠ [] := by
  cases place with
  | absent => simp [found] at h
  | dangling => simp [found] at h
  | file entry =>
    obtain rfl := Found.entries.inj h
    simp
  | directory dir =>
    unfold found Directory.found at h
    dsimp only at h
    split at h
    · simp at h
    · simp at h
    · obtain rfl := Found.entries.inj h
      exact dir.entries_ne

end Perl

namespace State

variable {env : Env}

variable {s : State} {overwrite : Bool} {permissions : ℤ} {reads : List ReadData}

variable {lines : List Bytes} {t : State}

lemma hear_append (h : s.hear env lines = (t, .pass)) (more : List Bytes) :
    s.hear env (lines ++ more) = t.hear env more := by
  induction lines generalizing s with
  | nil =>
    obtain ⟨rfl, _⟩ := Prod.mk.inj h
    rfl
  | cons line lines ih =>
    rw [hear] at h
    rw [List.cons_append, hear]
    rcases hm : s.manageLine env line with ⟨u, _ | ⟨type, detail⟩⟩
    · rw [hm] at h
      exact ih h
    · rw [hm] at h
      simp at h

lemma hear_one {line : Bytes} (h : s.manageLine env line = (t, .pass)) :
    s.hear env [line] = (t, .pass) := by
  rw [hear, h]
  rfl

lemma hear_lines (hcmd : s.fishCommand = .LIST)
    (hlines : ∀ line ∈ lines, startsWith "### ".toList (env.decode line) = false) :
    s.hear env lines = (s.readLines env lines, .pass) := by
  induction lines generalizing s with
  | nil => rfl
  | cons line lines ih =>
    have hfirst := hear_one (manageLine_listing env (Or.inl hcmd) (hlines line (by simp)))
    have hlisting := readLine_listing env s (env.decode line)
    rw [← List.singleton_append, hear_append hfirst]
    exact ih (by rw [hlisting.fishCommand, hcmd]) fun l hl => hlines l (by simp [hl])

lemma hear_head (hd : DecodesAscii env) (hcmd : s.fishCommand = .LIST) (n : ℕ) :
    ∃ t, Listing s t ∧ s.hear env [bytesOf (number 10 n), ascii "### 100"] = (t, .pass) := by
  have hplain := Perl.number_plain hd n
  set u := s.readLine env (env.decode (bytesOf (number 10 n))) with hu
  have hlisting : Listing s u := readLine_listing env s _
  have hucmd : u.fishCommand = .LIST := by rw [hlisting.fishCommand, hcmd]
  have hmanage : u.manageLine env (ascii "### 100") =
      (u.emit (.line (env.decode (ascii "### 100"))), .pass) := by
    have hsame : ∀ signal, (u.emit signal).fishCommand = u.fishCommand := fun _ => rfl
    rw [manageLine_code (decode_100 hd) (n := 100) (by decide) (by decide) (by decide), if_pos rfl]
    unfold respond100
    rw [hsame, hucmd]
    rfl
  refine ⟨u.emit (.line (env.decode (ascii "### 100"))),
    hlisting.trans ⟨_, _, _, _, _, _, _, _, rfl⟩, ?_⟩
  have hfirst := hear_one (manageLine_listing env (Or.inl hcmd) hplain.2)
  rw [← List.singleton_append, hear_append hfirst]
  exact hear_one hmanage

lemma hear_entries (hd : DecodesAscii env) (hcmd : s.fishCommand = .LIST)
    (hreason : s.listReason = .CHECK) (localtime : ℤ → DateTime) {entries : List Perl.Entry}
    (hne : entries ≠ []) :
    ∃ t, Listing s t ∧ t.checkExist = true ∧
      s.hear env (entries.flatMap (Perl.entryLines localtime)) = (t, .pass) := by
  set lines := entries.flatMap (Perl.entryLines localtime) with hlines
  have hplain : ∀ line ∈ lines, startsWith "### ".toList (env.decode line) = false := by
    intro line hline
    obtain ⟨e, _, hmem⟩ := List.mem_flatMap.mp hline
    exact (Perl.entryLines_plain hd localtime e hmem).2
  refine ⟨s.readLines env lines, readLines_listing env s lines, ?_, hear_lines hcmd hplain⟩
  obtain ⟨before, e, hlast⟩ := List.eq_nil_or_concat entries |>.resolve_left hne
  set front := before.flatMap (Perl.entryLines localtime) ++ Perl.bodyLines localtime e with hfront
  have hend : lines = front ++ [[]] := by
    rw [hlines, hlast]
    simp [hfront, Perl.entryLines]
  have hlisting := readLines_listing env s front
  have hread : s.readLines env lines = (s.readLines env front).readLine env [] := by
    rw [hend, readLines_append]
    exact congrArg ((s.readLines env front).readLine env) hd.nil
  rw [hread]
  refine (readLine_end env _).2.2.2 ?_ ?_
  · rw [hlisting.fishCommand, hcmd]
  · rw [hlisting.listReason, hreason]

/-- What an upload passes on when its destination is checked. -/
structure AtCheck (env : Env) (path : Text) (permissions : ℤ) (overwrite : Bool)
    (reads : List ReadData) (s : State) : Prop where
  isRunning : s.isRunning = true
  url : s.url = path
  putPerm : s.putPerm = permissions
  hasAppend : s.hasAppend = false
  toRead : s.toRead = reads
  listReason : s.listReason = .CHECK
  checkOverwrite : s.checkOverwrite = overwrite
  fishCommand : s.fishCommand = .LIST
  commandList : s.commandList = [(.STOR, commandText (fishInfo env.CHECKSUM .STOR)
    [number 10 0, Perl.pathArg env path])]
  sendLen : s.sendLen = -1 ∨ (s.sendLen = 0 ∧ s.rawData = [])
  putPos : s.putPos = 0

lemma AtCheck.listing {path : Text} (hs : AtCheck env path permissions overwrite reads s)
    (h : Listing s t) : AtCheck env path permissions overwrite reads t ∧ t.out = s.out := by
  obtain ⟨_, _, _, _, _, _, _, _, rfl⟩ := h
  exact ⟨⟨hs.1, hs.2, hs.3, hs.4, hs.5, hs.6, hs.7, hs.8, hs.9, hs.10, hs.11⟩, rfl⟩

/-- `STOR` is up behind the check. -/
structure Passed (env : Env) (path : Text) (permissions : ℤ) (exist : Bool) (reads : List ReadData)
    (s : State) : Prop where
  uploads : Uploads path permissions exist reads s
  fishCommand : s.fishCommand = .STOR
  commandList : s.commandList = []
  out : s.out.Handed (env.E (commandText (fishInfo env.CHECKSUM .STOR)
    [number 10 0, Perl.pathArg env path]))
  sendLen : s.sendLen = -1 ∨ (s.sendLen = 0 ∧ s.rawData = [])
  putPos : s.putPos = 0

lemma AtCheck.finished {path : Text} (hs : AtCheck env path permissions overwrite reads s)
    (hout : s.out.Free) : Passed env path permissions s.checkExist reads (s.finished env) := by
  have hfinished : s.finished env = { s with
      fishCommand := .STOR
      errorCount := -((fishInfo env.CHECKSUM .STOR).lines : ℤ)
      rawRead := 0
      udsEntry := {}
      udsStatEntry := {}
      out := Out.writeStdin { s.out with rawWrite := -1 } (env.E
        (commandText (fishInfo env.CHECKSUM .STOR) [number 10 0, Perl.pathArg env path]))
      commandList := [] } := by
    unfold State.finished
    rw [hs.commandList]
  rw [hfinished]
  exact ⟨⟨hs.isRunning, hs.url, hs.putPerm, rfl, hs.hasAppend, hs.toRead⟩, rfl, rfl,
    hout.writeStdin _, hs.sendLen, hs.putPos⟩

lemma AtCheck.missing {path : Text} (hs : AtCheck env path permissions overwrite reads s)
    (hout : s.out.Free) {line : Bytes} {n : ℤ} (hn : ErrorLine env line n) :
    ∃ t, s.hear env [line] = (t, .pass) ∧ Passed env path permissions false reads t := by
  set u : State := { s.emit (.line (env.decode line)) with checkExist := false } with hu
  have hcheck : AtCheck env path permissions overwrite reads u :=
    ⟨hs.1, hs.2, hs.3, hs.4, hs.5, hs.6, hs.7, hs.8, hs.9, hs.10, hs.11⟩
  refine ⟨u.finished env, hear_one ?_, hcheck.finished hout⟩
  rw [manageLine_error hn]
  have hcmd : (s.emit (.line (env.decode line))).fishCommand = .LIST := hs.fishCommand
  have hreason : ¬ (s.emit (.line (env.decode line))).listReason = .LIST := by
    have hcheck : (s.emit (.line (env.decode line))).listReason = .CHECK := hs.listReason
    rw [hcheck]
    decide
  unfold respondError
  rw [hcmd]
  dsimp only
  rw [if_neg hreason, hu, ← hcmd]
  rfl

lemma AtCheck.found (hd : DecodesAscii env) {path : Text}
    (hs : AtCheck env path permissions overwrite reads s) (hout : s.out.Free)
    (hexist : s.checkExist = true) :
    (overwrite = false → ∃ t type detail, s.hear env [ascii "### 200"] = (t, .fail type detail)) ∧
    (overwrite = true → ∃ t, s.hear env [ascii "### 200"] = (t, .pass) ∧
      Passed env path permissions true reads t) := by
  set u := s.emit (.line (env.decode (ascii "### 200"))) with hu
  have hcmd : u.fishCommand = .LIST := hs.fishCommand
  have hmanage : s.manageLine env (ascii "### 200") = conclude env (u.respondOk env) :=
    manageLine_ok hd s
  have hok : u.respondOk env =
      if u.listReason = .CHECK ∧ u.checkOverwrite = false ∧ u.checkExist = true then
        u.error .ERR_FILE_ALREADY_EXIST (env.toDisplayString u.url)
      else (u, .finished) := by
    unfold respondOk
    dsimp only
    rw [afterStor_self hcmd (by decide), hcmd]
  constructor
  · intro hno
    have hrefused : u.listReason = .CHECK ∧ u.checkOverwrite = false ∧ u.checkExist = true :=
      ⟨hs.listReason, hs.checkOverwrite.trans hno, hexist⟩
    rw [hok, if_pos hrefused] at hmanage
    refine ⟨(u.error .ERR_FILE_ALREADY_EXIST (env.toDisplayString u.url)).1,
      .ERR_FILE_ALREADY_EXIST, env.toDisplayString u.url, ?_⟩
    rw [hear, hmanage]
    rfl
  · intro hyes
    have hpassed : ¬ (u.listReason = .CHECK ∧ u.checkOverwrite = false ∧ u.checkExist = true) := by
      rintro ⟨_, hno, _⟩
      have heq : u.checkOverwrite = overwrite := hs.checkOverwrite
      rw [heq, hyes] at hno
      exact absurd hno (by decide)
    rw [hok, if_neg hpassed] at hmanage
    have hcheck : AtCheck env path permissions overwrite reads u :=
      ⟨hs.1, hs.2, hs.3, hs.4, hs.5, hs.6, hs.7, hs.8, hs.9, hs.10, hs.11⟩
    have hexist' : u.checkExist = true := hexist
    refine ⟨u.finished env, hear_one hmanage, ?_⟩
    have hlast := hcheck.finished hout
    rwa [hexist'] at hlast

theorem AtCheck.answered (hd : DecodesAscii env) {path : Text} {permissions : ℤ}
    {overwrite : Bool} {reads : List ReadData} {s : State}
    (hs : AtCheck env path permissions overwrite reads s) (hout : s.out.Free)
    (localtime : ℤ → DateTime) (place : Perl.Place) :
    (place.shows = true ∧ overwrite = false → ∃ t type detail,
      s.hear env (Perl.listLines localtime place.found) = (t, .fail type detail)) ∧
    (¬ (place.shows = true ∧ overwrite = false) → ∃ t,
      s.hear env (Perl.listLines localtime place.found) = (t, .pass) ∧
      Passed env path permissions place.shows reads t) := by
  cases hfound : place.found with
  | missing =>
    have hshows : place.shows = false := by simp [Perl.Place.shows, hfound]
    rw [hshows]
    exact ⟨fun h => absurd h.1 (by decide), fun _ =>
      hs.missing hout (State.errorLine_404 hd)⟩
  | closed error =>
    have hshows : place.shows = false := by simp [Perl.Place.shows, hfound]
    rw [hshows]
    exact ⟨fun h => absurd h.1 (by decide), fun _ =>
      hs.missing hout (State.errorLine_500 hd error)⟩
  | barred count error =>
    have hshows : place.shows = false := by simp [Perl.Place.shows, hfound]
    obtain ⟨t, hlisting, hhead⟩ := hear_head hd hs.fishCommand count
    obtain ⟨ht, hto⟩ := hs.listing hlisting
    have hlines : Perl.listLines localtime (.barred count error) =
        [bytesOf (number 10 count), ascii "### 100"] ++ [ascii "### 500 " ++ error] := rfl
    rw [hshows, hlines, hear_append hhead]
    exact ⟨fun h => absurd h.1 (by decide), fun _ =>
      ht.missing (hto ▸ hout) (State.errorLine_500 hd error)⟩
  | entries entries =>
    have hshows : place.shows = true := by simp [Perl.Place.shows, hfound]
    obtain ⟨t, hlisting, hhead⟩ := hear_head hd hs.fishCommand entries.length
    obtain ⟨ht, hto⟩ := hs.listing hlisting
    obtain ⟨u, hlisting', hexist, hall⟩ := hear_entries hd ht.fishCommand ht.listReason localtime
      (Perl.Place.found_entries hfound)
    obtain ⟨hu, huo⟩ := ht.listing hlisting'
    have hlines : Perl.listLines localtime (.entries entries) =
        [bytesOf (number 10 entries.length), ascii "### 100"] ++
          (entries.flatMap (Perl.entryLines localtime) ++ [ascii "### 200"]) := by
      simp [Perl.listLines]
    obtain ⟨hrefused, hpassed⟩ := hu.found hd (huo ▸ hto ▸ hout) hexist
    rw [hshows, hlines, hear_append hhead, hear_append hall]
    exact ⟨fun h => hrefused h.2, fun h => hpassed (by simpa using h)⟩

/-! ### The operation -/

/-- The worker between two operations, on a connection with the perl server: everything has been
written, and the server has not said that it can append. No body has been announced, or the empty
one of an upload that came to the end of its data. -/
structure AtRest (s : State) : Prop where
  childPid : s.childPid = true
  isRunning : s.isRunning = false
  commandList : s.commandList = []
  hasAppend : s.hasAppend = false
  out : s.out.Free
  sendLen : s.sendLen = -1 ∨ (s.sendLen = 0 ∧ s.rawData = [])

lemma call_put (h : EncodesAscii env) (hs : s.AtRest) {path : Text}
    (hpath : env.normalized path ≠ []) (permissions : ℤ) (overwrite : Bool) (login : WorkerResult) :
    ∃ t, s.call env (.put path permissions overwrite) login = (t, none) ∧
      AtCheck env (env.normalized path) permissions overwrite s.toRead t ∧
      t.out.Handed (env.E (commandText (fishInfo env.CHECKSUM .LIST)
        [Perl.pathArg env (env.normalized path)])) := by
  obtain ⟨hchild, hrun, hlist, happend, hout, hlen⟩ := hs
  have hzero : env.fromUtf8 (ascii "0") = number 10 0 :=
    h.fromUtf8 (number 10 0) (forall_mem_of_all (by decide))
  refine ⟨(s.call env (.put path permissions overwrite) login).1, ?_, ?_, ?_⟩
  · simp [call, Op.otherHost, Op.path, openConnection, hchild, neededPath, hpath, enqueue, startRun,
      sendCommand, hlist, hrun, finished]
  · constructor <;> simp [call, Op.otherHost, Op.path, openConnection, hchild, neededPath, hpath,
      enqueue, startRun, sendCommand, hlist, hrun, finished, happend, hlen, hzero, Perl.pathArg]
  · simp only [call, Op.otherHost, Op.path, openConnection, hchild, neededPath, hpath, enqueue,
      startRun, sendCommand, hlist, hrun, finished, if_true, if_false, List.nil_append,
      WorkerResult.success_pass, Bool.true_eq_false, Bool.false_eq_true, List.cons_append]
    exact hout.writeStdin _

end State

namespace Upload

variable {env : Env}

def Succeeded (L : Upload) : Prop := ∃ result, L.returned = some result ∧ result.success = true

variable {L : Upload}

lemma succeeded_iff : L.Succeeded ↔ L.returned = some .pass := by
  constructor
  · rintro ⟨result, hreturned, hsuccess⟩
    cases result with
    | pass => exact hreturned
    | fail type detail => simp at hsuccess
  · exact fun hreturned => ⟨.pass, hreturned, rfl⟩

/-- What is asked of an upload at any time, for what the application hands out: success means that
the data have come to their end and are the file; there is none once `readData` or a write on the
server has failed. -/
structure Uploaded (env : Env) (path : Text) (reads : List ReadData) (L : Upload) : Prop where
  whole : L.Succeeded → endsWell reads = true ∧
    (Perl.remoteName env path).bind L.remote.files = some (delivered reads).flatten
  readError : ∀ buffer, .error buffer ∈ reads.take (reads.length - L.worker.toRead.length) →
    ¬ L.Succeeded
  writeError : L.remote.failed = true → ¬ L.Succeeded

/-- Nothing that an upload asks for is answered with an error. -/
structure Carries (env : Env) (host : Host) (path : Text) (permissions : ℤ) (overwrite : Bool)
    (reads : List ReadData) : Prop where
  name : (Perl.remoteName env path).isSome
  destination : ¬ (host.place.shows = true ∧ overwrite = false)
  stor : (host.turn 0).Accepts 0 0
  chunks : host.Accepts 1 0 (delivered reads)
  permissions : host.Permits permissions host.place.shows

lemma after_returned (host : Host) (h : L.returned.isSome) (n : ℕ) : after env host n L = L := by
  induction n with
  | zero => rfl
  | succ n ih =>
    have hround : round env host L = L := by
      unfold round
      rw [if_pos h]
    rw [after_succ, hround, ih]

lemma after_add (host : Host) (m n : ℕ) (L : Upload) :
    after env host (m + n) L = after env host m (after env host n L) :=
  Function.iterate_add_apply _ m n L

lemma after_same (host : Host) {m n : ℕ} (hm : (after env host m L).returned.isSome)
    (hn : (after env host n L).returned.isSome) : after env host m L = after env host n L := by
  rcases Nat.le_total m n with hle | hle
  · obtain ⟨k, rfl⟩ := Nat.exists_eq_add_of_le hle
    rw [Nat.add_comm m k, after_add, after_returned host hm]
  · obtain ⟨k, rfl⟩ := Nat.exists_eq_add_of_le hle
    rw [Nat.add_comm n k, after_add, after_returned host hn]

/-- The server has come to the end of what it was sent, and waits. -/
structure Stuck (L : Upload) : Prop where
  returned : L.returned = none
  out : L.worker.out.Free
  nextLine : Perl.nextLine L.remote.stdin = none

lemma Stuck.after {host : Host} (h : Stuck L) (n : ℕ) :
    (Upload.after env host n L).returned = none := by
  induction n generalizing L with
  | zero => exact h.returned
  | succ n ih =>
    have hflush : L.worker.flush = L.worker := State.flushLoop_done _ h.out.outBufPos
    have hround : round env host L = L := by
      unfold round
      rw [if_neg (by simp [h.returned])]
      simp only [hflush, List.drop_length, List.append_nil, h.nextLine]
    rw [after_succ, hround]
    exact ih h

/-- The link when the operation has put up its commands. -/
def start (s : State) (files : Bytes → Option Bytes) (stdin : Bytes) : Upload :=
  ⟨s, ⟨files, stdin, 0, false⟩, none⟩

theorem start_outcome (h : EncodesAscii env) (hd : DecodesAscii env) (host : Host) {path : Text}
    {permissions : ℤ} {overwrite : Bool} {reads : List ReadData} {s : State}
    (hs : State.AtCheck env path permissions overwrite reads s)
    (hout : s.out.Handed (env.E (commandText (fishInfo env.CHECKSUM .LIST)
      [Perl.pathArg env path]))) (files : Bytes → Option Bytes) {stdin : Bytes}
    (hstdin : Perl.skips true stdin = some true) :
    (Perl.remoteName env path = none ∧
      ∀ n, (after env host n (start s files stdin)).returned = none) ∨
    ∃ fn, Perl.remoteName env path = some fn ∧ ∃ n,
      Outcome fn (Carries env host path permissions overwrite reads)
        (host.Whole 1 (delivered reads)) (host.Whole 1 (delivered reads))
        (delivered reads).flatten (leftOver reads) (after env host n (start s files stdin)) := by
  obtain ⟨line, rest, hnext, hrequest, hrest⟩ := Perl.reads_LIST path h hstdin
  obtain ⟨o, hfree, hround⟩ := round_reads env host (L := start s files stdin) hout rfl
    hnext
  set N : Upload := ⟨s.withOut o, ⟨files, rest, 0, false⟩, none⟩ with hN
  cases hname : Perl.remoteName env path with
  | none =>
    rw [hrequest, hname] at hround
    have hround : round env host (start s files stdin) = N := hround
    have hstuck : Stuck N := ⟨rfl, hfree, Perl.nextLine_none hrest⟩
    refine Or.inl ⟨rfl, fun n => ?_⟩
    cases n with
    | zero => rfl
    | succ n =>
      rw [after_succ, hround]
      exact hstuck.after n
  | some fn =>
    refine Or.inr ⟨fn, rfl, ?_⟩
    rw [hrequest, hname] at hround
    have hround : round env host (start s files stdin) =
        hear env N (Perl.listLines host.localtime host.place.found) := hround
    have hcheck : State.AtCheck env path permissions overwrite reads N.worker :=
      ⟨hs.1, hs.2, hs.3, hs.4, hs.5, hs.6, hs.7, hs.8, hs.9, hs.10, hs.11⟩
    obtain ⟨hrefused, hpassed⟩ := hcheck.answered hd hfree host.localtime host.place
    by_cases hdest : host.place.shows = true ∧ overwrite = false
    · -- the destination is there
      obtain ⟨t, type, detail, hhear⟩ := hrefused hdest
      have hfail : (after env host 1 (start s files stdin)).returned =
          some (.fail type detail) := by
        change (round env host (start s files stdin)).returned = _
        rw [hround]
        unfold hear
        rw [hhear]
      have hno : ¬ Carries env host path permissions overwrite reads := fun hall =>
        hall.destination hdest
      exact ⟨1, Or.inl ⟨hno, type, detail, hfail⟩, fun hall => absurd hall hno,
        fun hall => absurd hall hno, fun hall => absurd hall hno⟩
    · obtain ⟨t, hhear, hup⟩ := hpassed hdest
      have hround : round env host (start s files stdin) = ⟨t, N.remote, none⟩ := by
        rw [hround]
        unfold hear
        rw [hhear]
        simp only [hup.uploads.isRunning, if_true]
      obtain ⟨hrefused', haccepted⟩ := round_stor h hd host (i := 0) (L := ⟨t, N.remote, none⟩)
        hup.uploads ⟨hup.fishCommand, hup.commandList, hup.out, hrest, rfl, rfl⟩ hup.sendLen
        hup.putPos hname
      by_cases hstor : (host.turn 0).Accepts 0 0
      · obtain ⟨hgoes, hfailed, hfile⟩ := haccepted hstor
        obtain ⟨n, hend⟩ := goes_outcome h hd host hgoes hname hfile
        refine ⟨n + 2, ?_⟩
        rw [after_succ, hround, after_succ]
        have hcarries : Carries env host path permissions overwrite reads ↔
            host.Accepts 1 0 (delivered reads) ∧ host.Permits permissions host.place.shows :=
          ⟨fun hall => ⟨hall.chunks, hall.permissions⟩,
            fun hall => ⟨by rw [hname]; rfl, hdest, hstor, hall.1, hall.2⟩⟩
        rw [hcarries]
        have hclean : (round env host ⟨t, N.remote, none⟩).remote.failed = false := hfailed
        refine ⟨hend.returned, fun hall => ?_, fun hall hwhole => ?_, hend.unread⟩
        · rw [hend.failed hall, hclean]
          simp
        · exact hend.content hall ⟨rfl, hwhole⟩
      · obtain ⟨type, detail, hfail⟩ := hrefused' hstor
        have hno : ¬ Carries env host path permissions overwrite reads := fun hall =>
          hstor hall.stor
        refine ⟨2, Or.inl ⟨hno, type, detail, ?_⟩, fun hall => absurd hall hno,
          fun hall => absurd hall hno, fun hall => absurd hall hno⟩
        rw [after_succ, hround]
        exact hfail

end Upload

/-! ### An upload whose data fail -/

/-- A remote side with the characters of one byte; others are written as `?`. -/
def latinEnv : Env where
  CHECKSUM := "0"
  fishCode := ascii "#!/usr/bin/perl\n"
  E := fun text => (text.takeWhile (· ≠ Char.ofNat 0)).map fun c =>
    if c.toNat < 256 then UInt8.ofNat c.toNat else 63
  decode := fun bytes => bytes.map fun b => Char.ofNat b.toNat
  fromUtf8 := fun bytes => (bytes.takeWhile (· ≠ 0)).map fun b => Char.ofNat b.toNat
  mimeTypeForUrl := fun _ => none
  mimeTypeForFileNameAndData := fun _ _ => "application/octet-stream".toList
  currentDateTime := ⟨2024, 1, 1, 0, 0, 0⟩
  toSecsSinceEpoch := fun _ => 0
  normalized := id
  stripTrailingSlash := id
  toDisplayString := String.ofList

lemma latinEnv_decodes : DecodesAscii latinEnv :=
  ⟨State.asciiEnv_decodes.nil, State.asciiEnv_decodes.cons, State.asciiEnv_decodes.colon,
    State.asciiEnv_decodes.mem_colon, State.asciiEnv_decodes.mem_slash⟩

lemma latinEnv_encodes : EncodesAscii latinEnv where
  append u v hu := by
    have hall : ∀ c ∈ u, decide (c ≠ Char.ofNat 0) = true := by
      intro c hc
      simpa using ne_of_mem_of_not_mem hc hu
    have htake : (u ++ v).takeWhile (· ≠ Char.ofNat 0) =
        u ++ v.takeWhile (· ≠ Char.ofNat 0) := List.takeWhile_append_of_pos hall
    have hself : u.takeWhile (· ≠ Char.ofNat 0) = u := List.takeWhile_eq_self_iff.mpr hall
    change List.map _ ((u ++ v).takeWhile (· ≠ Char.ofNat 0)) =
      List.map _ (u.takeWhile (· ≠ Char.ofNat 0)) ++ List.map _ (v.takeWhile (· ≠ Char.ofNat 0))
    rw [htake, hself, List.map_append]
  ascii c hpos hlt := by
    have hc : c ≠ Char.ofNat 0 := by
      rintro rfl
      simp at hpos
    have hlt' : c.toNat < 256 := by omega
    simp [latinEnv, hc, hlt']
  beyond c hge b hb := by
    have hc : c ≠ Char.ofNat 0 := by
      rintro rfl
      simp at hge
    have hbyte : b = if c.toNat < 256 then UInt8.ofNat c.toNat else 63 := by
      simpa [latinEnv, hc] using hb
    rw [hbyte]
    split_ifs with hlt
    · have hnat : (UInt8.ofNat c.toNat).toNat = c.toNat := by
        simp only [UInt8.toNat_ofNat']
        omega
      have hne : ∀ d : UInt8, d.toNat < 128 → UInt8.ofNat c.toNat ≠ d := by
        rintro d hd rfl
        omega
      exact ⟨hne 10 (by decide), hne 35 (by decide), hne 92 (by decide)⟩
    · decide
  fromUtf8 text htext := by
    have hnat : ∀ c ∈ text, (UInt8.ofNat c.toNat).toNat = c.toNat := by
      intro c hc
      have hlt := (htext c hc).2
      simp only [UInt8.toNat_ofNat']
      omega
    have hself : (bytesOf text).takeWhile (· ≠ 0) = bytesOf text := by
      rw [List.takeWhile_eq_self_iff]
      intro b hb
      obtain ⟨c, hc, rfl⟩ := List.mem_map.mp hb
      have hne : UInt8.ofNat c.toNat ≠ 0 := by
        intro hzero
        have hpos := (htext c hc).1
        rw [← hnat c hc, hzero] at hpos
        exact absurd hpos (by decide)
      simpa using hne
    change List.map _ ((bytesOf text).takeWhile (· ≠ 0)) = text
    rw [hself, bytesOf, List.map_map]
    refine (List.map_congr_left fun c hc => ?_).trans (List.map_id text)
    simp only [Function.comp_apply, hnat c hc, Char.ofNat_toNat, id]
  fromUtf8_nul bytes := by
    intro hmem
    obtain ⟨b, hb, heq⟩ := List.mem_map.mp hmem
    have hne : b ≠ 0 := by simpa using List.mem_takeWhile_imp hb
    refine hne ?_
    rw [← UInt8.toNat_inj, ← State.toNat_ofNat_byte b, heq]
    rfl

lemma latinEnv_beyond (c : Char) (hge : 128 ≤ c.toNat) :
    ∀ b ∈ latinEnv.E [c], Perl.isBlank b = false := by
  intro b hb
  have hc : c ≠ Char.ofNat 0 := by
    rintro rfl
    simp at hge
  have hbyte : b = if c.toNat < 256 then UInt8.ofNat c.toNat else 63 := by
    simpa [latinEnv, hc] using hb
  rw [hbyte]
  split_ifs with hlt
  · simp [Perl.isBlank, ← UInt8.toNat_inj, UInt8.le_iff_toNat_le]
    omega
  · decide

/-- A connection between two operations. -/
def restingWorker (reads : List ReadData) : State :=
  { Session.initialWorker reads with childPid := true }

lemma restingWorker_atRest (reads : List ReadData) : (restingWorker reads).AtRest :=
  ⟨rfl, rfl, rfl, rfl, ⟨rfl, rfl, rfl, rfl, rfl⟩, Or.inl rfl⟩

/-- A server with nothing at the destination, where all goes well. -/
def willingHost : Host where
  localtime := fun _ => State.epoch
  place := .absent
  turn := fun _ => ⟨none, none, fun _ => ⟨32768, []⟩⟩
  chmod := none

namespace Upload

lemma willing_whole (i : ℕ) (chunks : List Bytes) : willingHost.Whole i chunks := by
  induction chunks generalizing i with
  | nil => trivial
  | cons c cs ih => exact ⟨fun k hk => Nat.min_le_left _ _, ih (i + 1)⟩

lemma willing_accepts (i p : ℕ) (chunks : List Bytes) : willingHost.Accepts i p chunks := by
  induction chunks generalizing i p with
  | nil => trivial
  | cons c cs ih =>
    exact ⟨⟨rfl, fun _ => rfl, fun k hk hshort => rfl⟩, ih (i + 1) (p + c.length)⟩

lemma willing_carries (reads : List ReadData) :
    Carries latinEnv willingHost "/a".toList (-1) true reads where
  name := by
    rw [Perl.remoteName_isSome_iff latinEnv_encodes]
    decide
  destination := by decide
  stor := ⟨rfl, fun _ => rfl, fun k hk hshort => rfl⟩
  chunks := willing_accepts 1 0 _
  permissions := fun _ => rfl

end Upload

end KioExtras.Fish
