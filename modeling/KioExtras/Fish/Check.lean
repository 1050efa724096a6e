import KioExtras.Fish.List
import KioExtras.Fish.Splits

/-!
The check of the destination before `RENAME`, `COPY` and `SYMLINK`: it asks for a listing, and the
command follows unless there is one.
-/

namespace KioExtras.Fish

open KioExtras.Kio KioExtras.Lib.Run Text

/-- The commands that have neither a listing nor data. -/
def Command.plain : Command → Bool
  | .LIST | .STOR | .WRITE | .APPEND | .RETR | .READ => false
  | _ => true

namespace State

/-- The members a check depends on are the same. -/
structure Keeps (s t : State) : Prop where
  fishCommand : t.fishCommand = s.fishCommand
  commandList : t.commandList = s.commandList
  listReason : t.listReason = s.listReason
  checkOverwrite : t.checkOverwrite = s.checkOverwrite
  rawRead : t.rawRead = s.rawRead

/-- A command without data leaves them, or it fails, and only `LIST` finds that something exists. -/
def Goes (s : State) : State × Next → Prop
  | (_, .fail result) =>
    result.success = false ∧ ((∃ detail, result = .fail .ERR_FILE_ALREADY_EXIST detail) →
      s.fishCommand = .LIST)
  | (t, _) => Keeps s t

variable (env : Env)

variable {s : State} {cmd : Command}

variable {t : State}

lemma Listing.keeps (h : Listing s t) : Keeps s t := by
  obtain ⟨_, _, _, _, _, _, _, _, rfl⟩ := h
  exact ⟨rfl, rfl, rfl, rfl, rfl⟩

lemma error_goes (s : State) {type : Error} (h : type ≠ .ERR_FILE_ALREADY_EXIST)
    (detail : String) : Goes s (s.error type detail) := by
  refine ⟨rfl, ?_⟩
  rintro ⟨_, heq⟩
  exact absurd (WorkerResult.fail.inj heq).1 h

lemma shutdown_goes (s : State) {type : Error} (h : type ≠ .ERR_FILE_ALREADY_EXIST)
    (detail : String) : Goes s (s.shutdownConnection.error type detail) := by
  refine ⟨rfl, ?_⟩
  rintro ⟨_, heq⟩
  exact absurd (WorkerResult.fail.inj heq).1 h

lemma respondLine_goes (h : s.fishCommand.plain = true ∨ s.fishCommand = .LIST) (line : Text) :
    Goes s (s.respondLine env line) := by
  unfold respondLine
  split
  · split_ifs
    · exact ⟨rfl, rfl, rfl, rfl, rfl⟩
    · exact shutdown_goes s (by decide) _
  · exact ⟨rfl, rfl, rfl, rfl, rfl⟩
  · exact (listLine_listing env s line).keeps
  · exact (listLine_listing env s line).keeps
  · rename_i hcmd
    rw [hcmd] at h
    simp [Command.plain] at h
  · exact ⟨rfl, rfl, rfl, rfl, rfl⟩

lemma respond100_goes (h : s.fishCommand.plain = true ∨ s.fishCommand = .LIST) :
    Goes s (s.respond100 env) := by
  unfold respond100
  split
  case h_1 => exact ⟨rfl, rfl, rfl, rfl, rfl⟩
  case h_7 => exact ⟨rfl, rfl, rfl, rfl, rfl⟩
  all_goals
    rename_i hcmd
    rw [hcmd] at h
    simp [Command.plain] at h

lemma respondError_goes (h : s.fishCommand.plain = true ∨ s.fishCommand = .LIST) (rc : ℤ)
    (line : Text) : Goes s (s.respondError env rc line) := by
  unfold respondError
  dsimp only
  split
  case h_10 =>
    split_ifs
    · exact error_goes s (by decide) _
    · exact ⟨rfl, rfl, rfl, rfl, rfl⟩
  case h_15 =>
    refine error_goes s ?_ _
    split_ifs <;> decide
  all_goals first
    | exact error_goes s (by decide) _
    | exact shutdown_goes s (by decide) _
    | exact error_goes { s with udsStatEntry := {} } (by decide) _
    | exact ⟨rfl, rfl, rfl, rfl, rfl⟩
    | (rename_i hcmd
       rw [hcmd] at h
       simp [Command.plain] at h)

lemma respondOk_goes (h : s.fishCommand.plain = true ∨ s.fishCommand = .LIST) :
    Goes s (s.respondOk env) := by
  have hstor : s.afterStor = s := by
    have hcmd : s.fishCommand ≠ .STOR := by
      intro hcmd
      rw [hcmd] at h
      simp [Command.plain] at h
    unfold afterStor
    rw [if_neg hcmd]
  unfold respondOk
  dsimp only
  rw [hstor]
  split
  case h_1 hcmd =>
    split_ifs
    · exact ⟨rfl, fun _ => hcmd⟩
    · exact ⟨rfl, rfl, rfl, rfl, rfl⟩
  case h_2 => exact ⟨rfl, rfl, rfl, rfl, rfl⟩
  case h_6 => exact ⟨rfl, rfl, rfl, rfl, rfl⟩
  all_goals
    rename_i hcmd
    rw [hcmd] at h
    simp [Command.plain] at h

lemma Goes.of {count : ℤ} {signals : List Signal} {x : State × Next}
    (h : Goes { s with errorCount := count, signals := signals } x) : Goes s x := by
  obtain ⟨t, next⟩ := x
  cases next with
  | go => exact ⟨h.1, h.2, h.3, h.4, h.5⟩
  | finished => exact ⟨h.1, h.2, h.3, h.4, h.5⟩
  | fail result => exact h

lemma manageLine_goes (h : s.fishCommand.plain = true ∨ s.fishCommand = .LIST) (line : Bytes) :
    ∃ x, Goes s x ∧ s.manageLine env line = conclude env x := by
  set u := s.emit (.line (env.decode line)) with hu
  have hgoes : Goes u (u.respond env (env.decode line)) := by
    unfold respond
    dsimp only
    split_ifs
    · exact (respondLine_goes env (s := { u with errorCount := _ }) h _).of
    · exact (respond100_goes env (s := { u with errorCount := _ }) h).of
    · exact (respondError_goes env (s := { u with errorCount := _ }) h _ _).of
    · exact (respondOk_goes env (s := { u with errorCount := _ }) h).of
  refine ⟨u.respond env (env.decode line), hgoes.of, ?_⟩
  rcases hx : u.respond env (env.decode line) with ⟨t, next⟩
  cases next <;> simp only [manageLine, manageConnection, conclude, ← hu, hx]

/-! ### The stages of a check -/

structure Ahead (cmd : Command) (text : Text) (s : State) : Prop where
  fishCommand : s.fishCommand.plain = true
  commandList : ∃ before check rest,
    s.commandList = before ++ (.LIST, check) :: (cmd, text) :: rest ∧
      (∀ c ∈ before, c.1.plain = true) ∧ ∀ c ∈ rest, c.1.plain = true

/-- The listing is awaited, and `cmd` is next. -/
structure Asked (cmd : Command) (text : Text) (s : State) : Prop where
  fishCommand : s.fishCommand = .LIST
  commandList : ∃ rest, s.commandList = (cmd, text) :: rest ∧ ∀ c ∈ rest, c.1.plain = true

/-- No listing follows. -/
structure Over (s : State) : Prop where
  fishCommand : s.fishCommand.plain = true
  commandList : ∀ c ∈ s.commandList, c.1.plain = true

structure Checks (cmd : Command) (text : Text) (s : State) : Prop where
  rawRead : s.rawRead ≤ 0
  listReason : s.listReason = .CHECK
  checkOverwrite : s.checkOverwrite = false
  stage : Ahead cmd text s ∨ Asked cmd text s ∨ Over s

lemma Keeps.checks {text : Text} (h : Keeps s t) (hs : Checks cmd text s) : Checks cmd text t := by
  obtain ⟨hfish, hlist, hreason, hover, hraw⟩ := h
  refine ⟨hraw ▸ hs.rawRead, hreason.trans hs.listReason, hover.trans hs.checkOverwrite, ?_⟩
  rcases hs.stage with ⟨h1, h2⟩ | ⟨h1, h2⟩ | ⟨h1, h2⟩
  · exact Or.inl ⟨hfish ▸ h1, hlist ▸ h2⟩
  · exact Or.inr (Or.inl ⟨hfish ▸ h1, hlist ▸ h2⟩)
  · exact Or.inr (Or.inr ⟨hfish ▸ h1, hlist ▸ h2⟩)

lemma Over.finished (h : Over s) : Over (s.finished env) := by
  obtain ⟨hfish, hlist⟩ := h
  unfold State.finished
  split
  · exact ⟨hfish, fun c hc => hlist c hc⟩
  · rename_i cmd text rest hcons
    rw [hcons] at hlist
    exact ⟨hlist (cmd, text) (by simp), fun c hc => hlist c (by simp [hc])⟩

lemma finished_rawRead (h : s.rawRead ≤ 0) : (s.finished env).rawRead ≤ 0 := by
  unfold State.finished
  split
  · exact h
  · exact le_rfl

lemma finished_reason (s : State) : (s.finished env).listReason = s.listReason ∧
    (s.finished env).checkOverwrite = s.checkOverwrite := by
  unfold State.finished
  split <;> exact ⟨rfl, rfl⟩

lemma Checks.finished (hcmd : cmd.plain = true) {text : Text} (h : Checks cmd text s) :
    Checks cmd text (s.finished env) := by
  obtain ⟨hreason, hover⟩ := finished_reason env s
  refine ⟨finished_rawRead env h.rawRead, hreason.trans h.listReason,
    hover.trans h.checkOverwrite, ?_⟩
  rcases h.stage with ⟨_, before, check, rest, hlist, hbefore, hrest⟩ |
    ⟨_, rest, hlist, hrest⟩ | hdone
  · unfold State.finished
    cases before with
    | nil =>
      rw [List.nil_append] at hlist
      rw [hlist]
      exact Or.inr (Or.inl ⟨rfl, rest, rfl, hrest⟩)
    | cons c before =>
      rw [List.cons_append] at hlist
      rw [hlist]
      exact Or.inl ⟨hbefore c (by simp), before, check, rest, rfl,
        fun d hd => hbefore d (by simp [hd]), hrest⟩
  · unfold State.finished
    rw [hlist]
    exact Or.inr (Or.inr ⟨hcmd, hrest⟩)
  · exact Or.inr (Or.inr (hdone.finished env))

variable {env} in
lemma Checks.plain {text : Text} (h : Checks cmd text s) :
    s.fishCommand.plain = true ∨ s.fishCommand = .LIST := by
  rcases h.stage with hahead | hasked | hover
  · exact Or.inl hahead.fishCommand
  · exact Or.inr hasked.fishCommand
  · exact Or.inl hover.fishCommand

lemma Checks.line (hcmd : cmd.plain = true) {text : Text} (h : Checks cmd text s) (line : Bytes) :
    ((s.manageLine env line).2 = .pass ∧ Checks cmd text (s.manageLine env line).1) ∨
      (s.manageLine env line).2.success = false := by
  obtain ⟨⟨t, next⟩, hgoes, hline⟩ := manageLine_goes env h.plain line
  rw [hline]
  cases next with
  | go => exact Or.inl ⟨rfl, Keeps.checks hgoes h⟩
  | finished => exact Or.inl ⟨rfl, (Keeps.checks hgoes h).finished env hcmd⟩
  | fail result => exact Or.inr hgoes.1

lemma Over.line (h : Over s) (hraw : s.rawRead ≤ 0) (line : Bytes) :
    ((s.manageLine env line).2 = .pass ∧ Over (s.manageLine env line).1 ∧
      (s.manageLine env line).1.rawRead ≤ 0) ∨
      ((s.manageLine env line).2.success = false ∧
        ∀ detail, (s.manageLine env line).2 ≠ .fail .ERR_FILE_ALREADY_EXIST detail) := by
  have hover : ∀ t : State, Keeps s t → Over t ∧ t.rawRead ≤ 0 := fun t ht =>
    ⟨⟨ht.fishCommand ▸ h.fishCommand, ht.commandList ▸ h.commandList⟩, ht.rawRead ▸ hraw⟩
  obtain ⟨⟨t, next⟩, hgoes, hline⟩ := manageLine_goes env (Or.inl h.fishCommand) line
  rw [hline]
  cases next with
  | go => exact Or.inl ⟨rfl, hover t hgoes⟩
  | finished =>
    obtain ⟨ht, htraw⟩ := hover t hgoes
    exact Or.inl ⟨rfl, ht.finished env, finished_rawRead env htraw⟩
  | fail result =>
    refine Or.inr ⟨hgoes.1, fun detail hresult => ?_⟩
    have hlist := hgoes.2 ⟨detail, hresult⟩
    have hplain := h.fishCommand
    rw [hlist] at hplain
    simp [Command.plain] at hplain

end State

namespace Reading

variable {env : Env}

lemma eatAll_keeps {P : State → Prop} {Q : WorkerResult → Prop} (hraw : ∀ s, P s → s.rawRead ≤ 0)
    (hline : ∀ s line, P s → ((s.manageLine env line).2 = .pass ∧ P (s.manageLine env line).1) ∨
      ((s.manageLine env line).2.success = false ∧ Q (s.manageLine env line).2))
    {r : Reading} (hr : P r.worker) (hf : r.failed = none) (bytes : Bytes) :
    ((r.eatAll env bytes).failed = none ∧ P (r.eatAll env bytes).worker) ∨
      ∃ result, (r.eatAll env bytes).failed = some result ∧ Q result := by
  induction bytes generalizing r with
  | nil => exact Or.inl ⟨hf, hr⟩
  | cons b bytes ih =>
    obtain ⟨s, buf, failed⟩ := r
    simp only at hf hr
    subst hf
    have hno : ¬ 0 < s.rawRead := Int.not_lt.mpr (hraw s hr)
    rw [eatAll_cons]
    by_cases hb : b = 10
    · rcases hx : s.manageLine env buf with ⟨t, result⟩
      have hstep := hline s buf hr
      rw [hx] at hstep
      rcases hstep with ⟨hpass, ht⟩ | ⟨hfail, hresult⟩
      · simp only at hpass
        subst hpass
        have heat : (⟨s, buf, none⟩ : Reading).eat env b = ⟨t, [], none⟩ := by
          simp only [eat, Option.isSome_none, Bool.false_eq_true, if_false, hno, hb, if_true, hx]
        rw [heat]
        exact ih ht rfl
      · cases result with
        | pass => simp at hfail
        | fail type detail =>
          have heat : (⟨s, buf, none⟩ : Reading).eat env b =
              ⟨t, [], some (.fail type detail)⟩ := by
            simp only [eat, Option.isSome_none, Bool.false_eq_true, if_false, hno, hb, if_true, hx]
          rw [heat, eatAll_failed env rfl bytes]
          exact Or.inr ⟨_, rfl, hresult⟩
    · have heat : (⟨s, buf, none⟩ : Reading).eat env b = ⟨s, buf ++ [b], none⟩ := by
        simp only [eat, Option.isSome_none, Bool.false_eq_true, if_false, hno, hb]
      rw [heat]
      exact ih hr rfl

end Reading

namespace Perl

/-- What stands at a destination. A file is what is no directory, also behind a link. -/
inductive Place
  | absent
  | dangling
  | file (entry : Entry)
  | directory (dir : Directory)

namespace Place

/-- What `LIST` comes upon. -/
def found : Place → Found
  | absent => .missing
  | dangling => .missing
  | file entry => .entries [entry]
  | directory dir => dir.found

/-- `LIST` tells whether there is something. -/
def Told : Place → Prop
  | dangling => False
  | directory dir => dir.closed = none ∧ dir.barred = none
  | _ => True

end Place

end Perl

namespace State

variable (env : Env)

lemma writeFirst_due (o : Out) : o.writeFirst.due = o.due := by
  unfold Out.writeFirst Out.writeChild
  split
  · rfl
  · split_ifs <;> rfl

variable {cmd : Command} {s : State}

lemma finished_due {text : Text} {rest : List (Command × Text)}
    (h : s.commandList = (cmd, text) :: rest) :
    (s.finished env).out.due = s.out.due ++ env.E text := by
  unfold finished
  rw [h]
  dsimp only [Out.writeStdin]
  split_ifs
  · exact writeFirst_due _
  · rfl

variable {env}

structure Sent (env : Env) (cmd : Command) (text : Text) (s t : State) : Prop where
  fishCommand : t.fishCommand = cmd
  due : t.out.due = s.out.due ++ env.E text

/-- The worker waits for the listing of the destination. -/
structure Awaits (cmd : Command) (text : Text) (s : State) : Prop where
  asked : Asked cmd text s
  rawRead : s.rawRead ≤ 0
  listReason : s.listReason = .CHECK
  checkOverwrite : s.checkOverwrite = false

lemma Listing.awaits {text : Text} {t : State} (h : Listing s t) (hs : Awaits cmd text s) :
    Awaits cmd text t ∧ t.out = s.out := by
  obtain ⟨_, _, _, _, _, _, _, _, rfl⟩ := h
  exact ⟨⟨⟨hs.asked.1, hs.asked.2⟩, hs.rawRead, hs.listReason, hs.checkOverwrite⟩, rfl⟩

lemma Awaits.refused (hcmd : cmd.plain = true) {text : Text} (h : Awaits cmd text s) {line : Bytes}
    {n : ℤ} (hline : 10 ∉ line) (hn : ErrorLine env line n) :
    ∃ t, (⟨s, [], none⟩ : Reading).eatAll env (unlines [line]) = ⟨t, [], none⟩ ∧ Over t ∧
      t.rawRead ≤ 0 ∧ Sent env cmd text s t := by
  obtain ⟨hlist, commands, hcommands, hplain⟩ := h.asked
  set u := s.emit (.line (env.decode line)) with hu
  set v := ({ u with checkExist := false } : State) with hv
  have herror : u.respondError env n (env.decode line) = (v, .finished) := by
    have hucmd : u.fishCommand = .LIST := hlist
    have hureason : ¬ u.listReason = .LIST := by
      have hcheck : u.listReason = .CHECK := h.listReason
      rw [hcheck]
      decide
    unfold respondError
    rw [hucmd]
    dsimp only
    rw [if_neg hureason, ← hucmd]
  have hmanage : s.manageLine env line = (v.finished env, .pass) := by
    rw [manageLine_error hn, ← hu, herror]
    rfl
  have hvlist : v.commandList = (cmd, text) :: commands := hcommands
  have hfinished : v.finished env = { v with
      fishCommand := cmd
      errorCount := -((fishInfo env.CHECKSUM cmd).lines : ℤ)
      rawRead := 0
      udsEntry := {}
      udsStatEntry := {}
      out := Out.writeStdin { v.out with rawWrite := -1 } (env.E text)
      commandList := commands } := by
    unfold finished
    rw [hvlist]
  refine ⟨v.finished env, ?_, ?_, ?_, ?_, finished_due env hvlist⟩
  · rw [Reading.unlines_cons, Reading.eatAll_pass h.rawRead hline hmanage]
    rfl
  · rw [hfinished]
    exact ⟨hcmd, hplain⟩
  · rw [hfinished]
  · rw [hfinished]

lemma Awaits.exists (h : DecodesAscii env) {text : Text} (hs : Awaits cmd text s)
    (hexist : s.checkExist = true) :
    ∃ t detail, (⟨s, [], none⟩ : Reading).eatAll env (unlines [ascii "### 200"]) =
      ⟨t, [], some (.fail .ERR_FILE_ALREADY_EXIST detail)⟩ ∧ t.fishCommand = .LIST ∧
      t.out = s.out := by
  set u := s.emit (.line (env.decode (ascii "### 200"))) with hu
  have hok : u.respondOk env =
      u.error .ERR_FILE_ALREADY_EXIST (env.toDisplayString u.url) := by
    have hucmd : u.fishCommand = .LIST := hs.asked.fishCommand
    have hexists : u.listReason = .CHECK ∧ u.checkOverwrite = false ∧ u.checkExist = true :=
      ⟨hs.listReason, hs.checkOverwrite, hexist⟩
    unfold respondOk
    dsimp only
    rw [afterStor_self hucmd (by decide), hucmd]
    dsimp only
    rw [if_pos hexists]
  have hmanage : s.manageLine env (ascii "### 200") =
      ((u.error .ERR_FILE_ALREADY_EXIST (env.toDisplayString u.url)).1,
        .fail .ERR_FILE_ALREADY_EXIST (env.toDisplayString u.url)) := by
    rw [manageLine_ok h, ← hu, hok]
    rfl
  refine ⟨(u.error .ERR_FILE_ALREADY_EXIST (env.toDisplayString u.url)).1,
    env.toDisplayString u.url, ?_, hs.asked.fishCommand, rfl⟩
  rw [Reading.unlines_cons, Reading.eatAll_fail hs.rawRead (by decide) hmanage]

lemma Awaits.head (h : DecodesAscii env) {text : Text} (hs : Awaits cmd text s) (n : ℕ) :
    ∃ t, Awaits cmd text t ∧ t.out = s.out ∧ ∀ rest,
      (⟨s, [], none⟩ : Reading).eatAll env
        (unlines [bytesOf (number 10 n), ascii "### 100"] ++ rest) =
      (⟨t, [], none⟩ : Reading).eatAll env rest := by
  obtain ⟨t, hhead, heat⟩ := eatAll_head h (Or.inl hs.asked.fishCommand) hs.rawRead n
  obtain ⟨ht, hout⟩ := hhead.listing.awaits hs
  exact ⟨t, ht, hout, heat⟩

lemma Awaits.entries (h : DecodesAscii env) {text : Text} (hs : Awaits cmd text s)
    (localtime : ℤ → DateTime) {entries : List Perl.Entry} (hne : entries ≠ []) :
    ∃ t, Awaits cmd text t ∧ t.out = s.out ∧ t.checkExist = true ∧ ∀ rest,
      (⟨s, [], none⟩ : Reading).eatAll env
        (unlines (entries.flatMap (Perl.entryLines localtime)) ++ rest) =
      (⟨t, [], none⟩ : Reading).eatAll env rest := by
  set lines := entries.flatMap (Perl.entryLines localtime) with hlines
  have hplain := Perl.lines_plain h localtime entries
  obtain ⟨ht, hout⟩ := (readLines_listing env s lines).awaits hs
  refine ⟨s.readLines env lines, ht, hout, ?_, fun rest =>
    Reading.eatAll_lines (Or.inl hs.asked.fishCommand) hs.rawRead hplain rest⟩
  obtain ⟨before, e, hlast⟩ := List.eq_nil_or_concat entries |>.resolve_left hne
  have hend : lines = before.flatMap (Perl.entryLines localtime) ++ Perl.bodyLines localtime e ++
      [[]] := by
    rw [hlines, hlast]
    simp [Perl.entryLines]
  set u := s.readLines env (before.flatMap (Perl.entryLines localtime) ++
    Perl.bodyLines localtime e) with hu
  obtain ⟨hu', _⟩ := (readLines_listing env s (before.flatMap (Perl.entryLines localtime) ++
    Perl.bodyLines localtime e)).awaits hs
  have hread : s.readLines env lines = u.readLine env [] := by
    rw [hend, readLines_append, ← hu]
    exact congrArg (u.readLine env) h.nil
  rw [hread]
  exact (readLine_end env u).2.2.2 hu'.asked.fishCommand hu'.listReason

theorem Awaits.answered (h : DecodesAscii env) {cmd : Command} (hcmd : cmd.plain = true)
    {text : Text} {s : State} (hs : Awaits cmd text s) (localtime : ℤ → DateTime)
    (place : Perl.Place) :
    ((place = .absent ∨ ¬ place.Told) ∧ ∃ t,
      (⟨s, [], none⟩ : Reading).eatAll env (unlines (Perl.listLines localtime place.found)) =
        ⟨t, [], none⟩ ∧ Over t ∧ t.rawRead ≤ 0 ∧ Sent env cmd text s t) ∨
    ((place ≠ .absent ∧ place.Told) ∧ ∃ t detail,
      (⟨s, [], none⟩ : Reading).eatAll env (unlines (Perl.listLines localtime place.found)) =
        ⟨t, [], some (.fail .ERR_FILE_ALREADY_EXIST detail)⟩ ∧ t.fishCommand = .LIST ∧
        t.out = s.out) := by
  have hentries : ∀ entries : List Perl.Entry, entries ≠ [] → ∃ t detail,
      (⟨s, [], none⟩ : Reading).eatAll env
        (unlines (Perl.listLines localtime (.entries entries))) =
          ⟨t, [], some (.fail .ERR_FILE_ALREADY_EXIST detail)⟩ ∧ t.fishCommand = .LIST ∧
        t.out = s.out := by
    intro entries hne
    obtain ⟨t, ht, hout, heat⟩ := hs.head h entries.length
    obtain ⟨u, hu, hout', hexist, heat'⟩ := ht.entries h localtime hne
    obtain ⟨v, detail, heat'', hlist, hout''⟩ := hu.exists h hexist
    refine ⟨v, detail, ?_, hlist, hout''.trans (hout'.trans hout)⟩
    rw [Perl.unlines_entries, heat, heat', heat'']
  cases place with
  | absent =>
    exact Or.inl ⟨Or.inl rfl, hs.refused hcmd (by decide) (errorLine_404 h)⟩
  | dangling =>
    exact Or.inl ⟨Or.inr id, hs.refused hcmd (by decide) (errorLine_404 h)⟩
  | file entry => exact Or.inr ⟨⟨by simp, trivial⟩, hentries [entry] (by simp)⟩
  | directory dir =>
    cases hclosed : dir.closed with
    | some error =>
      have hfound : (Perl.Place.directory dir).found = .closed error := by
        simp [Perl.Place.found, Perl.Directory.found, hclosed]
      rw [hfound]
      exact Or.inl ⟨Or.inr fun htold => by simp [Perl.Place.Told, hclosed] at htold,
        hs.refused hcmd (notMem_500 (dir.closed_plain error hclosed)) (errorLine_500 h error)⟩
    | none =>
      cases hbarred : dir.barred with
      | some error =>
        have hfound : (Perl.Place.directory dir).found = .barred dir.entries.length error := by
          simp [Perl.Place.found, Perl.Directory.found, hclosed, hbarred]
        obtain ⟨t, ht, hout, heat⟩ := hs.head h dir.entries.length
        obtain ⟨u, heat', hover, hraw, hsent⟩ := ht.refused hcmd
          (notMem_500 (dir.barred_plain error hbarred)) (errorLine_500 h error)
        rw [hfound, Perl.unlines_barred, heat]
        exact Or.inl ⟨Or.inr fun htold => by simp [Perl.Place.Told, hbarred] at htold, u, heat',
          hover, hraw, hsent.fishCommand, by rw [hsent.due, hout]⟩
      | none =>
        have hfound : (Perl.Place.directory dir).found = .entries dir.entries := by
          simp [Perl.Place.found, Perl.Directory.found, hclosed, hbarred]
        rw [hfound]
        exact Or.inr ⟨⟨by simp, hclosed, hbarred⟩, hentries dir.entries dir.entries_ne⟩

end State

/-- The command that an operation sends when its destination is not there. -/
def Op.checks : Op → Option Command
  | .rename _ _ false true => some .RENAME
  | .symlink _ _ false => some .SYMLINK
  | .copy _ _ _ false true => some .COPY
  | _ => none

/-! ### What is left between two operations -/

namespace State

variable (env : Env)

/-- A worker that does not run has at most the first commands of a connection left. -/
def IdlePlain (s : State) : Prop :=
  s.isRunning = false → ∀ c ∈ s.commandList, c.1.plain = true

lemma finished_idle (s : State) : IdlePlain (s.finished env) ∨ s.isRunning = false := by
  cases hrun : s.isRunning with
  | false => exact Or.inr rfl
  | true =>
    refine Or.inl fun h => ?_
    unfold finished at h ⊢
    cases hlist : s.commandList with
    | nil => exact fun c hc => absurd hc (by simp)
    | cons c rest =>
      rw [hlist] at h
      exact absurd (hrun.symm.trans h) (by decide)

lemma startRun_idle (s : State) : IdlePlain (s.startRun env).1 := by
  unfold startRun
  split_ifs with hrun
  · exact fun h => absurd (hrun.symm.trans h) (by decide)
  · rcases finished_idle env { s with isRunning := true } with h | h
    · exact h
    · exact absurd h (by simp)

variable {s : State}

lemma openConnection_plain (h : ∀ c ∈ s.commandList, c.1.plain = true) (login : WorkerResult) :
    ∀ c ∈ (s.openConnection env login).1.commandList, c.1.plain = true := by
  unfold openConnection
  dsimp only
  split_ifs
  · exact h
  · intro c hc
    simp only [sendCommand, List.append_assoc, List.mem_append, List.mem_cons, List.not_mem_nil,
      or_false] at hc
    rcases hc with hc | rfl | rfl
    · exact h c hc
    · rfl
    · rfl
  · exact fun c hc => absurd hc (by simp [shutdownConnection])

lemma openConnection_idle (h : IdlePlain s) (login : WorkerResult) :
    IdlePlain (s.openConnection env login).1 := by
  cases hrun : s.isRunning with
  | false => exact fun _ => openConnection_plain env (h hrun) login
  | true =>
    unfold openConnection
    dsimp only
    split_ifs
    · exact h
    · exact fun h' => absurd (hrun.symm.trans h') (by decide)
    · exact fun _ c hc => absurd hc (by simp [shutdownConnection])

lemma call_idle (h : IdlePlain s) (op : Op) (login : WorkerResult) :
    IdlePlain (s.call env op login).1 := by
  unfold call
  cases hop : op.otherHost with
  | some src => exact fun _ c hc => absurd hc (by simp [error])
  | none =>
    have hopen := openConnection_idle env (s := { s with url := op.path }) h login
    rcases hx : openConnection env login { s with url := op.path } with ⟨t, result⟩
    rw [hx] at hopen
    dsimp only at hopen ⊢
    by_cases hresult : result.success = false
    · rw [if_pos hresult]
      exact hopen
    · rw [if_neg hresult]
      cases op with
      | exec command path => exact startRun_idle env _
      | chmod path permissions =>
        dsimp only
        split_ifs
        · exact startRun_idle env _
        · exact hopen
        · exact startRun_idle env _
      | _ =>
        dsimp only
        split_ifs
        · exact startRun_idle env _
        · exact startRun_idle env _

variable {t : State} {cmd : Command} {op : Op}

lemma startRun_none (h : s.startRun env = (t, none)) :
    s.isRunning = false ∧ t = ({ s with isRunning := true } : State).finished env := by
  unfold startRun at h
  split_ifs at h with hrun
  · simp at h
  · exact ⟨by simpa using hrun, (Prod.mk.inj h).1.symm⟩

lemma Over.start (hne : s.commandList ≠ []) (h : ∀ c ∈ s.commandList, c.1.plain = true) :
    Over (s.finished env) ∧ (s.finished env).rawRead ≤ 0 := by
  unfold State.finished
  cases hlist : s.commandList with
  | nil => exact absurd hlist hne
  | cons c rest =>
    rw [hlist] at h
    exact ⟨⟨h c (by simp), fun d hd => h d (by simp [hd])⟩, le_rfl⟩

lemma Checks.start {text check : Text} {before rest : List (Command × Text)}
    (hlist : s.commandList = before ++ (.LIST, check) :: (cmd, text) :: rest)
    (hbefore : ∀ c ∈ before, c.1.plain = true) (hrest : ∀ c ∈ rest, c.1.plain = true)
    (hreason : s.listReason = .CHECK) (hover : s.checkOverwrite = false) :
    Checks cmd text (s.finished env) := by
  unfold State.finished
  cases before with
  | nil =>
    rw [List.nil_append] at hlist
    rw [hlist]
    exact ⟨le_rfl, hreason, hover, Or.inr (Or.inl ⟨rfl, rest, rfl, hrest⟩)⟩
  | cons c before =>
    rw [List.cons_append] at hlist
    rw [hlist]
    exact ⟨le_rfl, hreason, hover, Or.inl ⟨hbefore c (by simp), before, check, rest, rfl,
      fun d hd => hbefore d (by simp [hd]), hrest⟩⟩

lemma sendCommand_list (s : State) (cmd : Command) (args : List Bytes) :
    ∃ text, (s.sendCommand env cmd args).commandList = s.commandList ++ [(cmd, text)] := ⟨_, rfl⟩

lemma checked_commands (s : State) (cmd : Command) (args : List Bytes) :
    ∃ check text, ((s.checkDestination env false).sendCommand env cmd args).commandList =
      s.commandList ++ (.LIST, check) :: [(cmd, text)] := by
  have hcheck : s.checkDestination env false =
      ({ s with listReason := .CHECK, checkOverwrite := false } : State).sendCommand env .LIST
        [env.E s.url] := if_pos rfl
  rw [hcheck]
  exact ⟨_, _, List.append_assoc _ _ _⟩

lemma enqueue_checks (hop : op.checks = some cmd) (s : State) :
    ∃ check text rest,
      (s.enqueue env op).commandList = s.commandList ++ (.LIST, check) :: (cmd, text) :: rest ∧
      (∀ c ∈ rest, c.1.plain = true) ∧ (s.enqueue env op).listReason = .CHECK ∧
      (s.enqueue env op).checkOverwrite = false := by
  unfold Op.checks at hop
  split at hop
  · obtain rfl := Option.some.inj hop
    obtain ⟨check, text, hlist⟩ := checked_commands env s .RENAME _
    exact ⟨check, text, [], hlist, by simp, rfl, rfl⟩
  · obtain rfl := Option.some.inj hop
    obtain ⟨check, text, hlist⟩ := checked_commands env s .SYMLINK _
    exact ⟨check, text, [], hlist, by simp, rfl, rfl⟩
  · rename_i src path permissions
    obtain rfl := Option.some.inj hop
    obtain ⟨check, text, hlist⟩ := checked_commands env s .COPY
      [env.E (env.normalized src), env.E s.url]
    unfold enqueue setPermissions
    dsimp only
    split_ifs
    · obtain ⟨mode, hmode⟩ := sendCommand_list env ((s.checkDestination env false).sendCommand env
        .COPY [env.E (env.normalized src), env.E s.url]) .CHMOD
        [env.E (number 8 permissions.toNat), env.E s.url]
      refine ⟨check, text, [(.CHMOD, mode)], ?_, by simp [Command.plain], rfl, rfl⟩
      rw [hlist, List.append_assoc] at hmode
      exact hmode
    · exact ⟨check, text, [], hlist, by simp, rfl, rfl⟩
  · simp at hop

lemma call_checks (h : IdlePlain s) (hop : op.checks = some cmd) {login : WorkerResult}
    (hcall : s.call env op login = (t, none)) :
    (∃ text, Checks cmd text t) ∨ (Over t ∧ t.rawRead ≤ 0) := by
  have hhost : op.otherHost = none := by
    unfold Op.checks at hop
    split at hop <;> first | rfl | simp at hop
  have hopen := openConnection_idle env (s := { s with url := op.path }) h login
  unfold call at hcall
  rw [hhost] at hcall
  rcases hx : openConnection env login { s with url := op.path } with ⟨u, result⟩
  rw [hx] at hcall hopen
  dsimp only at hcall hopen
  by_cases hresult : result.success = false
  · rw [if_pos hresult] at hcall
    simp at hcall
  · rw [if_neg hresult] at hcall
    have hpwd : ∀ url, (({ u with url := url } : State).sendCommand env .PWD []).startRun env =
        (t, none) → Over t ∧ t.rawRead ≤ 0 := by
      intro url hstart
      obtain ⟨hidle, rfl⟩ := startRun_none env hstart
      have hplain := hopen hidle
      refine Over.start env (by simp [sendCommand]) ?_
      intro c hc
      simp only [sendCommand, List.mem_append, List.mem_cons, List.not_mem_nil, or_false] at hc
      rcases hc with hc | rfl
      · exact hplain c hc
      · rfl
    have henqueue : ∀ url, (({ u with url := url } : State).enqueue env op).startRun env =
        (t, none) → ∃ text, Checks cmd text t := by
      intro url hstart
      obtain ⟨hidle, rfl⟩ := startRun_none env hstart
      obtain ⟨⟨_, hrun, _⟩, _⟩ := enqueue_queues env { u with url := url } op
      have hplain := hopen (hrun.symm.trans hidle)
      obtain ⟨check, text, rest, hcommands, hrest, hreason, hover⟩ :=
        enqueue_checks env hop { u with url := url }
      exact ⟨text, Checks.start env
        (s := { ({ u with url := url } : State).enqueue env op with isRunning := true })
        hcommands hplain hrest hreason hover⟩
    unfold Op.checks at hop
    split at hop
    · dsimp only at hcall
      split_ifs at hcall
      · exact Or.inr (hpwd _ hcall)
      · exact Or.inl (henqueue _ hcall)
    · dsimp only at hcall
      split_ifs at hcall
      · exact Or.inr (hpwd _ hcall)
      · exact Or.inl (henqueue _ hcall)
    · dsimp only at hcall
      split_ifs at hcall
      · exact Or.inr (hpwd _ hcall)
      · exact Or.inl (henqueue _ hcall)
    · simp at hop

end State

namespace State

variable (env : Env)

/-- The end of a command puts up one command at most. -/
def Grows (s : State) : State × Next → Prop
  | (t, .finished) => ∃ more, t.commandList = s.commandList ++ more ∧ more.length ≤ 1
  | _ => True

variable {s : State}

variable {t : State}

lemma Grows.same (h : t.commandList = s.commandList) : Grows s (t, .finished) :=
  ⟨[], by simp [h], by simp⟩

lemma chmodNew_grows (s : State) :
    ∃ more, (s.chmodNew env).commandList = s.commandList ++ more ∧ more.length ≤ 1 := by
  unfold chmodNew
  split_ifs
  · exact ⟨_, rfl, by simp⟩
  · exact ⟨[], by simp, by simp⟩

lemma nextAppend_grows (s : State) : Grows s (s.nextAppend env, .finished) := by
  obtain ⟨_, _, _, _, hlist, _, _⟩ := readData_sends s
  unfold Grows nextAppend
  dsimp only
  split_ifs
  · exact ⟨_, by rw [← hlist]; rfl, by simp⟩
  · rw [← hlist]
    exact chmodNew_grows env s.readData.2

lemma nextWrite_grows (s : State) : Grows s (s.nextWrite env, .finished) := by
  obtain ⟨_, _, _, _, hlist, _, _⟩ := readData_sends s
  unfold Grows nextWrite
  dsimp only
  split_ifs
  · exact ⟨_, by rw [← hlist]; rfl, by simp⟩
  · rw [← hlist]
    exact chmodNew_grows env s.readData.2

lemma respondOk_grows (s : State) : Grows s (s.respondOk env) := by
  have hstor : s.afterStor.commandList = s.commandList := by
    rw [afterStor_eq]
  unfold respondOk
  dsimp only
  split
  · split_ifs
    · trivial
    · exact Grows.same hstor
  · exact Grows.same hstor
  · have h := nextAppend_grows env s.afterStor
    unfold Grows at h ⊢
    rwa [hstor] at h
  · have h := nextWrite_grows env s.afterStor
    unfold Grows at h ⊢
    rwa [hstor] at h
  · exact Grows.same hstor
  · exact Grows.same hstor

lemma respond_grows (s : State) (line : Text) : Grows s (s.respond env line) := by
  unfold respond
  dsimp only
  split_ifs
  · unfold respondLine
    split
    · split_ifs <;> trivial
    · trivial
    · trivial
    · trivial
    · split_ifs
      · trivial
      · split <;> trivial
    · trivial
  · unfold respond100
    split
    · trivial
    · unfold beginRead
      dsimp only
      split_ifs <;> trivial
    · unfold beginRead
      dsimp only
      split_ifs <;> trivial
    all_goals trivial
  · unfold respondError
    dsimp only
    split
    case h_5 =>
      split_ifs
      · exact Grows.same rfl
      · trivial
    case h_10 =>
      split_ifs
      · trivial
      · exact Grows.same rfl
    all_goals trivial
  · exact respondOk_grows env { s with errorCount := _ }

/-- A worker that does not run in the loop has nothing left. -/
def IdleEmpty (s : State) : Prop := s.isRunning = false → s.commandList = []

variable {env}

lemma IdleEmpty.plain (h : IdleEmpty s) : IdlePlain s := by
  intro hrun c hc
  rw [h hrun] at hc
  simp at hc

lemma SameSending.idle (h : SameSending s t) (hs : IdleEmpty s) : IdleEmpty t :=
  fun hrun => h.commandList.trans (hs (h.isRunning ▸ hrun))

lemma IdleEmpty.finished (hs : IdleEmpty s) (hrun : t.isRunning = s.isRunning)
    (hgrows : Grows s (t, .finished)) : IdleEmpty (t.finished env) := by
  obtain ⟨more, hlist, hone⟩ := hgrows
  unfold State.finished
  cases ht : t.commandList with
  | nil => exact fun _ => rfl
  | cons c rest =>
    intro hidle
    have hnil := hs (hrun.symm.trans hidle)
    rw [hnil, List.nil_append] at hlist
    rw [← hlist, ht] at hone
    simpa using hone

lemma IdleEmpty.line (h : IdleEmpty s) (line : Bytes) : IdleEmpty (s.manageLine env line).1 := by
  have hgrows : Grows s ((s.emit (.line (env.decode line))).respond env (env.decode line)) :=
    respond_grows env (s.emit (.line (env.decode line))) (env.decode line)
  have hsends : Sends env s (handleResponse s.errorCount (env.decode line)).1
      ((s.emit (.line (env.decode line))).respond env (env.decode line)) :=
    (respond_sends env (s.emit (.line (env.decode line))) (env.decode line)).of
  unfold manageLine manageConnection
  rcases hx : (s.emit (.line (env.decode line))).respond env (env.decode line) with ⟨t, next⟩
  rw [hx] at hgrows hsends
  cases hsends with
  | fail _ hfailed => exact fun _ => hfailed.commandList
  | go hsame => exact hsame.idle h
  | finished _ hsame _ => exact h.finished hsame.isRunning hgrows
  | code _ _ hsame => exact hsame.idle h
  | body _ _ hsame => exact hsame.idle h
  | chunk _ _ _ _ _ hrun _ => exact h.finished hrun hgrows

end State

namespace Reading

variable {env : Env}

variable {r : Reading}

lemma eat_idle (h : r.worker.IdleEmpty) (b : UInt8) : (r.eat env b).worker.IdleEmpty := by
  obtain ⟨s, buf, failed⟩ := r
  unfold eat
  dsimp only
  split_ifs
  · exact h
  · exact h
  · unfold State.sendMime
    dsimp only
    split_ifs <;> exact h
  · exact h
  · have hline : (s.manageLine env buf).1.IdleEmpty := State.IdleEmpty.line h buf
    rcases hx : s.manageLine env buf with ⟨t, result⟩
    rw [hx] at hline
    cases result <;> exact hline
  · exact h

lemma eatAll_idle (h : r.worker.IdleEmpty) (bytes : Bytes) :
    (r.eatAll env bytes).worker.IdleEmpty := by
  induction bytes generalizing r with
  | nil => exact h
  | cons b bytes ih => exact ih (eat_idle h b)

end Reading

namespace Session

variable {env : Env} {connectionHost : String}

variable {σ : Session}

/-- **What is left between two operations is plain.** -/
theorem step_idle {τ : Session} (hs : Sound σ) (h : σ.worker.IdlePlain) {l : Label}
    (hl : σ.step env connectionHost l = some τ) : τ.worker.IdlePlain := by
  have hgoOn : ∀ (υ : Session) (s : State) (buf : Bytes), s.IdlePlain →
      (υ.goOn s buf).worker.IdlePlain := by
    intro υ s buf hidle
    unfold goOn
    split_ifs <;> exact hidle
  have hend : ∀ (killed : Bool) (s : State) (buf : Bytes), s.IdlePlain →
      (σ.endTurn killed s buf).worker.IdlePlain := by
    intro killed s buf hidle
    unfold endTurn
    split_ifs
    · exact hidle
    · exact hgoOn σ s buf hidle
  cases l with
  | call op login =>
    simp only [Session.step] at hl
    split_ifs at hl with hin
    have hcall := State.call_idle env h op login
    rcases hx : σ.worker.call env op login with ⟨t, result⟩
    rw [hx] at hl hcall
    cases result with
    | some result =>
      obtain rfl := Option.some.inj hl
      exact hcall
    | none =>
      obtain rfl := Option.some.inj hl
      exact hgoOn σ t [] hcall
  | turn io killed =>
    simp only [Session.step] at hl
    split_ifs at hl with hin
    obtain ⟨hrun, hclean⟩ := hs.inside hin
    have hempty : σ.worker.IdleEmpty := fun hidle => absurd (hrun.symm.trans hidle) (by decide)
    cases io with
    | none =>
      obtain rfl := Option.some.inj hl
      exact hend killed σ.worker σ.buf h
    | write n =>
      simp only [turn] at hl
      split_ifs at hl
      obtain rfl := Option.some.inj hl
      obtain ⟨_, out, hout⟩ := State.writeSome_sound hs.worker hrun n
      refine hend killed _ σ.buf ?_
      rw [hout]
      exact h
    | read chunk =>
      have hread : (Reading.read env connectionHost ⟨σ.worker, σ.buf, none⟩
          chunk).worker.IdlePlain := by
        rcases read_eatAll env connectionHost hclean rfl chunk with ⟨_, heq⟩ | ⟨_, hsame⟩
        · rw [heq]
          exact fun _ c hc => absurd hc (by simp [State.shutdownConnection])
        · rw [hsame.worker]
          exact (Reading.eatAll_idle hempty chunk).plain
      simp only [turn] at hl
      split at hl
      · obtain rfl := Option.some.inj hl
        exact hread
      · obtain rfl := Option.some.inj hl
        exact hend killed _ _ hread
    | broken =>
      obtain rfl := Option.some.inj hl
      exact fun _ c hc => absurd hc (by simp [leave, State.shutdownConnection])

theorem reaches_idle {toRead : List ReadData}
    (h : Reaches (step env connectionHost) (initial toRead) σ) : σ.worker.IdlePlain := by
  have hboth : Sound σ ∧ σ.worker.IdlePlain :=
    Reaches.inv (I := fun σ => Sound σ ∧ σ.worker.IdlePlain)
      (fun _ _ _ hs hl => ⟨hs.1.step hl, step_idle hs.1 hs.2 hl⟩)
      ⟨initial_sound toRead, fun _ _ hc => (List.not_mem_nil hc).elim⟩ h
  exact hboth.2

/-- What is asked of an operation that must not overwrite, with the worker `r` when the check is
awaited and `r'` when it has been answered: its command is sent if and only if there is nothing,
and it fails with `ERR_FILE_ALREADY_EXIST` if there is something, and only then. -/
structure Lawful (env : Env) (cmd : Command) (place : Perl.Place) (σ τ : Session)
    (r r' : Reading) : Prop where
  sent : (∃ text rest, r.worker.commandList = (cmd, text) :: rest ∧
    State.Sent env cmd text r.worker r'.worker) ↔ place = .absent
  refused : place ≠ .absent →
    ∃ detail, τ.returned = σ.returned ++ [.fail .ERR_FILE_ALREADY_EXIST detail]
  accepted : place = .absent →
    ∀ detail, τ.returned ≠ σ.returned ++ [.fail .ERR_FILE_ALREADY_EXIST detail]

def renameOp : Op := .rename "/a".toList "/b".toList false true

/-- The answers to `FISH` and `VER`. -/
def greeting : Bytes :=
  unlines [ascii "### 200", ascii "VER 0.0.3 copy lscount lslinks lsmime exec stat",
    ascii "### 200"]

/-- The answer to `LIST` where `-e` finds nothing. -/
def notFound : Bytes := unlines [ascii "### 404 File does not exist"]

lemma rename_asked : ∃ υ τ : Session,
    (initial []).step asciiEnv "host" (.call renameOp .pass) = some υ ∧ υ.inside = true ∧
    υ.buf = [] ∧
    run (step asciiEnv "host") υ [.turn (.read (greeting ++ notFound)) false] = some τ ∧
    τ.returned = [] ∧
    ((⟨υ.worker, υ.buf, none⟩ : Reading).eatAll asciiEnv greeting).failed = none ∧
    ((⟨υ.worker, υ.buf, none⟩ : Reading).eatAll asciiEnv greeting).buf = [] ∧
    ((⟨υ.worker, υ.buf, none⟩ : Reading).eatAll asciiEnv greeting).worker.fishCommand = .LIST := by
  have hsome : (((initial []).step asciiEnv "host" (.call renameOp .pass)).any fun υ =>
      υ.inside && υ.buf.isEmpty &&
      ((run (step asciiEnv "host") υ [.turn (.read (greeting ++ notFound)) false]).any fun τ =>
        τ.returned.isEmpty) &&
      ((⟨υ.worker, υ.buf, none⟩ : Reading).eatAll asciiEnv greeting).failed.isNone &&
      ((⟨υ.worker, υ.buf, none⟩ : Reading).eatAll asciiEnv greeting).buf.isEmpty &&
      decide (((⟨υ.worker, υ.buf, none⟩ : Reading).eatAll asciiEnv greeting).worker.fishCommand =
        .LIST)) = true := by
    decide +kernel
  obtain ⟨υ, hυ, hfound⟩ := (Option.any_eq_true _ _).mp hsome
  simp only [Bool.and_eq_true, List.isEmpty_iff, Option.isNone_iff_eq_none,
    decide_eq_true_eq] at hfound
  obtain ⟨⟨⟨⟨⟨hin, hbuf⟩, hrun⟩, hf⟩, hrbuf⟩, hlist⟩ := hfound
  obtain ⟨τ, hτ, hreturned⟩ := (Option.any_eq_true _ _).mp hrun
  exact ⟨υ, τ, hυ, hin, hbuf, hτ, List.isEmpty_iff.mp hreturned, hf, hrbuf, hlist⟩

lemma rename_short {υ : Session} (hbuf : υ.buf = []) :
    Reading.ShortLines asciiEnv ⟨υ.worker, υ.buf, none⟩ (greeting ++ notFound) := by
  have hlen : (greeting ++ notFound).length ≤ 200 := by decide +kernel
  refine Reading.shortLines_of_length ?_
  simp only [hbuf, List.length_nil, BUFSIZE]
  omega

end Session

end KioExtras.Fish
