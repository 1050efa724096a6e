import KioExtras.Sftp.Rename

/-!
Links on the server. A link that cannot be made is an error only where the flags are nothing but
`Overwrite`; there what is at the destination goes first.
-/

namespace KioExtras.Sftp.Symlink

open KioExtras.Kio KioExtras.Lib.Directories KioExtras.Lib.Links Connection Rename

/-- What `symlink` leaves, and the targets and paths of the links that it made. -/
structure LinkLeft extends Left where
  made : List (String × String)

def symlink (server : SftpServer) (w : Worker) (connect : Connect) (remote : Remote)
    (target : String) (dest : Url) (flags : Finset JobFlag) : LinkLeft :=
  match sftpLogin w connect with
  | (w, .fail error text) => ⟨⟨w, remote, .fail error text⟩, []⟩
  | (w, .pass) =>
    match server.sftp_symlink remote target dest.path with
    | .ok remote => ⟨⟨w, remote, .pass⟩, [(target, dest.path)]⟩
    | .error _ =>
      if flags = {.Overwrite} then
        match server.sftp_lstat remote dest.path with
        | .error err => ⟨reported w remote dest err, []⟩
        | .ok _ =>
          match server.sftp_unlink remote dest.path with
          | .error err => ⟨reported w remote dest err, []⟩
          | .ok remote =>
            match server.sftp_symlink remote target dest.path with
            | .error err => ⟨reported w remote dest err, []⟩
            | .ok remote => ⟨⟨w, remote, .pass⟩, [(target, dest.path)]⟩
      else ⟨⟨w, remote, .pass⟩, []⟩

/-- What making a link should do: it succeeds just if there is the link then, made by it, and after
an error all is at and below the destination as it was. -/
structure Makes (server : SftpServer) (before : Remote) (target : String) (dest : Url)
    (left : LinkLeft) : Prop where
  made : left.result.success = true ↔ (target, dest.path) ∈ left.made ∧
    ∃ p, server.at before dest.path = some p ∧
      left.remote.objects p = some (.file (.link target))
  kept : left.result.success = false → ∀ p, server.at before dest.path = some p →
    ∀ r, left.remote.objects (p ++ r) = before.objects (p ++ r)

section symlink

variable {server : SftpServer} {w : Worker} {connect : Connect} {remote cleared linked : Remote}
  {target : String} {dest : Url} {flags : Finset JobFlag} {left : LinkLeft}

lemma Makes.of_unchanged (hfail : left.result.success = false) (hmade : left.made = [])
    (hremote : left.remote = remote) : Makes server remote target dest left where
  made := by simp [hfail, hmade]
  kept _ _ _ _ := by rw [hremote]

lemma Makes.of_linked (w : Worker) (h : server.sftp_symlink remote target dest.path = .ok linked) :
    Makes server remote target dest ⟨⟨w, linked, .pass⟩, [(target, dest.path)]⟩ where
  made := by
    obtain ⟨p, hp, -, hlink⟩ := server.symlinked h
    refine iff_of_true rfl ⟨List.mem_singleton_self _, p, hp, ?_⟩
    rw [hlink, Function.update_self]
  kept hfail := nomatch hfail

lemma Makes.of_replaced (w : Worker) (hunlink : server.sftp_unlink remote dest.path = .ok cleared)
    (h : server.sftp_symlink cleared target dest.path = .ok linked) :
    Makes server remote target dest ⟨⟨w, linked, .pass⟩, [(target, dest.path)]⟩ where
  made := by
    obtain ⟨q, -, hremoved⟩ := server.unlinked hunlink
    obtain ⟨p, hp, -, hlink⟩ := server.symlinked h
    refine iff_of_true rfl ⟨List.mem_singleton_self _, p, at_removed hremoved hp, ?_⟩
    rw [hlink, Function.update_self]
  kept hfail := nomatch hfail

lemma not_makes_cleared (hunlink : server.sftp_unlink remote dest.path = .ok cleared)
    (hfail : left.result.success = false) (hremote : left.remote = cleared) :
    ¬ Makes server remote target dest left := by
  intro h
  obtain ⟨q, hq, hremoved⟩ := server.unlinked hunlink
  have hkept := h.kept hfail q hq []
  rw [List.append_nil, hremote, hremoved.objects, Function.update_self] at hkept
  exact hremoved.source hkept.symm

lemma not_makes_unmade (hpass : left.result.success = true) (hmade : left.made = []) :
    ¬ Makes server remote target dest left := by
  intro h
  have hmem := (h.made.mp hpass).1
  rw [hmade] at hmem
  exact nomatch hmem

/-- **When `symlink` does what it says.** The first attempt succeeds, or the flags are `Overwrite`
alone and nothing is removed that the link does not replace. -/
theorem makes_iff (server : SftpServer) (w : Worker) (connect : Connect) (remote : Remote)
    (target : String) (dest : Url) (flags : Finset JobFlag) :
    Makes server remote target dest (symlink server w connect remote target dest flags) ↔
      (sftpLogin w connect).2 ≠ .pass ∨
      (∃ linked, server.sftp_symlink remote target dest.path = .ok linked) ∨
      flags = {.Overwrite} ∧ ∀ isDir cleared, server.sftp_lstat remote dest.path = .ok isDir →
        server.sftp_unlink remote dest.path = .ok cleared →
        ∃ linked, server.sftp_symlink cleared target dest.path = .ok linked := by
  unfold symlink
  rcases sftpLogin w connect with ⟨w, _ | ⟨error, text⟩⟩
  swap
  · exact iff_of_true (Makes.of_unchanged rfl rfl rfl) (Or.inl nofun)
  rw [or_iff_right (by simp)]
  dsimp only
  cases hfirst : server.sftp_symlink remote target dest.path with
  | ok linked => exact iff_of_true (Makes.of_linked w hfirst) (Or.inl ⟨linked, rfl⟩)
  | error err =>
    rw [or_iff_right (by simp)]
    dsimp only
    by_cases hflags : flags = {.Overwrite}
    swap
    · rw [if_neg hflags]
      exact iff_of_false (not_makes_unmade rfl rfl) fun h => hflags h.1
    rw [if_pos hflags, and_iff_right hflags]
    cases hlstat : server.sftp_lstat remote dest.path with
    | error err => exact iff_of_true (Makes.of_unchanged rfl rfl rfl) nofun
    | ok isDir =>
      dsimp only
      cases hunlink : server.sftp_unlink remote dest.path with
      | error err => exact iff_of_true (Makes.of_unchanged rfl rfl rfl) nofun
      | ok cleared =>
        dsimp only
        cases hsecond : server.sftp_symlink cleared target dest.path with
        | error err =>
          refine iff_of_false (not_makes_cleared hunlink rfl rfl) fun h => ?_
          obtain ⟨linked, hlinked⟩ := h isDir cleared rfl rfl
          exact nomatch hsecond.symm.trans hlinked
        | ok linked =>
          refine iff_of_true (Makes.of_replaced w hunlink hsecond) ?_
          rintro - cleared' - hcleared
          rw [← Except.ok.inj hcleared]
          exact ⟨linked, hsecond⟩

end symlink

/-- There is a file where the link should be, and it may be overwritten. -/
theorem overwrite_among_others_unmade : ¬ ∀ (server : SftpServer) (w : Worker) (connect : Connect)
    (remote : Remote) (target : String) (dest : Url) (flags : Finset JobFlag),
    Makes server remote target dest (symlink server w connect remote target dest flags) := by
  intro h
  have hrefused : ∀ linked, posix.sftp_symlink oneFile "b" fileUrl.path ≠ .ok linked := by
    intro linked hlinked
    obtain ⟨p, hp, hnone, -⟩ := posix.symlinked hlinked
    obtain rfl : ["a"] = p := Option.some.inj (fileUrl_at.symm.trans hp)
    rw [oneFile_file] at hnone
    exact nomatch hnone
  have hmakes := h posix connectedWorker (.established "") oneFile "b" fileUrl
    {.Overwrite, .HideProgressInfo}
  have hlogin : sftpLogin connectedWorker (.established "") = (connectedWorker, .pass) := rfl
  simp only [symlink, hlogin] at hmakes
  cases hfirst : posix.sftp_symlink oneFile "b" fileUrl.path with
  | ok linked => exact hrefused linked hfirst
  | error err =>
    rw [hfirst] at hmakes
    exact not_makes_unmade rfl rfl hmakes

end KioExtras.Sftp.Symlink
