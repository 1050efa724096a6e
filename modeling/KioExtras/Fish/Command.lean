import Mathlib.Data.Nat.Notation
import Mathlib.Tactic.Common

/-!
The commands of the fish protocol and the text that is sent for them: `sendCommand`.

For a command two lines are sent. The first is a comment for a shell and a command for the perl
server, which skips the second; the second does the same work in a shell.
-/

namespace KioExtras.Fish

/-- A `QString`. -/
abbrev Text := List Char

abbrev Bytes := List UInt8

/-- `fish_command_type`. -/
inductive Command
  | FISH
  | VER
  | PWD
  | LIST
  | STAT
  | RETR
  | STOR
  | CWD
  | CHMOD
  | DELE
  | MKD
  | RMD
  | RENAME
  | LINK
  | SYMLINK
  | CHOWN
  | CHGRP
  | READ
  | WRITE
  | COPY
  | APPEND
  | EXEC
  deriving DecidableEq

/-- `lines` is the number of lines of a response that do not count as errors. -/
structure fish_info where
  command : String
  params : ℕ
  alt : String
  lines : ℕ

/-- The table of the commands; the check sum is that of the perl server. -/
def fishInfo (CHECKSUM : String) : Command → fish_info
  | .FISH => ⟨"FISH", 0,
    "echo; /bin/sh -c start_fish_server > /dev/null 2>/dev/null; perl .fishsrv.pl " ++
    CHECKSUM ++
    " 2>/dev/null; perl -e '$|=1; print \"### 100 transfer fish server\\n\"; while(<STDIN>)" ++
    " \x7b last if /^__END__/; $code.=$_; \x7d exit(eval($code));' 2>/dev/null;", 1⟩
  | .VER => ⟨"VER 0.0.3 copy append lscount lslinks lsmime exec stat", 0,
    "echo 'VER 0.0.3 copy append lscount lslinks lsmime exec stat'", 1⟩
  | .PWD => ⟨"PWD", 0, "pwd", 1⟩
  | .LIST => ⟨"LIST", 1,
    "echo `ls -Lla %1 2> /dev/null | grep '^[-dsplcb]' | wc -l`;echo '### 100';ls -Lla" ++
    " %1 2>/dev/null | grep '^[-dspl]' | ( while read -r p x u g s m d y n; do file -b" ++
    " -i $n 2>/dev/null | sed -e '\\,^[^/]*$,d;s/^/M/;s,/.*[ \t],/,'; FILE=%1; if [ -e" ++
    " %1\"/$n\" ]; then FILE=%1\"/$n\"; fi; if [ -L \"$FILE\" ]; then echo \":$n\"; ls" ++
    " -lad \"$FILE\" | sed -e 's/.* -> /L/'; else echo \":$n\" | sed -e 's/ -> /\\\nL/';" ++
    " fi; echo \"P$p $u.$g\nS$s\nd$m $d $y\n\"; done; );ls -Lla %1 2>/dev/null | grep" ++
    " '^[cb]' | ( while read -r p x u g a i m d y n; do echo \"P$p $u.$g\nE$a$i\nd$m $d" ++
    " $y\n:$n\n\"; done; )", 0⟩
  | .STAT => ⟨"STAT", 1,
    "echo `ls -dLla %1 2> /dev/null | grep '^[-dsplcb]' | wc -l`;echo '### 100';ls -dLla" ++
    " %1 2>/dev/null | grep '^[-dspl]' | ( while read -r p x u g s m d y n; do file -b" ++
    " -i $n 2>/dev/null | sed -e '\\,^[^/]*$,d;s/^/M/;s,/.*[ \t],/,'; FILE=%1; if [ -e" ++
    " %1\"/$n\" ]; then FILE=%1\"/$n\"; fi; if [ -L \"$FILE\" ]; then echo \":$n\"; ls" ++
    " -lad \"$FILE\" | sed -e 's/.* -> /L/'; else echo \":$n\" | sed -e 's/ -> /\\\nL/';" ++
    " fi; echo \"P$p $u.$g\nS$s\nd$m $d $y\n\"; done; );ls -dLla %1 2>/dev/null | grep" ++
    " '^[cb]' | ( while read -r p x u g a i m d y n; do echo \"P$p $u.$g\nE$a$i\nd$m $d" ++
    " $y\n:$n\n\"; done; )", 0⟩
  | .RETR => ⟨"RETR", 1,
    "ls -l %1 2>&1 | ( read -r a b c d x e; echo $x ) 2>&1; echo '### 001'; cat %1", 1⟩
  | .STOR => ⟨"STOR", 2,
    "> %2; echo '### 001'; ( [ \"`expr %1 / 4096`\" -gt 0 ] && dd bs=4096 count=`expr" ++
    " %1 / 4096` 2>/dev/null;[ \"`expr %1 % 4096`\" -gt 0 ] && dd bs=`expr %1 % 4096`" ++
    " count=1 2>/dev/null; ) | ( cat > %2 || echo Error $?; cat > /dev/null )", 0⟩
  | .CWD => ⟨"CWD", 1, "cd %1", 0⟩
  | .CHMOD => ⟨"CHMOD", 2, "chmod %1 %2", 0⟩
  | .DELE => ⟨"DELE", 1, "rm -f %1", 0⟩
  | .MKD => ⟨"MKD", 1, "mkdir %1", 0⟩
  | .RMD => ⟨"RMD", 1, "rmdir %1", 0⟩
  | .RENAME => ⟨"RENAME", 2, "mv -f %1 %2", 0⟩
  | .LINK => ⟨"LINK", 2, "ln -f %1 %2", 0⟩
  | .SYMLINK => ⟨"SYMLINK", 2, "ln -sf %1 %2", 0⟩
  | .CHOWN => ⟨"CHOWN", 2, "chown %1 %2", 0⟩
  | .CHGRP => ⟨"CHGRP", 2, "chgrp %1 %2", 0⟩
  | .READ => ⟨"READ", 3,
    "echo '### 100';cat %3 /dev/zero | ( [ \"`expr %1 / 4096`\" -gt 0 ] && dd bs=4096" ++
    " count=`expr %1 / 4096` >/dev/null;[ \"`expr %1 % 4096`\" -gt 0 ] && dd bs=`expr" ++
    " %1 % 4096` count=1 >/dev/null;dd bs=%2 count=1; ) 2>/dev/null;", 0⟩
  | .WRITE => ⟨"WRITE", 3,
    ">> %3; echo '### 001'; ( [ %2 -gt 0 ] && dd ibs=1 obs=%2 count=%2 2>/dev/null ) |" ++
    " ( dd ibs=32768 obs=%1 seek=1 of=%3 2>/dev/null || echo Error $?; cat >/dev/null;" ++
    " )", 0⟩
  | .COPY => ⟨"COPY", 2,
    "if [ -L %1 ]; then if cp -pdf %1 %2 2>/dev/null; then :; else LINK=\"`readlink %1`\";" ++
    " ln -sf $LINK %2; fi; else cp -pf %1 %2; fi", 0⟩
  | .APPEND => ⟨"APPEND", 2,
    ">> %2; echo '### 001'; ( [ %1 -gt 0 ] && dd ibs=1 obs=%1 count=%1 2> /dev/null; )" ++
    " | ( cat >> %2 || echo Error $?; cat >/dev/null; )", 0⟩
  | .EXEC => ⟨"EXEC", 2,
    "UMASK=`umask`; umask 077; touch %2; umask $UMASK; eval %1 < /dev/null > %2 2>&1;" ++
    " echo \"###RESULT: $?\" >> %2", 0⟩

/-- The characters that get a backslash. -/
def rx : List Char := "][\\\n $`#!()*?\x7b\x7d~&<>;'\"%^@|\t".toList

/-- The loop that inserts the backslashes: `done` is the text before `pos`, `rest` that from
there on. Behind a backslash it goes on after the character found. -/
def escapeLoop : Text → Text → Text
  | done, [] => done
  | done, c :: rest =>
    if c ∈ rx then escapeLoop (done ++ ['\\', c]) rest else escapeLoop (done ++ [c]) rest

def escape (arg : Text) : Text := escapeLoop [] arg

def escapeChar (c : Char) : Text := if c ∈ rx then ['\\', c] else [c]

lemma escapeLoop_eq (done arg : Text) : escapeLoop done arg = done ++ arg.flatMap escapeChar := by
  induction arg generalizing done with
  | nil => simp [escapeLoop]
  | cons c rest ih =>
    by_cases hc : c ∈ rx
    · simp only [escapeLoop, hc, if_true, ih, List.flatMap_cons, escapeChar, List.append_assoc]
    · simp only [escapeLoop, hc, if_false, ih, List.flatMap_cons, escapeChar, List.append_assoc]

theorem escape_eq (arg : Text) : escape arg = arg.flatMap escapeChar := by
  simp [escape, escapeLoop_eq]

/-- `replace` of a marker of two characters by a text: every place of it, from left to right. -/
def replaceMarker (c d : Char) (arg : Text) : Text → Text
  | [] => []
  | [x] => [x]
  | x :: y :: rest =>
    if x = c ∧ y = d then arg ++ replaceMarker c d arg rest
    else x :: replaceMarker c d arg (y :: rest)

def markerDigit (i : ℕ) : Char := Char.ofNat ('1'.toNat + i)

/-- The loop over the parameters, from the `i`-th on. -/
def insertArgs : ℕ → List Text → Text × Text → Text × Text
  | _, [], cmds => cmds
  | i, arg :: args, (realCmd, realAlt) =>
    insertArgs (i + 1) args
      (realCmd ++ [' '] ++ escape arg, replaceMarker '%' (markerDigit i) (escape arg) realAlt)

def commandText (info : fish_info) (args : List Text) : Text :=
  let (realCmd, realAlt) := insertArgs 0 (args.take info.params)
    (info.command.toList, info.alt.toList)
  let s := "#".toList ++ realCmd ++ "\n ".toList ++ realAlt ++ " 2>&1;echo '### 200'\n".toList
  if realCmd = "FISH".toList then ' ' :: s else s

end KioExtras.Fish
