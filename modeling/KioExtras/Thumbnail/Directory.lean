import KioExtras.Lib.Pages
import Mathlib.Algebra.GroupWithZero.Nat
import Mathlib.Algebra.Order.Ring.Unbundled.Rat
import Mathlib.Data.Rat.Defs

/-!
The preview of a folder, `thumbForDirectory`: four of its files on a page, and another page for
each index of a sequence.

The files are gone through once to skip those of the pages before. If there are not that many, the
number of pages is known then and they are gone through again, for the page that the index comes to
when the sequence is repeated. Both times together no more than 500 files are looked at.
-/

namespace KioExtras.Thumbnail.Directory

open KioExtras.Lib.Pages

structure File where
  filePath : String
  isSymbolicLink : Bool
  size : ℕ
  deriving DecidableEq

/-- The folder icon in physical pixels, the configuration, and for which files the plugins make a
thumbnail. -/
structure Env where
  folderWidth : ℤ
  folderHeight : ℤ
  devicePixelRatio : ℚ
  maxFileSize : ℕ
  createSubThumbnail : File → Bool
  propagationDirectories : List String

def tiles : ℤ := 2
def visibleCount : ℕ := 4

namespace Env

variable (env : Env)

def spacing : ℤ := env.devicePixelRatio.num.tdiv env.devicePixelRatio.den
def topMargin : ℤ := (env.folderHeight * 30).tdiv 100
def bottomMargin : ℤ := env.folderHeight.tdiv 6
def leftMargin : ℤ := env.folderWidth.tdiv 13
def rightMargin : ℤ := env.leftMargin

def segmentWidth : ℤ :=
  (env.folderWidth - env.leftMargin - env.rightMargin + env.spacing).tdiv tiles - env.spacing

def segmentHeight : ℤ :=
  (env.folderHeight - env.topMargin - env.bottomMargin + env.spacing).tdiv tiles - env.spacing

def tooSmall : Bool :=
  env.segmentWidth < 5 * env.devicePixelRatio || env.segmentHeight < 5 * env.devicePixelRatio

/-- A thumbnail can be made: of no link, of no empty file and of none that is too large. -/
def usable (file : File) : Bool :=
  !file.isSymbolicLink && file.size != 0 && decide (file.size ≤ env.maxFileSize) &&
    env.createSubThumbnail file

end Env

structure Tile where
  file : File
  xPos : ℤ
  yPos : ℤ
  deriving DecidableEq

/-- The variables of the loops; `validThumbnails` is the number of the tiles. -/
structure Drawing where
  iterations : ℕ
  skipValidItems : ℤ
  skipped : ℤ
  xPos : ℤ
  yPos : ℤ
  tiles : List Tile
  deriving DecidableEq

namespace Drawing

def validThumbnails (d : Drawing) : ℕ := d.tiles.length

def look (d : Drawing) : Drawing := { d with iterations := d.iterations + 1 }

/-- Too many have been looked at. -/
def giveUp (d : Drawing) : Drawing := { d with skipValidItems := 0, skipped := 0 }

def skip (d : Drawing) : Drawing := { d with skipped := d.skipped + 1 }

def draw (d : Drawing) (file : File) : Drawing :=
  { d with tiles := d.tiles ++ [⟨file, d.xPos, d.yPos⟩] }

/-- To the place of the next tile. -/
def advance (env : Env) (d : Drawing) : Drawing :=
  let xPos := d.xPos + (env.segmentWidth + env.spacing)
  if env.folderWidth - env.rightMargin - env.segmentWidth < xPos then
    { d with xPos := env.leftMargin, yPos := d.yPos + (env.segmentHeight + env.spacing) }
  else { d with xPos := xPos }

end Drawing

/-- The inner loop, and what is left of the listing. -/
def visit (env : Env) : Drawing → List File → Drawing × List File
  | d, [] => (d, [])
  | d, file :: rest =>
    let d := d.look
    if 500 < d.iterations then (d.giveUp, file :: rest)
    else if env.usable file = false then visit env d rest
    else if d.skipped < d.skipValidItems then visit env d.skip rest
    else
      let d := d.draw file
      if visibleCount ≤ d.validThumbnails then (d, rest) else visit env (d.advance env) rest

/-- The outer loop, some rounds of it at most; it gives `totalValidThumbs` as well. -/
def rounds (env : Env) (sequenceIndex : ℤ) (files : List File) :
    ℕ → Drawing → ℤ → Option (Drawing × ℤ)
  | 0, _, _ => none
  | fuel + 1, d, totalValidThumbs =>
    let (d, rest) := visit env { d with skipped := 0 } files
    let totalValidThumbs :=
      if rest = [] ∧ totalValidThumbs < 0 then d.skipped + d.validThumbnails else totalValidThumbs
    if 0 < d.validThumbnails then some (d, totalValidThumbs)
    else if d.skipped = 0 then some (d, totalValidThumbs)
    else
      let skippedPages := (d.skipped + visibleCount - 1).tdiv visibleCount
      rounds env sequenceIndex files fuel
        { d with skipValidItems := sequenceIndex.tmod skippedPages * visibleCount }
        totalValidThumbs

/-- The image, unless it is null, the metadata, and the sub-directory that is shown instead. -/
structure Preview where
  image : Option (List Tile)
  sequenceIndexWraparoundPoint : Option ℤ
  handlesSequences : Bool
  propagated : Option String
  deriving DecidableEq

def start (env : Env) (sequenceIndex : ℤ) : Drawing where
  iterations := 0
  skipValidItems := (sequenceIndex * visibleCount).bmod (2 ^ 32)
  skipped := 0
  xPos := env.leftMargin
  yPos := env.topMargin
  tiles := []

/-- A single thumbnail is drawn with only one tile. -/
def oneTile (env : Env) : List Tile → List Tile
  | [tile] => [⟨tile.file, env.leftMargin, env.topMargin⟩]
  | tiles => tiles

/-- For a folder with these files and these sub-directories, while the worker is not killed. The
outer loop is always left in time, see `rounds_isSome`. -/
def thumbForDirectory (env : Env) (sequenceIndex : ℤ) (files : List File)
    (directories : List String) : Option Preview :=
  if env.tooSmall = true then some ⟨none, none, false, none⟩
  else
    (rounds env sequenceIndex files 502 (start env sequenceIndex) (-1)).map
      fun (d, totalValidThumbs) =>
        { image := if d.tiles = [] then none else some (oneTile env d.tiles)
          sequenceIndexWraparoundPoint :=
            if 0 ≤ totalValidThumbs then
              some ((totalValidThumbs - 1).tdiv visibleCount + 1) else none
          handlesSequences := true
          propagated := if d.tiles = [] then
            (directories.take 50).find? env.propagationDirectories.contains else none }

def Preview.files (preview : Preview) : List File := (preview.image.getD []).map Tile.file

/-! ### The inner loop -/

section loops

variable {env : Env} {d : Drawing} {files rest : List File}

@[simp] lemma look_iterations (d : Drawing) : d.look.iterations = d.iterations + 1 := rfl
@[simp] lemma look_skipValidItems (d : Drawing) : d.look.skipValidItems = d.skipValidItems := rfl
@[simp] lemma look_skipped (d : Drawing) : d.look.skipped = d.skipped := rfl
@[simp] lemma look_tiles (d : Drawing) : d.look.tiles = d.tiles := rfl

@[simp] lemma giveUp_skipped (d : Drawing) : d.giveUp.skipped = 0 := rfl

@[simp] lemma skip_iterations (d : Drawing) : d.skip.iterations = d.iterations := rfl
@[simp] lemma skip_skipValidItems (d : Drawing) : d.skip.skipValidItems = d.skipValidItems := rfl
@[simp] lemma skip_skipped (d : Drawing) : d.skip.skipped = d.skipped + 1 := rfl
@[simp] lemma skip_tiles (d : Drawing) : d.skip.tiles = d.tiles := rfl

section draw

variable (d : Drawing) (file : File)

@[simp] lemma draw_iterations : (d.draw file).iterations = d.iterations := rfl
@[simp] lemma draw_skipValidItems : (d.draw file).skipValidItems = d.skipValidItems := rfl
@[simp] lemma draw_skipped : (d.draw file).skipped = d.skipped := rfl

@[simp] lemma draw_files : (d.draw file).tiles.map Tile.file = d.tiles.map Tile.file ++ [file] := by
  simp [Drawing.draw]

@[simp] lemma draw_validThumbnails : (d.draw file).validThumbnails = d.validThumbnails + 1 := by
  simp [Drawing.draw, Drawing.validThumbnails]

end draw

section advance

variable (env : Env) (d : Drawing)

@[simp] lemma advance_iterations : (d.advance env).iterations = d.iterations := by
  unfold Drawing.advance
  dsimp only
  split <;> rfl

@[simp] lemma advance_skipValidItems : (d.advance env).skipValidItems = d.skipValidItems := by
  unfold Drawing.advance
  dsimp only
  split <;> rfl

@[simp] lemma advance_skipped : (d.advance env).skipped = d.skipped := by
  unfold Drawing.advance
  dsimp only
  split <;> rfl

@[simp] lemma advance_tiles : (d.advance env).tiles = d.tiles := by
  unfold Drawing.advance
  dsimp only
  split <;> rfl

end advance

lemma next_validThumbnails (env : Env) (d : Drawing) (file : File) :
    ((d.look.draw file).advance env).validThumbnails = d.validThumbnails + 1 := by
  simp [Drawing.validThumbnails, Drawing.draw]

lemma visit_iterations (hstart : d.iterations ≤ 500) (h : (visit env d files).1.skipped ≠ 0) :
    d.iterations ≤ (visit env d files).1.iterations ∧ (visit env d files).1.iterations ≤ 500 ∧
      (d.skipped = 0 → d.iterations < (visit env d files).1.iterations) := by
  induction files generalizing d with
  | nil => exact ⟨le_rfl, hstart, fun hzero => absurd hzero h⟩
  | cons file rest ih =>
    have hnext : ∀ d' : Drawing, d'.iterations = d.iterations + 1 → d'.iterations ≤ 500 →
        (visit env d' rest).1.skipped ≠ 0 →
        d.iterations < (visit env d' rest).1.iterations ∧
          (visit env d' rest).1.iterations ≤ 500 := by
      intro d' heq hle hskipped
      obtain ⟨hmore, hlimit, -⟩ := ih hle hskipped
      exact ⟨by omega, hlimit⟩
    have hboth : d.iterations < (visit env d (file :: rest)).1.iterations ∧
        (visit env d (file :: rest)).1.iterations ≤ 500 := by
      unfold visit at h ⊢
      dsimp only at h ⊢
      split_ifs at h ⊢ with hmany hunusable hskip hdone
      · exact absurd (giveUp_skipped _) h
      · exact hnext _ rfl (Nat.le_of_not_lt hmany) h
      · exact hnext _ rfl (Nat.le_of_not_lt hmany) h
      · exact ⟨Nat.lt_succ_self _, Nat.le_of_not_lt hmany⟩
      · refine hnext _ (by simp) ?_ h
        simpa using hmany
    exact ⟨hboth.1.le, hboth.2, fun _ => hboth.1⟩

/-- What a round does that is not stopped: it goes on to the file that fills the page, or to the
end. So far `j` of the files to skip have been skipped. -/
structure Visited (env : Env) (d : Drawing) (skip j : ℕ) (files : List File) (d' : Drawing)
    (rest : List File) : Prop where
  looked : upTo env.usable (skip - j + (4 - d.validThumbnails)) files ++ rest = files
  iterations : d'.iterations + rest.length = d.iterations + files.length
  drawn : d'.tiles.map Tile.file = d.tiles.map Tile.file ++
    ((files.filter env.usable).drop (skip - j)).take (4 - d.validThumbnails)
  skipped : d'.skipped = (j + min (skip - j) (files.countP env.usable) : ℕ)

variable {d d' : Drawing} {j : ℕ}

lemma Visited.nil (env : Env) (skip : ℕ) (h : d.skipped = j) : Visited env d skip j [] d [] where
  looked := by
    rw [List.append_nil]
    exact List.prefix_nil.mp (upTo_begins _ _)
  iterations := rfl
  drawn := by simp
  skipped := by simp [h]

lemma Visited.unusable {skip : ℕ} {file : File} (hroom : d.validThumbnails < 4)
    (h : env.usable file = false) (hrest : Visited env d.look skip j files d' rest) :
    Visited env d skip j (file :: files) d' rest where
  looked := by
    obtain ⟨k, hk⟩ : ∃ k, skip - j + (4 - d.validThumbnails) = k + 1 :=
      ⟨skip - j + (4 - d.validThumbnails) - 1, by omega⟩
    have hlooked := hrest.looked
    change upTo env.usable (skip - j + (4 - d.validThumbnails)) files ++ rest = files at hlooked
    rw [hk] at hlooked ⊢
    rw [upTo, h, if_neg Bool.false_ne_true, List.cons_append, hlooked]
  iterations := by
    have hiterations := hrest.iterations
    rw [look_iterations] at hiterations
    rw [List.length_cons]
    omega
  drawn := by
    rw [List.filter_cons_of_neg (by simp [h])]
    exact hrest.drawn
  skipped := by
    rw [List.countP_cons_of_neg (by simp [h])]
    exact hrest.skipped

lemma Visited.skip {skip : ℕ} {file : File} (hlt : j < skip) (h : env.usable file = true)
    (hrest : Visited env d.look.skip skip (j + 1) files d' rest) :
    Visited env d skip j (file :: files) d' rest where
  looked := by
    have hk : skip - j + (4 - d.validThumbnails) =
        skip - (j + 1) + (4 - d.validThumbnails) + 1 := by omega
    rw [hk, upTo, if_pos h, List.cons_append]
    exact congrArg (file :: ·) hrest.looked
  iterations := by
    have hiterations := hrest.iterations
    rw [skip_iterations, look_iterations] at hiterations
    rw [List.length_cons]
    omega
  drawn := by
    have hj : skip - j = skip - (j + 1) + 1 := by omega
    rw [List.filter_cons_of_pos h, hj, List.drop_succ_cons]
    exact hrest.drawn
  skipped := by
    rw [hrest.skipped, List.countP_cons_of_pos h]
    congr 1
    omega

lemma Visited.last {skip : ℕ} {file : File} (hroom : d.validThumbnails = 3)
    (hskipped : d.skipped = skip) (h : env.usable file = true) :
    Visited env d skip skip (file :: files) (d.look.draw file) files where
  looked := by
    rw [hroom, Nat.sub_self, upTo, if_pos h]
    simp [upTo]
  iterations := by
    rw [draw_iterations, look_iterations, List.length_cons]
    omega
  drawn := by
    rw [hroom, List.filter_cons_of_pos h]
    simp
  skipped := by simp [hskipped]

lemma Visited.draw {skip : ℕ} {file : File} (hroom : d.validThumbnails < 3)
    (h : env.usable file = true)
    (hrest : Visited env ((d.look.draw file).advance env) skip skip files d' rest) :
    Visited env d skip skip (file :: files) d' rest where
  looked := by
    have hk : skip - skip + (4 - d.validThumbnails) =
        skip - skip + (4 - (d.validThumbnails + 1)) + 1 := by omega
    rw [hk, upTo, if_pos h, List.cons_append]
    have hlooked := hrest.looked
    rw [next_validThumbnails] at hlooked
    rw [hlooked]
  iterations := by
    have hiterations := hrest.iterations
    rw [advance_iterations, draw_iterations, look_iterations] at hiterations
    rw [List.length_cons]
    omega
  drawn := by
    have hk : 4 - d.validThumbnails = 4 - (d.validThumbnails + 1) + 1 := by omega
    rw [hrest.drawn, next_validThumbnails, advance_tiles, draw_files, look_tiles,
      List.filter_cons_of_pos h, Nat.sub_self, List.drop_zero, List.drop_zero, hk,
      List.take_succ_cons, List.append_assoc]
    rfl
  skipped := by
    rw [hrest.skipped]
    simp

lemma visit_visited {skip : ℕ} (hskip : d.skipValidItems.toNat = skip) (hskipped : d.skipped = j)
    (hle : j ≤ skip) (hroom : d.validThumbnails < 4) (hdrawn : 0 < d.validThumbnails → j = skip)
    (hlimit : d.iterations +
      (upTo env.usable (skip - j + (4 - d.validThumbnails)) files).length ≤ 500) :
    Visited env d skip j files (visit env d files).1 (visit env d files).2 := by
  induction files generalizing d j with
  | nil => exact Visited.nil env skip hskipped
  | cons file rest ih =>
    obtain ⟨k, hk⟩ : ∃ k, skip - j + (4 - d.validThumbnails) = k + 1 :=
      ⟨skip - j + (4 - d.validThumbnails) - 1, by omega⟩
    rw [hk, upTo, List.length_cons] at hlimit
    have hfew : ¬ 500 < d.look.iterations := by
      rw [look_iterations]
      omega
    unfold visit
    dsimp only
    rw [if_neg hfew]
    by_cases husable : env.usable file = true
    · rw [if_neg (by simp [husable])]
      rw [if_pos husable] at hlimit
      by_cases hmore : j < skip
      · rw [if_pos (by rw [look_skipped, look_skipValidItems]; omega)]
        refine Visited.skip hmore husable (ih hskip ?_ hmore hroom ?_ ?_)
        · simp [hskipped]
        · intro hpos
          have := hdrawn hpos
          omega
        · have hk' : skip - (j + 1) + (4 - d.look.skip.validThumbnails) = k := by
            change skip - (j + 1) + (4 - d.validThumbnails) = k
            omega
          rw [hk', skip_iterations, look_iterations]
          omega
      · obtain rfl : j = skip := by omega
        rw [if_neg (by rw [look_skipped, look_skipValidItems]; omega)]
        by_cases hdone : visibleCount ≤ (d.look.draw file).validThumbnails
        · rw [if_pos hdone]
          refine Visited.last ?_ hskipped husable
          rw [draw_validThumbnails] at hdone
          change 4 ≤ d.validThumbnails + 1 at hdone
          omega
        · rw [if_neg hdone]
          rw [draw_validThumbnails] at hdone
          change ¬ 4 ≤ d.validThumbnails + 1 at hdone
          have hvalid := next_validThumbnails env d file
          refine Visited.draw (by omega) husable (ih ?_ ?_ le_rfl ?_ (fun _ => rfl) ?_)
          · simp [hskip]
          · simp [hskipped]
          · omega
          · have hk' : j - j + (4 - ((d.look.draw file).advance env).validThumbnails) = k := by
              omega
            rw [hk', advance_iterations, draw_iterations, look_iterations]
            omega
    · rw [Bool.not_eq_true] at husable
      rw [if_pos husable]
      rw [husable, if_neg Bool.false_ne_true] at hlimit
      refine Visited.unusable hroom husable (ih hskip hskipped hle hroom hdrawn ?_)
      change d.iterations + 1 + (upTo env.usable (skip - j + (4 - d.validThumbnails)) rest).length
        ≤ 500
      rw [hk]
      omega

lemma visit_page {skip : ℕ} (hskip : d.skipValidItems.toNat = skip) (htiles : d.tiles = [])
    (hlimit : d.iterations + (upTo env.usable (skip + 4) files).length ≤ 500) :
    ∃ d' rest, visit env { d with skipped := 0 } files = (d', rest) ∧
      upTo env.usable (skip + 4) files ++ rest = files ∧
      d'.iterations + rest.length = d.iterations + files.length ∧
      d'.tiles.map Tile.file = ((files.filter env.usable).drop skip).take 4 ∧
      d'.skipped = min skip (files.countP env.usable) := by
  have hvalid : ({ d with skipped := 0 } : Drawing).validThumbnails = 0 := by
    simp [Drawing.validThumbnails, htiles]
  have hvisited : Visited env { d with skipped := 0 } skip 0 files
      (visit env { d with skipped := 0 } files).1 (visit env { d with skipped := 0 } files).2 := by
    apply visit_visited (j := 0)
    · exact hskip
    · rfl
    · omega
    · omega
    · intro hpos
      omega
    · rw [hvalid]
      exact hlimit
  refine ⟨_, _, rfl, ?_, hvisited.iterations, ?_, ?_⟩
  · have hlooked := hvisited.looked
    rwa [hvalid] at hlooked
  · have hdrawn := hvisited.drawn
    rw [hvalid] at hdrawn
    refine hdrawn.trans ?_
    simp [htiles]
  · rw [hvisited.skipped]
    omega

/-! ### The outer loop -/

lemma rounds_isSome_of (sequenceIndex : ℤ) {fuel : ℕ} {totalValidThumbs : ℤ}
    (hstart : d.iterations ≤ 500) (hfuel : 500 < d.iterations + fuel) :
    (rounds env sequenceIndex files fuel d totalValidThumbs).isSome := by
  induction fuel generalizing d totalValidThumbs with
  | zero => omega
  | succ fuel ih =>
    unfold rounds
    dsimp only
    split_ifs with _ _ hskipped
    any_goals rfl
    all_goals
      obtain ⟨-, hlimit, hmore⟩ := visit_iterations (d := { d with skipped := 0 }) hstart hskipped
      have hlt := hmore rfl
      dsimp only at hlt
      exact ih hlimit (by dsimp only; omega)

lemma rounds_drawn {skip : ℕ} (hskip : d.skipValidItems.toNat = skip) (htiles : d.tiles = [])
    (hlimit : d.iterations + (upTo env.usable (skip + 4) files).length ≤ 500)
    (hlt : skip < files.countP env.usable) (sequenceIndex : ℤ) (fuel : ℕ) (total : ℤ) :
    ∃ d', rounds env sequenceIndex files (fuel + 1) d total =
        some (d', if upTo env.usable (skip + 4) files = files ∧ total < 0
          then (files.countP env.usable : ℤ) else total) ∧
      d'.tiles.map Tile.file = ((files.filter env.usable).drop skip).take 4 := by
  obtain ⟨d', rest, hround, hlooked, -, hdrawn, hskipped⟩ := visit_page hskip htiles hlimit
  unfold rounds
  dsimp only
  rw [hround]
  dsimp only
  have hcount : d'.validThumbnails = min 4 (files.countP env.usable - skip) := by
    have hlength := congrArg List.length hdrawn
    rwa [List.length_map, List.length_take, List.length_drop,
      ← List.countP_eq_length_filter] at hlength
  have hend : rest = [] ↔ upTo env.usable (skip + 4) files = files := by
    constructor
    · rintro rfl
      rwa [List.append_nil] at hlooked
    · intro hself
      rwa [hself, List.append_right_eq_self] at hlooked
  rw [if_pos (by omega)]
  refine ⟨d', ?_, hdrawn⟩
  congr 2
  by_cases hself : upTo env.usable (skip + 4) files = files
  · have hle := countP_le_of_upTo hself
    have htotal : d'.skipped + d'.validThumbnails = files.countP env.usable := by
      rw [hskipped, hcount]
      omega
    rw [htotal]
    simp only [hend, hself]
  · simp only [hend, hself, false_and, if_false]

lemma rounds_skipped {skip : ℕ} (hskip : d.skipValidItems.toNat = skip) (htiles : d.tiles = [])
    (hlimit : d.iterations + files.length ≤ 500) (hpos : 0 < files.countP env.usable)
    (hle : files.countP env.usable ≤ skip) (sequenceIndex : ℤ) (fuel : ℕ) :
    ∃ d' : Drawing, rounds env sequenceIndex files (fuel + 1) d (-1) =
        rounds env sequenceIndex files fuel d' (files.countP env.usable) ∧
      d'.skipValidItems = sequenceIndex.tmod (count 4 (files.countP env.usable) : ℕ) * 4 ∧
      d'.tiles = [] ∧ d'.iterations = d.iterations + files.length := by
  have hself : upTo env.usable (skip + 4) files = files := upTo_eq_self (by omega)
  obtain ⟨d', rest, hround, hlooked, hiterations, hdrawn, hskipped⟩ :=
    visit_page hskip htiles (by rwa [hself])
  rw [rounds]
  dsimp only
  rw [hround]
  dsimp only
  have hrest : rest = [] := by rwa [hself, List.append_right_eq_self] at hlooked
  have hnone : d'.tiles = [] := by
    have hdrop : (files.filter env.usable).drop skip = [] := by
      apply List.drop_eq_nil_of_le
      rwa [← List.countP_eq_length_filter]
    rwa [hdrop, List.take_nil, List.map_eq_nil_iff] at hdrawn
  have hcount : d'.skipped = files.countP env.usable := by
    rw [hskipped]
    omega
  have hzero : d'.validThumbnails = 0 := by simp [Drawing.validThumbnails, hnone]
  have hpages : (d'.skipped + (visibleCount : ℕ) - 1).tdiv (visibleCount : ℕ) =
      (count 4 (files.countP env.usable) : ℕ) := by
    rw [hcount, Int.tdiv_eq_ediv_of_nonneg (by change _ ≤ _ + 4 - 1; omega), count]
    change (_ + 4 - 1) / 4 = _
    omega
  rw [hrest, hzero, if_neg (by omega), if_neg (by omega), if_pos ⟨rfl, by omega⟩, hpages,
    Nat.cast_zero, add_zero]
  rw [hrest, List.length_nil, Nat.add_zero] at hiterations
  refine ⟨{ d' with
    skipValidItems := sequenceIndex.tmod (count 4 (files.countP env.usable) : ℕ) * 4 },
    ?_, rfl, hnone, hiterations⟩
  exact congrArg (rounds env sequenceIndex files fuel _) hcount

end loops

/-- **The loops end**, however many files there are. -/
theorem rounds_isSome (env : Env) (sequenceIndex : ℤ) (files : List File)
    (directories : List String) :
    (thumbForDirectory env sequenceIndex files directories).isSome := by
  unfold thumbForDirectory
  split
  · rfl
  · rw [Option.isSome_map]
    apply rounds_isSome_of sequenceIndex
    · exact Nat.zero_le _
    · change 500 < 0 + 502
      omega

/-! ### The page that is shown -/

section page

variable {env : Env} {sequenceIndex : ℤ} {files : List File} {directories : List String}

/-- How many files are looked at until the page is drawn, if nothing stops the loops. -/
def looked (env : Env) (sequenceIndex : ℤ) (files : List File) : ℕ :=
  let index := sequenceIndex.toNat
  let pages := count 4 (files.countP env.usable)
  if 4 * index < files.countP env.usable then
    (upTo env.usable (4 * index + 4) files).length
  else files.length + (upTo env.usable (4 * (index % pages) + 4) files).length

@[simp] lemma oneTile_files (env : Env) (tiles : List Tile) :
    (oneTile env tiles).map Tile.file = tiles.map Tile.file := by
  match tiles with
  | [] => rfl
  | [_] => rfl
  | _ :: _ :: _ => rfl

lemma start_skipValidItems (env : Env) (h : -2 ^ 29 ≤ sequenceIndex ∧ sequenceIndex < 2 ^ 29) :
    (start env sequenceIndex).skipValidItems.toNat = 4 * sequenceIndex.toNat := by
  change ((sequenceIndex * 4).bmod (2 ^ 32)).toNat = _
  rw [Int.bmod_eq_of_le (by omega) (by omega)]
  omega

lemma rounds_page (hindex : -2 ^ 29 ≤ sequenceIndex ∧ sequenceIndex < 2 ^ 29)
    (hpos : 0 < files.countP env.usable) (hlimit : looked env sequenceIndex files ≤ 500) :
    ∃ d : Drawing, rounds env sequenceIndex files 502 (start env sequenceIndex) (-1) =
        some (d, if upTo env.usable (4 * sequenceIndex.toNat + 4) files = files
          then (files.countP env.usable : ℤ) else -1) ∧
      d.tiles.map Tile.file =
        page 4 (sequenceIndex.toNat % count 4 (files.countP env.usable))
          (files.filter env.usable) := by
  have hskip := start_skipValidItems env hindex
  unfold looked at hlimit
  dsimp only at hlimit
  by_cases hlt : 4 * sequenceIndex.toNat < files.countP env.usable
  · rw [if_pos hlt] at hlimit
    obtain ⟨d, hrounds, hdrawn⟩ := rounds_drawn hskip rfl
      (by change 0 + _ ≤ _; omega) hlt sequenceIndex 501 (-1)
    refine ⟨d, ?_, ?_⟩
    · rw [hrounds]
      simp
    · rw [hdrawn, Nat.mod_eq_of_lt ((lt_count_iff (by omega)).mpr hlt)]
      rfl
  · rw [if_neg hlt] at hlimit
    -- the index is not negative here: else nothing would be skipped
    have hnonneg : 0 ≤ sequenceIndex := by omega
    obtain ⟨d₁, hfirst, hskip₁, htiles₁, hiterations₁⟩ := rounds_skipped hskip rfl
      (by change 0 + _ ≤ _; omega) hpos (Nat.le_of_not_lt hlt) sequenceIndex 501
    change d₁.iterations = 0 + files.length at hiterations₁
    have hskip₂ : d₁.skipValidItems.toNat =
        4 * (sequenceIndex.toNat % count 4 (files.countP env.usable)) := by
      have hcast : sequenceIndex.tmod (count 4 (files.countP env.usable) : ℕ) =
          (sequenceIndex.toNat % count 4 (files.countP env.usable) : ℕ) := by
        rw [Int.tmod_eq_emod_of_nonneg hnonneg, Int.natCast_mod, Int.toNat_of_nonneg hnonneg]
      rw [hskip₁, hcast]
      omega
    have hmod : sequenceIndex.toNat % count 4 (files.countP env.usable) <
        count 4 (files.countP env.usable) := Nat.mod_lt _ (count_pos (by omega) hpos)
    obtain ⟨d₂, hsecond, hdrawn⟩ := rounds_drawn hskip₂ htiles₁ (by omega)
      ((lt_count_iff (by omega)).mp hmod) sequenceIndex 500 (files.countP env.usable)
    refine ⟨d₂, ?_, hdrawn⟩
    rw [hfirst, hsecond, if_pos (upTo_eq_self (by omega)), if_neg (by omega)]

/-- **The page of the index**: with files to show, the loops end with the files of the page that
the index comes to when the pages are repeated, at most four and at least one, all of them usable,
and what is given is no empty image. A negative index is the first page. The number of the pages
is reported exactly when the first round has come to the end of the listing. -/
theorem thumbForDirectory_page (env : Env) (sequenceIndex : ℤ) (files : List File)
    (directories : List String) (hsize : env.tooSmall = false)
    (hindex : -2 ^ 29 ≤ sequenceIndex ∧ sequenceIndex < 2 ^ 29)
    (hpos : 0 < files.countP env.usable) (hlimit : looked env sequenceIndex files ≤ 500) :
    ∃ preview, thumbForDirectory env sequenceIndex files directories = some preview ∧
      preview.files = page 4 (sequenceIndex.toNat % count 4 (files.countP env.usable))
        (files.filter env.usable) ∧
      preview.image ≠ none ∧ preview.files ≠ [] ∧
      (∀ file ∈ preview.files, file ∈ files ∧ env.usable file = true) ∧
      preview.sequenceIndexWraparoundPoint =
        if upTo env.usable (4 * sequenceIndex.toNat + 4) files = files
          then some (count 4 (files.countP env.usable) : ℤ) else none := by
  obtain ⟨d, hrounds, hdrawn⟩ := rounds_page hindex hpos hlimit
  have hpage : page 4 (sequenceIndex.toNat % count 4 (files.countP env.usable))
      (files.filter env.usable) ≠ [] := by
    apply page_ne_nil (by omega)
    rw [← List.countP_eq_length_filter]
    exact (lt_count_iff (by omega)).mp (Nat.mod_lt _ (count_pos (by omega) hpos))
  have htiles : d.tiles ≠ [] := by
    intro hnil
    rw [hnil, List.map_nil] at hdrawn
    exact hpage hdrawn.symm
  unfold thumbForDirectory
  rw [if_neg (by rw [hsize]; exact Bool.false_ne_true), hrounds, Option.map_some]
  refine ⟨_, rfl, ?_⟩
  have hfiles :
      ((if d.tiles = [] then none else some (oneTile env d.tiles)).getD []).map Tile.file =
        page 4 (sequenceIndex.toNat % count 4 (files.countP env.usable))
          (files.filter env.usable) := by
    rw [if_neg htiles, Option.getD_some, oneTile_files, hdrawn]
  refine ⟨hfiles, ?_, ?_, ?_, ?_⟩
  · simp [htiles]
  · rw [Preview.files, hfiles]
    exact hpage
  · rw [Preview.files, hfiles]
    intro file hmem
    exact List.mem_filter.mp (List.mem_of_mem_drop (List.mem_of_mem_take hmem))
  · dsimp only
    split
    · rw [if_pos (by omega), count]
      congr 1
      rw [Int.tdiv_eq_ediv_of_nonneg (by omega)]
      change (_ - 1) / 4 + 1 = _
      omega
    · rw [if_neg (by omega)]

end page

/-! ### Five files -/

def photo (filePath : String) : File := ⟨filePath, false, 1⟩

/-- Thumbnails are made of all files, with the usual icon. -/
def plain : Env where
  folderWidth := 128
  folderHeight := 128
  devicePixelRatio := 1
  maxFileSize := 5242880
  createSubThumbnail := fun _ => true
  propagationDirectories := []

def album : List File := [photo "a", photo "b", photo "c", photo "d", photo "e"]

/-- The third index is the first page again. -/
theorem album_repeated :
    ∃ preview, thumbForDirectory plain 2 album [] = some preview ∧
      preview.files = page 4 ((2 : ℤ).toNat % count 4 (album.countP plain.usable))
        (album.filter plain.usable) ∧
      preview.image ≠ none ∧ preview.files ≠ [] ∧
      (∀ file ∈ preview.files, file ∈ album ∧ plain.usable file = true) ∧
      preview.sequenceIndexWraparoundPoint =
        if upTo plain.usable (4 * (2 : ℤ).toNat + 4) album = album
          then some (count 4 (album.countP plain.usable) : ℤ) else none :=
  thumbForDirectory_page plain 2 album [] (by decide +kernel) (by decide) (by decide) (by decide)

/-- While the first page is shown it is not known that there are two. -/
theorem first_page_unreported :
    ¬ ∃ preview, thumbForDirectory plain 0 album [] = some preview ∧
      preview.sequenceIndexWraparoundPoint = some (count 4 (album.countP plain.usable) : ℤ) := by
  rintro ⟨preview, hpreview, hpoint⟩
  have hnone : (thumbForDirectory plain 0 album []).map Preview.sequenceIndexWraparoundPoint =
      some none := by decide +kernel
  rw [hpreview, Option.map_some, hpoint] at hnone
  exact absurd (Option.some_inj.mp hnone) (Option.some_ne_none _)

end KioExtras.Thumbnail.Directory
