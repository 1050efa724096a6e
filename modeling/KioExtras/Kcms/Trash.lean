import KioExtras.Lib.Run
import Mathlib.Data.Rat.Floor
import Mathlib.Logic.Function.Basic
import Mathlib.Tactic.NormNum

/-!
The settings module of the trash: one set of widgets for all trashes, and a map with the settings of
those that are not shown.

Beside the members, a state has the item that is selected in the list, and the settings last given
to each trash while it was selected.
-/

namespace KioExtras.Kcms.Trash

open KioExtras.Lib.Run

abbrev Text := List Char

structure ConfigEntry where
  useTimeLimit : Bool
  days : ℤ
  useSizeLimit : Bool
  percent : ℚ
  actionType : ℤ
  deriving DecidableEq

/-- What `readConfig` takes for a key that is missing, what the widgets show for a trash that is not
in the map, and what `defaults` sets. -/
def defaultEntry : ConfigEntry := ⟨false, 7, true, 10, 0⟩

structure Group where
  UseTimeLimit : Option Bool
  Days : Option ℤ
  UseSizeLimit : Option Bool
  Percent : Option ℚ
  LimitReachedAction : Option ℤ

def Group.read (group : Group) : ConfigEntry where
  useTimeLimit := group.UseTimeLimit.getD false
  days := group.Days.getD 7
  useSizeLimit := group.UseSizeLimit.getD true
  percent := group.Percent.getD 10
  actionType := group.LimitReachedAction.getD 0

def Group.write (entry : ConfigEntry) : Group :=
  ⟨some entry.useTimeLimit, some entry.days, some entry.useSizeLimit, some entry.percent,
    some entry.actionType⟩

abbrev KConfig := Text → Option Group
abbrev ConfigMap := Text → Option ConfigEntry

def isTrash (name : Text) : Bool := name.head? = some '/'

def readConfig (config : KConfig) : ConfigMap := fun name =>
  if isTrash name then (config name).map Group.read else none

/-- The groups of trashes are deleted, and those in the map are written. -/
def writeConfig (map : ConfigMap) (config : KConfig) : KConfig := fun name =>
  match map name with
  | some entry => some (Group.write entry)
  | none => if isTrash name then none else config name

def stored (config : KConfig) (trash : Text) : ConfigEntry :=
  ((config trash).map Group.read).getD defaultEntry

def lookup (map : ConfigMap) (trash : Text) : ConfigEntry := (map trash).getD defaultEntry

/-! ### The widgets -/

def toRange (low high value : ℚ) : ℚ := max low (min high value)

/-- To two decimals. -/
def roundPercent (value : ℚ) : ℚ := ⌊value * 100 + 1 / 2⌋ / 100

/-- What the widgets have after they are set to the values of an entry: days from 1 to 365, a
percentage from 0.01 to 100 with two decimals, and an index of one of three items or none. -/
def shown (entry : ConfigEntry) : ConfigEntry where
  useTimeLimit := entry.useTimeLimit
  days := max 1 (min 365 entry.days)
  useSizeLimit := entry.useSizeLimit
  percent := toRange (1 / 100) 100 (roundPercent entry.percent)
  actionType := if 0 ≤ entry.actionType ∧ entry.actionType < 3 then entry.actionType else -1

/-- The trashes by their numbers; the trash of the home directory is the first in the list. -/
structure Trashes where
  m_trashMap : ℕ → Text
  keys : List ℕ
  zero_mem : 0 ∈ keys
  absolute : ∀ key ∈ keys, isTrash (m_trashMap key)

structure TrashConfigModule where
  config : KConfig
  mConfigMap : ConfigMap
  mCurrentTrash : Text
  trashInitialize : Bool
  widgets : ConfigEntry
  /-- the number of the trash that is selected in the list -/
  selected : ℕ
  /-- the settings last given to each trash while it was selected -/
  wanted : Text → ConfigEntry

section module_

variable (trashes : Trashes)

variable (s : TrashConfigModule)

/-- The values of the widgets go into the map, under the current trash. -/
def keepWidgets : ConfigMap :=
  Function.update s.mConfigMap s.mCurrentTrash (some s.widgets)

def trashChanged (value : ℕ) : TrashConfigModule :=
  let map := if s.mCurrentTrash ≠ [] ∧ s.trashInitialize then keepWidgets s else s.mConfigMap
  { s with
    mConfigMap := map
    mCurrentTrash := trashes.m_trashMap value
    widgets := match map (trashes.m_trashMap value) with
      | some entry => shown entry
      | none => shown defaultEntry }

/-- The end of the constructor: the first trash is shown. -/
def start (config : KConfig) : TrashConfigModule :=
  { trashChanged trashes ⟨config, readConfig config, [], false, defaultEntry, 0, stored config⟩ 0
    with trashInitialize := true }

def save : TrashConfigModule :=
  let map := if s.mCurrentTrash ≠ [] then keepWidgets s else s.mConfigMap
  { s with mConfigMap := map, config := writeConfig map s.config }

def defaults : TrashConfigModule :=
  trashChanged trashes
    { s with
      mConfigMap := Function.update s.mConfigMap s.mCurrentTrash (some defaultEntry)
      trashInitialize := false }
    0

inductive Event
  | select (key : ℕ)
  | edit (entry : ConfigEntry)
  | defaults
  | save

def selectedTrash : Text := trashes.m_trashMap s.selected

def selectTrash (key : ℕ) : TrashConfigModule :=
  { trashChanged trashes s key with selected := key }

def editTrash (entry : ConfigEntry) : TrashConfigModule :=
  { s with
    widgets := entry
    wanted := Function.update s.wanted (selectedTrash trashes s) entry }

def defaultTrash : TrashConfigModule :=
  { Trash.defaults trashes s with
    wanted := Function.update s.wanted (selectedTrash trashes s) defaultEntry }

/-- An item that is selected again says nothing. An edit gives the widgets other values, of those
they can have. -/
def step : Event → Option TrashConfigModule
  | .select key =>
    if key ∈ trashes.keys then
      if key = s.selected then some s
      else some (selectTrash trashes s key)
    else none
  | .edit entry =>
    if shown entry = entry ∧ entry ≠ s.widgets then some (editTrash trashes s entry) else none
  | .defaults => some (defaultTrash trashes s)
  | .save => some (Trash.save s)

/-- **What saving stores** for each trash is what was last set while it was selected, or else what
was stored for it before. -/
def SavesRight : Prop :=
  ∀ trash, isTrash trash → stored (Trash.save s).config trash = s.wanted trash

/-- A trash is left with edits only before the defaults were asked for, and entered with settings
the widgets can show; it is edited while it is the one the widgets stand for, and so are its
defaults asked for. -/
def Careful : Event → Prop
  | .select key => key ∈ trashes.keys → key ≠ s.selected →
      (s.trashInitialize ∨ lookup s.mConfigMap s.mCurrentTrash = s.widgets) ∧
        shown (s.wanted (trashes.m_trashMap key)) = s.wanted (trashes.m_trashMap key)
  | .edit entry => shown entry = entry → entry ≠ s.widgets →
      s.mCurrentTrash = selectedTrash trashes s
  | .defaults =>
    if s.mCurrentTrash = selectedTrash trashes s then
      s.mCurrentTrash ≠ trashes.m_trashMap 0 →
        shown (s.wanted (trashes.m_trashMap 0)) = s.wanted (trashes.m_trashMap 0)
    else s.widgets = defaultEntry ∧ s.wanted (selectedTrash trashes s) = defaultEntry
  | .save => True

end module_

/-! ### Reading back -/

lemma shown_default : shown defaultEntry = defaultEntry := by
  norm_num [shown, defaultEntry, toRange, roundPercent]

lemma lookup_self (map : ConfigMap) (trash : Text) (entry : ConfigEntry) :
    lookup (Function.update map trash (some entry)) trash = entry := by
  unfold lookup
  rw [Function.update_self]
  rfl

variable {trash : Text} {config : KConfig}

lemma lookup_ne {map : ConfigMap} {other : Text} {entry : ConfigEntry} (h : other ≠ trash) :
    lookup (Function.update map trash (some entry)) other = lookup map other := by
  unfold lookup
  rw [Function.update_of_ne h]

lemma lookup_readConfig (h : isTrash trash = true) :
    lookup (readConfig config) trash = stored config trash := by
  unfold lookup readConfig
  rw [if_pos h]
  rfl

lemma stored_writeConfig {map : ConfigMap} (h : isTrash trash = true) :
    stored (writeConfig map config) trash = lookup map trash := by
  unfold stored writeConfig lookup
  cases map trash with
  | none =>
    dsimp only
    rw [if_pos h]
    rfl
  | some entry => rfl

lemma isTrash_ne_nil (h : isTrash trash = true) : trash ≠ [] := by
  rintro rfl
  exact absurd h (by decide)

section savesRight

variable {trashes : Trashes} {s : TrashConfigModule}

lemma savesRight_iff (hcurrent : isTrash s.mCurrentTrash = true) :
    SavesRight s ↔ s.widgets = s.wanted s.mCurrentTrash ∧
      ∀ trash, isTrash trash → trash ≠ s.mCurrentTrash →
        lookup s.mConfigMap trash = s.wanted trash := by
  have hstored : ∀ trash, isTrash trash = true →
      stored (save s).config trash = lookup (keepWidgets s) trash := by
    intro trash htrash
    unfold save
    rw [if_pos (isTrash_ne_nil hcurrent)]
    exact stored_writeConfig htrash
  constructor
  · intro hright
    constructor
    · have hself := hright _ hcurrent
      rw [hstored _ hcurrent, keepWidgets, lookup_self] at hself
      exact hself
    · intro trash htrash hne
      have hother := hright trash htrash
      rw [hstored trash htrash, keepWidgets, lookup_ne hne] at hother
      exact hother
  · rintro ⟨hself, hother⟩ trash htrash
    rw [hstored trash htrash, keepWidgets]
    by_cases heq : trash = s.mCurrentTrash
    · rw [heq, lookup_self]
      exact hself
    · rw [lookup_ne heq]
      exact hother trash htrash heq

def leftMap (s : TrashConfigModule) : ConfigMap :=
  if s.mCurrentTrash ≠ [] ∧ s.trashInitialize then keepWidgets s else s.mConfigMap

lemma trashChanged_widgets (value : ℕ) : (trashChanged trashes s value).widgets =
    shown (lookup (leftMap s) (trashes.m_trashMap value)) := by
  change (match leftMap s (trashes.m_trashMap value) with
    | some entry => shown entry
    | none => shown defaultEntry) = _
  unfold lookup
  cases leftMap s (trashes.m_trashMap value) with
  | none => rfl
  | some entry => rfl

lemma lookup_leftMap (hcurrent : isTrash s.mCurrentTrash = true) (hright : SavesRight s)
    (hleft : s.trashInitialize = true ∨ lookup s.mConfigMap s.mCurrentTrash = s.widgets)
    {trash : Text} (htrash : isTrash trash = true) : lookup (leftMap s) trash = s.wanted trash := by
  obtain ⟨hself, hother⟩ := (savesRight_iff hcurrent).mp hright
  by_cases heq : trash = s.mCurrentTrash
  · subst heq
    unfold leftMap
    split_ifs with hkept
    · rw [keepWidgets, lookup_self]
      exact hself
    · rcases hleft with hflag | hsame
      · exact absurd ⟨isTrash_ne_nil hcurrent, hflag⟩ hkept
      · rw [hsame]
        exact hself
  · unfold leftMap
    split_ifs with hkept
    · rw [keepWidgets, lookup_ne heq]
      exact hother trash htrash heq
    · exact hother trash htrash heq

end savesRight

/-! ### What a step does to what is saved -/

/-- The current trash is the selected one or the first, and the widgets and its entry in the map
have values the widgets can have. -/
structure Inv (trashes : Trashes) (s : TrashConfigModule) : Prop where
  right : SavesRight s
  current : s.mCurrentTrash = selectedTrash trashes s ∨ s.mCurrentTrash = trashes.m_trashMap 0
  selected : s.selected ∈ trashes.keys
  widgets : shown s.widgets = s.widgets
  entry : shown (lookup s.mConfigMap s.mCurrentTrash) = lookup s.mConfigMap s.mCurrentTrash

namespace Inv

variable {trashes : Trashes} {s : TrashConfigModule}

lemma isTrash_current (h : Inv trashes s) : isTrash s.mCurrentTrash = true := by
  rcases h.current with heq | heq
  · rw [heq]
    exact trashes.absolute _ h.selected
  · rw [heq]
    exact trashes.absolute _ trashes.zero_mem

lemma select_right_iff (h : Inv trashes s) {key : ℕ} (hkey : key ∈ trashes.keys) :
    SavesRight (selectTrash trashes s key) ↔
      (s.trashInitialize ∨ lookup s.mConfigMap s.mCurrentTrash = s.widgets) ∧
        shown (s.wanted (trashes.m_trashMap key)) = s.wanted (trashes.m_trashMap key) := by
  have hcurrent := h.isTrash_current
  have hnext : isTrash (trashes.m_trashMap key) = true := trashes.absolute key hkey
  have hself := ((savesRight_iff hcurrent).mp h.right).1
  rw [savesRight_iff (s := selectTrash trashes s key) hnext]
  change (trashChanged trashes s key).widgets = s.wanted (trashes.m_trashMap key) ∧
    (∀ trash, isTrash trash → trash ≠ trashes.m_trashMap key →
      lookup (leftMap s) trash = s.wanted trash) ↔ _
  rw [trashChanged_widgets]
  constructor
  · rintro ⟨hwidgets, hothers⟩
    have hleft : s.trashInitialize = true ∨
        lookup s.mConfigMap s.mCurrentTrash = s.widgets := by
      by_cases hflag : s.trashInitialize = true
      · exact Or.inl hflag
      · refine Or.inr ?_
        have hmap : leftMap s = s.mConfigMap := if_neg fun hboth => hflag hboth.2
        rw [hmap] at hwidgets hothers
        by_cases heq : s.mCurrentTrash = trashes.m_trashMap key
        · rw [← heq, h.entry, ← hself] at hwidgets
          exact hwidgets
        · rw [hothers _ hcurrent heq]
          exact hself.symm
    refine ⟨hleft, ?_⟩
    rw [lookup_leftMap hcurrent h.right hleft hnext] at hwidgets
    exact hwidgets
  · rintro ⟨hleft, hshown⟩
    constructor
    · rw [lookup_leftMap hcurrent h.right hleft hnext]
      exact hshown
    · intro trash htrash _
      exact lookup_leftMap hcurrent h.right hleft htrash

lemma select (h : Inv trashes s) {key : ℕ} (hkey : key ∈ trashes.keys)
    (hleft : s.trashInitialize ∨ lookup s.mConfigMap s.mCurrentTrash = s.widgets)
    (hshown : shown (s.wanted (trashes.m_trashMap key)) = s.wanted (trashes.m_trashMap key)) :
    Inv trashes (selectTrash trashes s key) := by
  have hnext : isTrash (trashes.m_trashMap key) = true := trashes.absolute key hkey
  have hlookup := lookup_leftMap h.isTrash_current h.right hleft hnext
  have hentry : shown (lookup (leftMap s) (trashes.m_trashMap key)) =
      lookup (leftMap s) (trashes.m_trashMap key) := by
    rw [hlookup]
    exact hshown
  refine ⟨(h.select_right_iff hkey).mpr ⟨hleft, hshown⟩, Or.inl rfl, hkey, ?_, hentry⟩
  change shown (trashChanged trashes s key).widgets = (trashChanged trashes s key).widgets
  rw [trashChanged_widgets, hentry]
  exact hentry

lemma edit_right_iff (h : Inv trashes s) {entry : ConfigEntry} (hedit : entry ≠ s.widgets) :
    SavesRight (editTrash trashes s entry) ↔ s.mCurrentTrash = selectedTrash trashes s := by
  have hcurrent := h.isTrash_current
  obtain ⟨hself, hother⟩ := (savesRight_iff hcurrent).mp h.right
  rw [savesRight_iff (s := editTrash trashes s entry) hcurrent]
  change entry = Function.update s.wanted (selectedTrash trashes s) entry s.mCurrentTrash ∧
    (∀ trash, isTrash trash → trash ≠ s.mCurrentTrash → lookup s.mConfigMap trash =
      Function.update s.wanted (selectedTrash trashes s) entry trash) ↔ _
  constructor
  · rintro ⟨hwidgets, _⟩
    by_contra hne
    rw [Function.update_of_ne hne, ← hself] at hwidgets
    exact hedit hwidgets
  · intro heq
    rw [← heq, Function.update_self]
    refine ⟨rfl, ?_⟩
    intro trash htrash hne
    rw [Function.update_of_ne hne]
    exact hother trash htrash hne

lemma edit (h : Inv trashes s) {entry : ConfigEntry} (hshown : shown entry = entry)
    (hedit : entry ≠ s.widgets) (hcurrent : s.mCurrentTrash = selectedTrash trashes s) :
    Inv trashes (editTrash trashes s entry) :=
  ⟨(h.edit_right_iff hedit).mpr hcurrent, h.current, h.selected, hshown, h.entry⟩

def defaultMap (s : TrashConfigModule) : ConfigMap :=
  Function.update s.mConfigMap s.mCurrentTrash (some defaultEntry)

lemma defaultTrash_widgets : (defaultTrash trashes s).widgets =
    shown (lookup (defaultMap s) (trashes.m_trashMap 0)) := by
  change (trashChanged trashes { s with
    mConfigMap := defaultMap s
    trashInitialize := false } 0).widgets = _
  rw [trashChanged_widgets]
  have hmap : leftMap { s with mConfigMap := defaultMap s, trashInitialize := false } =
      defaultMap s := if_neg fun hboth => Bool.false_ne_true hboth.2
  rw [hmap]

lemma defaultTrash_map : (defaultTrash trashes s).mConfigMap = defaultMap s :=
  if_neg fun hboth => Bool.false_ne_true hboth.2

lemma defaults_right_iff (h : Inv trashes s) :
    SavesRight (defaultTrash trashes s) ↔ Careful trashes s .defaults := by
  have hcurrent := h.isTrash_current
  obtain ⟨hself, hother⟩ := (savesRight_iff hcurrent).mp h.right
  have hfirst : isTrash (trashes.m_trashMap 0) = true := trashes.absolute 0 trashes.zero_mem
  have hsel : isTrash (selectedTrash trashes s) = true := trashes.absolute _ h.selected
  rw [savesRight_iff (s := defaultTrash trashes s) hfirst, defaultTrash_widgets, defaultTrash_map]
  change shown (lookup (defaultMap s) (trashes.m_trashMap 0)) =
      Function.update s.wanted (selectedTrash trashes s) defaultEntry (trashes.m_trashMap 0) ∧
    (∀ trash, isTrash trash → trash ≠ trashes.m_trashMap 0 → lookup (defaultMap s) trash =
      Function.update s.wanted (selectedTrash trashes s) defaultEntry trash) ↔ _
  by_cases hsame : s.mCurrentTrash = selectedTrash trashes s
  · -- the trash that gets the defaults is the one they were asked for
    have hmap : ∀ trash, isTrash trash = true → lookup (defaultMap s) trash =
        Function.update s.wanted (selectedTrash trashes s) defaultEntry trash := by
      intro trash htrash
      unfold defaultMap
      rw [← hsame]
      by_cases heq : trash = s.mCurrentTrash
      · rw [heq, lookup_self, Function.update_self]
      · rw [lookup_ne heq, Function.update_of_ne heq]
        exact hother trash htrash heq
    have hcareful : Careful trashes s .defaults ↔ (s.mCurrentTrash ≠ trashes.m_trashMap 0 →
        shown (s.wanted (trashes.m_trashMap 0)) = s.wanted (trashes.m_trashMap 0)) := by
      unfold Careful
      rw [if_pos hsame]
    rw [hcareful, hmap _ hfirst, ← hsame]
    constructor
    · rintro ⟨hwidgets, _⟩ hne
      rw [Function.update_of_ne hne.symm] at hwidgets
      exact hwidgets
    · intro hshown
      refine ⟨?_, fun trash htrash _ => ?_⟩
      · by_cases heq : s.mCurrentTrash = trashes.m_trashMap 0
        · rw [heq, Function.update_self]
          exact shown_default
        · rw [Function.update_of_ne fun hzero => heq hzero.symm]
          exact hshown heq
      · rw [hsame]
        exact hmap trash htrash
  · -- the first trash gets the defaults that were asked for another one
    have hzero : s.mCurrentTrash = trashes.m_trashMap 0 := h.current.resolve_left hsame
    have hne : trashes.m_trashMap 0 ≠ selectedTrash trashes s := hzero ▸ hsame
    have hcareful : Careful trashes s .defaults ↔ s.widgets = defaultEntry ∧
        s.wanted (selectedTrash trashes s) = defaultEntry := by
      unfold Careful
      rw [if_neg hsame]
    have hmap : defaultMap s =
        Function.update s.mConfigMap (trashes.m_trashMap 0) (some defaultEntry) := by
      unfold defaultMap
      rw [hzero]
    rw [hcareful, hmap, lookup_self, shown_default, Function.update_of_ne hne, ← hzero, ← hself]
    constructor
    · rintro ⟨hwidgets, hothers⟩
      have hselected := hothers _ hsel fun heq => hsame heq.symm
      rw [Function.update_self, lookup_ne fun heq => hsame heq.symm,
        hother _ hsel fun heq => hsame heq.symm] at hselected
      exact ⟨hwidgets.symm, hselected⟩
    · rintro ⟨hwidgets, hwanted⟩
      refine ⟨hwidgets.symm, fun trash htrash hne' => ?_⟩
      rw [lookup_ne hne', hother trash htrash hne']
      by_cases heq : trash = selectedTrash trashes s
      · rw [heq, Function.update_self]
        exact hwanted
      · rw [Function.update_of_ne heq]

lemma defaults_entry (h : Inv trashes s) (hcareful : Careful trashes s .defaults) :
    shown (lookup (defaultMap s) (trashes.m_trashMap 0)) =
      lookup (defaultMap s) (trashes.m_trashMap 0) := by
  unfold defaultMap
  by_cases heq : trashes.m_trashMap 0 = s.mCurrentTrash
  · rw [heq, lookup_self]
    exact shown_default
  · have hsame : s.mCurrentTrash = selectedTrash trashes s :=
      h.current.resolve_right fun hzero => heq hzero.symm
    unfold Careful at hcareful
    rw [if_pos hsame] at hcareful
    have hother := ((savesRight_iff h.isTrash_current).mp h.right).2
    rw [lookup_ne heq, hother _ (trashes.absolute 0 trashes.zero_mem) heq]
    exact hcareful fun hzero => heq hzero.symm

lemma defaults (h : Inv trashes s) (hcareful : Careful trashes s .defaults) :
    Inv trashes (defaultTrash trashes s) := by
  have hentry := h.defaults_entry hcareful
  refine ⟨h.defaults_right_iff.mpr hcareful, Or.inr rfl, h.selected, ?_, ?_⟩
  · rw [defaultTrash_widgets, hentry]
    exact hentry
  · rw [defaultTrash_map]
    exact hentry

lemma save (h : Inv trashes s) : Inv trashes (Trash.save s) := by
  have hcurrent := h.isTrash_current
  obtain ⟨hself, hother⟩ := (savesRight_iff hcurrent).mp h.right
  have hmap : (Trash.save s).mConfigMap = keepWidgets s := if_pos (isTrash_ne_nil hcurrent)
  refine ⟨?_, h.current, h.selected, h.widgets, ?_⟩
  · rw [savesRight_iff (s := Trash.save s) hcurrent, hmap]
    exact ⟨hself, fun trash htrash hne => (lookup_ne hne).trans (hother trash htrash hne)⟩
  · rw [hmap]
    change shown (lookup (keepWidgets s) s.mCurrentTrash) = lookup (keepWidgets s) s.mCurrentTrash
    rw [keepWidgets, lookup_self]
    exact h.widgets

variable {e : Event}

lemma step {t : TrashConfigModule} (h : Inv trashes s) (he : Careful trashes s e)
    (hstep : Trash.step trashes s e = some t) : Inv trashes t := by
  cases e with
  | select key =>
    unfold Trash.step at hstep
    dsimp only at hstep
    split_ifs at hstep with hkey hsame
    · obtain rfl := Option.some.inj hstep
      exact h
    · obtain rfl := Option.some.inj hstep
      obtain ⟨hleft, hshown⟩ := he hkey hsame
      exact h.select hkey hleft hshown
  | edit entry =>
    unfold Trash.step at hstep
    dsimp only at hstep
    split_ifs at hstep with hedit
    obtain rfl := Option.some.inj hstep
    exact h.edit hedit.1 hedit.2 (he hedit.1 hedit.2)
  | defaults =>
    obtain rfl := Option.some.inj hstep
    exact h.defaults he
  | save =>
    obtain rfl := Option.some.inj hstep
    exact h.save

lemma step_bad (h : Inv trashes s) (he : ¬ Careful trashes s e) :
    ∃ t, Trash.step trashes s e = some t ∧ ¬ SavesRight t := by
  cases e with
  | select key =>
    simp only [Careful, Classical.not_imp] at he
    obtain ⟨hkey, hsame, hnot⟩ := he
    refine ⟨selectTrash trashes s key, ?_, fun hright => hnot ?_⟩
    · unfold Trash.step
      dsimp only
      rw [if_pos hkey, if_neg hsame]
    · exact (h.select_right_iff hkey).mp hright
  | edit entry =>
    simp only [Careful, Classical.not_imp] at he
    obtain ⟨hshown, hedit, hnot⟩ := he
    exact ⟨editTrash trashes s entry, if_pos ⟨hshown, hedit⟩,
      fun hright => hnot ((h.edit_right_iff hedit).mp hright)⟩
  | defaults =>
    exact ⟨defaultTrash trashes s, rfl, fun hright => he (h.defaults_right_iff.mp hright)⟩
  | save => exact absurd trivial he

end Inv

/-! ### Every run -/

section run

variable (trashes : Trashes) (config : KConfig)

lemma start_widgets : (start trashes config).widgets =
    shown (stored config (trashes.m_trashMap 0)) := by
  change (trashChanged trashes
    ⟨config, readConfig config, [], false, defaultEntry, 0, stored config⟩ 0).widgets = _
  rw [trashChanged_widgets, ← lookup_readConfig (trashes.absolute 0 trashes.zero_mem)]
  rfl

lemma start_right_iff : SavesRight (start trashes config) ↔
    shown (stored config (trashes.m_trashMap 0)) = stored config (trashes.m_trashMap 0) := by
  have hfirst : isTrash (trashes.m_trashMap 0) = true := trashes.absolute 0 trashes.zero_mem
  rw [savesRight_iff (s := start trashes config) hfirst, start_widgets]
  change _ ∧ (∀ trash, isTrash trash → trash ≠ trashes.m_trashMap 0 →
    lookup (readConfig config) trash = stored config trash) ↔ _
  constructor
  · rintro ⟨hwidgets, _⟩
    exact hwidgets
  · intro hshown
    exact ⟨hshown, fun trash htrash _ => lookup_readConfig htrash⟩

lemma inv_start
    (h : shown (stored config (trashes.m_trashMap 0)) = stored config (trashes.m_trashMap 0)) :
    Inv trashes (start trashes config) := by
  have hfirst : isTrash (trashes.m_trashMap 0) = true := trashes.absolute 0 trashes.zero_mem
  refine ⟨(start_right_iff trashes config).mpr h, Or.inl rfl, trashes.zero_mem, ?_, ?_⟩
  · rw [start_widgets, h]
    exact h
  · change shown (lookup (readConfig config) (trashes.m_trashMap 0)) =
      lookup (readConfig config) (trashes.m_trashMap 0)
    rw [lookup_readConfig hfirst]
    exact h

/-- **Saving is right at every moment of a run** if and only if the widgets can show what is stored
for the first trash, and all steps are careful. -/
theorem saves_right_iff (es : List Event) :
    (∀ before s, before <+: es → run (step trashes) (start trashes config) before = some s →
      SavesRight s) ↔
      shown (stored config (trashes.m_trashMap 0)) = stored config (trashes.m_trashMap 0) ∧
        AllSteps (step trashes) (Careful trashes) (start trashes config) es := by
  have hiff := fun h => prefixes_iff (P := Careful trashes)
    (fun s (hs : Inv trashes s) => hs.right) (fun _ _ _ hs he hstep => hs.step he hstep)
    (fun _ _ hs he => hs.step_bad he) (inv_start trashes config h) es
  constructor
  · intro hall
    have hstart := (start_right_iff trashes config).mp (hall [] _ List.nil_prefix rfl)
    exact ⟨hstart, (hiff hstart).mp hall⟩
  · rintro ⟨hstart, hcareful⟩
    exact (hiff hstart).mpr hcareful

end run

def twoTrashes : Trashes where
  m_trashMap key := if key = 0 then "/home".toList else "/disk".toList
  keys := [0, 1]
  zero_mem := List.mem_cons_self
  absolute := by decide

def monthly : ConfigEntry := { defaultEntry with useTimeLimit := true, days := 30 }

/-- What is set for the second trash after its defaults were asked for is stored for the first. -/
theorem defaults_mix_up : ¬ ∀ (trashes : Trashes) (config : KConfig) (es : List Event),
    ∀ before s, before <+: es → run (step trashes) (start trashes config) before = some s →
      SavesRight s := by
  intro hall
  let s := defaultTrash twoTrashes (selectTrash twoTrashes (start twoTrashes fun _ => none) 1)
  have hshown : shown monthly = monthly ∧ monthly ≠ s.widgets := by
    refine ⟨?_, fun heq => ?_⟩
    · norm_num [shown, monthly, defaultEntry, toRange, roundPercent]
    · exact Bool.noConfusion (congrArg ConfigEntry.useTimeLimit heq)
  have hedit : step twoTrashes s (.edit monthly) = some (editTrash twoTrashes s monthly) :=
    if_pos hshown
  have hright := hall twoTrashes (fun _ => none) [.select 1, .defaults, .edit monthly] _ _
    (List.prefix_refl _) (by
      change (step twoTrashes s (.edit monthly)).bind (fun t => some t) = _
      rw [hedit]
      rfl)
  have hdays : (30 : ℤ) = 7 := congrArg ConfigEntry.days (hright "/home".toList (by decide))
  exact absurd hdays (by decide)

end KioExtras.Kcms.Trash
