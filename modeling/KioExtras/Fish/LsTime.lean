import KioExtras.Fish.Session
import KioExtras.Lib.Calendar

/-!
Times as `ls` prints them, and what the worker makes of them. Both run with `TZ=UTC`.

Of a time in the last six months `ls` leaves out the year and of an older one the time of day. The
worker finds the year; for the time of day it takes its own, and the result is an `int`.
-/

namespace KioExtras.Fish.LsTime

open KioExtras.Lib.Calendar Text

/-! ### Times in UTC -/

def date (dt : DateTime) : Date := ⟨dt.year, dt.month, dt.day⟩

structure Valid (dt : DateTime) : Prop where
  date : (date dt).Valid
  hour : 0 ≤ dt.hour ∧ dt.hour < 24
  minute : 0 ≤ dt.minute ∧ dt.minute < 60
  second : 0 ≤ dt.second ∧ dt.second < 60

def seconds (dt : DateTime) : ℤ :=
  86400 * (date dt).number + 3600 * dt.hour + 60 * dt.minute + dt.second

def gmtime (t : ℤ) : DateTime :=
  let date := dateOf (t / 86400)
  ⟨date.year, date.month, date.day, t % 86400 / 3600, t % 3600 / 60, t % 60⟩

/-- What Qt says of the times after the year 0, which it does not have. -/
def Gregorian (env : Env) : Prop :=
  ∀ dt, Valid dt → 0 < dt.year → env.toSecsSinceEpoch dt = seconds dt

lemma gmtime_valid (t : ℤ) : Valid (gmtime t) where
  date := dateOf_valid _
  hour := by
    change 0 ≤ t % 86400 / 3600 ∧ t % 86400 / 3600 < 24
    omega
  minute := by
    change 0 ≤ t % 3600 / 60 ∧ t % 3600 / 60 < 60
    omega
  second := by
    change 0 ≤ t % 60 ∧ t % 60 < 60
    omega

/-! ### What `ls` prints -/

/-- Half a year of 365.2425 days. -/
def SIX_MONTHS : ℤ := 31556952 / 2

def Recent (now mtime : ℤ) : Prop := mtime ≤ now ∧ now ≤ mtime + SIX_MONTHS

instance (now mtime : ℤ) : Decidable (Recent now mtime) := by
  unfold Recent
  infer_instance

def lsMonth (mtime : ℤ) : Text := monthNames.getD ((gmtime mtime).month - 1).toNat []

def lsDay (mtime : ℤ) : Text := number 10 (gmtime mtime).day.toNat

def lsYear (year : ℤ) : Text :=
  if 0 ≤ year then number 10 year.toNat else '-' :: number 10 (-year).toNat

def lsTime (now mtime : ℤ) : Text :=
  if Recent now mtime then
    padded 2 (gmtime mtime).hour.toNat ++ ':' :: padded 2 (gmtime mtime).minute.toNat
  else lsYear (gmtime mtime).year

/-- The time that is printed: to the minute, or to the day. -/
def shown (now mtime : ℤ) : ℤ :=
  if Recent now mtime then mtime - mtime % 60 else mtime - mtime % 86400

/-! ### Reading it back -/

lemma number_eq_padded (n : ℕ) : number 10 n = padded 0 n := by simp [padded]

lemma toInt_padded {width n : ℕ} (h : (n : ℤ) < 2 ^ 31) : (toInt (padded width n)).getD 0 = n := by
  have hnum : toNumber 32 (padded width n) = some (n : ℤ) := toNumber_padded h
  simp [toInt, hnum]

lemma findIdx_month {m : ℤ} (hpos : 1 ≤ m) (hle : m ≤ 12) :
    monthNames.findIdx? (startsWith · (monthNames.getD (m - 1).toNat [])) = some (m - 1).toNat := by
  interval_cases m <;> rfl

lemma colon_notMem_padded (width n : ℕ) : ':' ∉ padded width n := by
  intro h
  have hdigit := padded_digits h
  revert hdigit
  decide

lemma day_bounds (t : ℤ) : 1 ≤ (gmtime t).day ∧ (gmtime t).day ≤ 31 := by
  have hvalid := (gmtime_valid t).date
  have hpos := hvalid.day_pos
  have hle := hvalid.day_le
  have hleap := leapDay_bounds (date (gmtime t)).year
  have hmonth : daysInMonth (date (gmtime t)).year (date (gmtime t)).month ≤ 31 := by
    unfold daysInMonth
    split_ifs <;> omega
  change 1 ≤ (gmtime t).day at hpos
  change (gmtime t).day ≤ _ at hle
  omega

section fields

variable {env : Env} {now mtime : ℤ}

lemma year_found (h : Recent now mtime) :
    (if (gmtime now).month + 1 < (gmtime mtime).month then (gmtime now).year - 1
      else (gmtime now).year) = (gmtime mtime).year := by
  obtain ⟨hpast, hhalf⟩ := h
  have hmtime := dateOf_valid (mtime / 86400)
  have hnow := dateOf_valid (now / 86400)
  have hle : (dateOf (mtime / 86400)).number ≤ (dateOf (now / 86400)).number := by
    rw [number_dateOf, number_dateOf]
    omega
  have hspan : (dateOf (now / 86400)).number ≤ (dateOf (mtime / 86400)).number + 183 := by
    rw [number_dateOf, number_dateOf]
    unfold SIX_MONTHS at hhalf
    omega
  change (if (dateOf (now / 86400)).month + 1 < (dateOf (mtime / 86400)).month
    then (dateOf (now / 86400)).year - 1 else (dateOf (now / 86400)).year) =
      (dateOf (mtime / 86400)).year
  rcases hmtime.half_year hnow hle hspan with ⟨hyear, hmonth⟩ | ⟨hyear, hmonth⟩
  · rw [if_neg (by omega), hyear]
  · rw [if_pos hmonth, hyear]

lemma month_found (mtime : ℤ) :
    ∃ i : ℕ, monthNames.findIdx? (startsWith · (lsMonth mtime)) = some i ∧
      (i : ℤ) + 1 = (gmtime mtime).month := by
  have hvalid := (gmtime_valid mtime).date
  have hpos : 1 ≤ (gmtime mtime).month := hvalid.month_pos
  refine ⟨_, findIdx_month hpos hvalid.month_le, ?_⟩
  rw [Int.toNat_of_nonneg (by omega), sub_add_cancel]

lemma day_found (mtime : ℤ) : (toInt (lsDay mtime)).getD 0 = (gmtime mtime).day := by
  obtain ⟨hpos, hle⟩ := day_bounds mtime
  rw [lsDay, number_eq_padded, toInt_padded] <;> omega

lemma toSecs_of_date (h : Gregorian env) (hyear : 0 < (gmtime mtime).year)
    {hour minute second : ℤ} (hhour : 0 ≤ hour ∧ hour < 24) (hminute : 0 ≤ minute ∧ minute < 60)
    (hsecond : 0 ≤ second ∧ second < 60) :
    env.toSecsSinceEpoch { gmtime mtime with hour := hour, minute := minute, second := second } =
      mtime - mtime % 86400 + 3600 * hour + 60 * minute + second := by
  rw [h { gmtime mtime with hour := hour, minute := minute, second := second }
    ⟨(gmtime_valid mtime).date, hhour, hminute, hsecond⟩ hyear]
  change 86400 * (dateOf (mtime / 86400)).number + 3600 * hour + 60 * minute + second = _
  rw [number_dateOf]
  omega

lemma makeTimeFromLs_recent (h : Gregorian env) (hnow : env.currentDateTime = gmtime now)
    (hrecent : Recent now mtime) (hyear : 0 < (gmtime mtime).year) :
    makeTimeFromLs env (lsMonth mtime) (lsDay mtime) (lsTime now mtime) =
      narrow (mtime - mtime % 60) := by
  obtain ⟨hh, hh'⟩ := (gmtime_valid mtime).hour
  obtain ⟨hm, hm'⟩ := (gmtime_valid mtime).minute
  set hours := padded 2 (gmtime mtime).hour.toNat with hhours
  set minutes := padded 2 (gmtime mtime).minute.toNat with hminutes
  have hcolon : indexOf ':' 0 (hours ++ ':' :: minutes) = some hours.length := by
    have hsplit := indexOf_split [] (colon_notMem_padded 2 (gmtime mtime).hour.toNat) minutes
    simpa using hsplit
  have htake : (toInt ((hours ++ ':' :: minutes).take hours.length)).getD 0 =
      (gmtime mtime).hour := by
    rw [List.take_left, hhours, toInt_padded] <;> omega
  have hdrop : (toInt ((hours ++ ':' :: minutes).drop (hours.length + 1))).getD 0 =
      (gmtime mtime).minute := by
    have hrest : (hours ++ ':' :: minutes).drop (hours.length + 1) = minutes := by
      simp [List.drop_append]
    rw [hrest, hminutes, toInt_padded] <;> omega
  obtain ⟨i, hi, hmonth⟩ := month_found mtime
  unfold makeTimeFromLs
  simp only [hi, hmonth, day_found, hnow, lsTime, if_pos hrecent, ← hhours, ← hminutes, hcolon,
    htake, hdrop, year_found hrecent]
  congr 1
  refine (toSecs_of_date h hyear ⟨hh, hh'⟩ ⟨hm, hm'⟩ ⟨le_rfl, by decide⟩).trans ?_
  have hhour : (gmtime mtime).hour = mtime % 86400 / 3600 := rfl
  have hminute : (gmtime mtime).minute = mtime % 3600 / 60 := rfl
  rw [hhour, hminute]
  omega

lemma lsYear_read {year : ℤ} (hlow : 1000 ≤ year) (hhigh : year ≤ 9999) :
    (lsYear year).length = 4 ∧ indexOf ':' 0 (lsYear year) = none ∧
      (toInt (lsYear year)).getD 0 = year := by
  have hyear : lsYear year = padded 0 year.toNat := by
    rw [lsYear, if_pos (by omega), number_eq_padded]
  have hle : (number 10 year.toNat).length ≤ 4 :=
    (Nat.length_toDigits_le_iff (by decide) (by decide)).mpr (by omega)
  have hlt : ¬ (number 10 year.toNat).length ≤ 3 := by
    intro h
    have hsmall := (Nat.length_toDigits_le_iff (by decide) (by decide)).mp h
    omega
  refine ⟨?_, ?_, ?_⟩
  · rw [hyear, ← number_eq_padded]
    omega
  · have hnone : (padded 0 year.toNat).findIdx? (· = ':') = none := by
      rw [List.findIdx?_eq_none_iff]
      intro c hc
      have hne : c ≠ ':' := by
        rintro rfl
        exact colon_notMem_padded 0 _ hc
      simpa using hne
    rw [hyear, indexOf, List.drop_zero, hnone]
    rfl
  · rw [hyear, toInt_padded] <;> omega

lemma makeTimeFromLs_older (h : Gregorian env) (hnow : env.currentDateTime = gmtime now)
    (hrecent : ¬ Recent now mtime) (hlow : 1000 ≤ (gmtime mtime).year)
    (hhigh : (gmtime mtime).year ≤ 9999) :
    makeTimeFromLs env (lsMonth mtime) (lsDay mtime) (lsTime now mtime) =
      narrow (mtime - mtime % 86400 + now % 86400) := by
  obtain ⟨hlength, hcolon, hyear⟩ := lsYear_read hlow hhigh
  have hvalid := gmtime_valid now
  obtain ⟨i, hi, hmonth⟩ := month_found mtime
  unfold makeTimeFromLs
  simp only [hi, hmonth, day_found, hnow, lsTime, if_neg hrecent, hcolon, hlength, if_true, hyear]
  congr 1
  refine (toSecs_of_date h (by omega) hvalid.hour hvalid.minute hvalid.second).trans ?_
  have hhour : (gmtime now).hour = now % 86400 / 3600 := rfl
  have hminute : (gmtime now).minute = now % 3600 / 60 := rfl
  have hsecond : (gmtime now).second = now % 60 := rfl
  rw [hhour, hminute, hsecond]
  omega

end fields

/-! ### What the worker makes of it -/

def FitsInt (n : ℤ) : Prop := -2 ^ 31 ≤ n ∧ n < 2 ^ 31

lemma narrow_fits (n : ℤ) : FitsInt (narrow n) := by
  have hlow := Int.le_bmod (x := n) (m := 2 ^ 32) (by decide)
  have hhigh := Int.bmod_lt (x := n) (m := 2 ^ 32) (by decide)
  unfold FitsInt narrow
  norm_num at hlow hhigh ⊢
  omega

/-- Less than a day behind a time, the `int` is that time only if it is that time. -/
lemma narrow_add_eq {n d : ℤ} (h : FitsInt n) (hpos : 0 ≤ d) (hlt : d < 86400) :
    narrow (n + d) = n ↔ d = 0 := by
  unfold FitsInt at h
  unfold narrow
  rw [Int.bmod_eq_iff (by decide)]
  norm_num at h ⊢
  omega

lemma makeTimeFromLs_fits (env : Env) (monthStr dayStr timeyearStr : Text) :
    FitsInt (makeTimeFromLs env monthStr dayStr timeyearStr) := by
  unfold makeTimeFromLs
  dsimp only
  split
  · split
    · exact narrow_fits _
    · exact ⟨by norm_num, by norm_num⟩
  · exact narrow_fits _

/-- A time that an `int` holds is in the twentieth or the twenty-first century. -/
lemma year_of_fits {now mtime : ℤ} (h : FitsInt (shown now mtime)) :
    1900 ≤ (gmtime mtime).year ∧ (gmtime mtime).year ≤ 2100 := by
  have hbounds := (dateOf_valid (mtime / 86400)).year_bounds
  rw [number_dateOf] at hbounds
  have hday : -24856 ≤ mtime / 86400 ∧ mtime / 86400 ≤ 24856 := by
    unfold FitsInt shown at h
    split_ifs at h <;> norm_num at h <;> omega
  change 1900 ≤ (dateOf (mtime / 86400)).year ∧ (dateOf (mtime / 86400)).year ≤ 2100
  generalize (dateOf (mtime / 86400)).year = year at hbounds
  unfold yearStart at hbounds
  omega

/-- **When the time is right.** It has to fit into an `int`, and where `ls` prints no time of day
it has to be midnight now. -/
theorem makeTimeFromLs_right_iff {env : Env} {now : ℤ} (h : Gregorian env)
    (hnow : env.currentDateTime = gmtime now) (mtime : ℤ) :
    makeTimeFromLs env (lsMonth mtime) (lsDay mtime) (lsTime now mtime) = shown now mtime ↔
      FitsInt (shown now mtime) ∧ (Recent now mtime ∨ now % 86400 = 0) := by
  by_cases hfits : FitsInt (shown now mtime)
  · obtain ⟨hlow, hhigh⟩ := year_of_fits hfits
    rw [and_iff_right hfits]
    by_cases hrecent : Recent now mtime
    · rw [makeTimeFromLs_recent h hnow hrecent (by omega)]
      rw [shown, if_pos hrecent] at hfits ⊢
      refine iff_of_true ?_ (Or.inl hrecent)
      simpa using (narrow_add_eq hfits le_rfl (by decide)).mpr rfl
    · rw [makeTimeFromLs_older h hnow hrecent (by omega) (by omega), or_iff_right hrecent]
      rw [shown, if_neg hrecent] at hfits ⊢
      exact narrow_add_eq hfits (by omega) (by omega)
  · refine iff_of_false (fun heq => hfits ?_) fun hboth => hfits hboth.1
    rw [← heq]
    exact makeTimeFromLs_fits env _ _ _

/-- A calendar, and a time for the present. -/
def clockEnv (now : ℤ) : Env :=
  { asciiEnv with currentDateTime := gmtime now, toSecsSinceEpoch := seconds }

lemma clockEnv_gregorian (now : ℤ) : Gregorian (clockEnv now) := fun _ _ _ => rfl

/-- A file of July, seen on New Year's Day. -/
theorem july_seen_in_january :
    makeTimeFromLs (clockEnv 1704103200) (lsMonth 1690000000) (lsDay 1690000000)
      (lsTime 1704103200 1690000000) = shown 1704103200 1690000000 :=
  (makeTimeFromLs_right_iff (clockEnv_gregorian 1704103200) rfl 1690000000).mpr
    ⟨⟨by decide, by decide⟩, Or.inl (by decide)⟩

/-- A file of the year 2020, seen in the evening of a day in 2023. -/
theorem evening_kept : ¬ ∀ (env : Env) (now mtime : ℤ), Gregorian env →
    env.currentDateTime = gmtime now →
    makeTimeFromLs env (lsMonth mtime) (lsDay mtime) (lsTime now mtime) = shown now mtime := by
  intro h
  have hright := h (clockEnv 1700000000) 1700000000 1600000000 (clockEnv_gregorian _) rfl
  rw [makeTimeFromLs_older (clockEnv_gregorian _) rfl (by decide) (by decide) (by decide)] at hright
  exact absurd hright (by decide)

end KioExtras.Fish.LsTime
