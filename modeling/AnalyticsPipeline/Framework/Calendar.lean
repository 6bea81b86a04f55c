import Mathlib.Order.Basic
import Mathlib.Order.Lattice
import Mathlib.Data.Nat.Notation
import Mathlib.Data.Int.Notation
import Mathlib.Tactic.SplitIfs

/-!
# Civil time

A `DateTime` is a date and time of day of the proleptic Gregorian calendar, in
UTC, with the ranges Python's `datetime` enforces as fields. It is ordered by
the instant it denotes (`micros`, microseconds counted from the ordinal of the
date), which is the lexicographic order of its fields.
-/

namespace Framework

def isLeap (y : ℕ) : Bool := y % 4 = 0 && (y % 100 ≠ 0 || y % 400 = 0)

/-- Month `0` stands for "before January" in `daysBeforeMonth`. -/
def daysInMonth (y : ℕ) : ℕ → ℕ
  | 0 => 0
  | 2 => if isLeap y then 29 else 28
  | 4 => 30
  | 6 => 30
  | 9 => 30
  | 11 => 30
  | _ => 31

def daysBeforeMonth (y : ℕ) : ℕ → ℕ
  | 0 => 0
  | m + 1 => daysBeforeMonth y m + daysInMonth y m

def daysInYear (y : ℕ) : ℕ := if isLeap y then 366 else 365

def daysBeforeYear (y : ℕ) : ℕ :=
  (y - 1) * 365 + (y - 1) / 4 - (y - 1) / 100 + (y - 1) / 400

theorem isLeap_iff (y : ℕ) :
    isLeap y = true ↔ 4 ∣ y ∧ (¬ 100 ∣ y ∨ 400 ∣ y) := by
  simp [isLeap, Nat.dvd_iff_mod_eq_zero]

theorem daysBeforeYear_succ {y : ℕ} (h : 1 ≤ y) :
    daysBeforeYear (y + 1) = daysBeforeYear y + daysInYear y := by
  obtain ⟨n, rfl⟩ : ∃ n, y = n + 1 := ⟨y - 1, by omega⟩
  have h₄ : 100 ∣ n + 1 → 4 ∣ n + 1 := Nat.dvd_trans (by decide)
  have h₁₀₀ : 400 ∣ n + 1 → 100 ∣ n + 1 := Nat.dvd_trans (by decide)
  have hle : n / 100 ≤ n / 4 := Nat.div_le_div_left (by decide) (by decide)
  simp only [daysBeforeYear, daysInYear, isLeap_iff, Nat.add_sub_cancel,
    Nat.succ_div]
  generalize n / 4 = q at *
  generalize n / 100 = c at *
  generalize n / 400 = r at *
  split_ifs <;> omega

theorem daysBeforeYear_mono {y y' : ℕ} (h : 1 ≤ y) (hle : y ≤ y') :
    daysBeforeYear y ≤ daysBeforeYear y' := by
  induction hle with
  | refl => exact Nat.le_refl _
  | @step n hle ih =>
      rw [Nat.succ_eq_add_one, daysBeforeYear_succ (Nat.le_trans h hle)]
      omega

theorem daysBeforeMonth_mono {y m m' : ℕ} (hle : m ≤ m') :
    daysBeforeMonth y m ≤ daysBeforeMonth y m' := by
  induction hle with
  | refl => exact Nat.le_refl _
  | step _ ih => exact Nat.le_trans ih (Nat.le_add_right _ _)

theorem daysInMonth_le (y m : ℕ) : daysInMonth y m ≤ 31 := by
  unfold daysInMonth
  split <;> first | omega | split_ifs <;> omega

theorem one_le_daysInMonth {y m : ℕ} (h : m ≠ 0) : 1 ≤ daysInMonth y m := by
  unfold daysInMonth
  split <;> first | omega | split_ifs <;> omega

theorem daysBeforeMonth_thirteen (y : ℕ) :
    daysBeforeMonth y 13 = daysInYear y := by
  simp only [daysBeforeMonth, daysInMonth, daysInYear]
  split <;> rfl

structure DateTime where
  year : ℕ
  month : ℕ
  day : ℕ
  hour : ℕ
  minute : ℕ
  second : ℕ
  microsecond : ℕ
  year_range : 1 ≤ year ∧ year ≤ 9999
  month_range : 1 ≤ month ∧ month ≤ 12
  day_range : 1 ≤ day ∧ day ≤ daysInMonth year month
  time_range : hour < 24 ∧ minute < 60 ∧ second < 60 ∧ microsecond < 1000000
deriving DecidableEq

/-- `datetime.min` -/
instance DateTime.instInhabited : Inhabited DateTime :=
  ⟨⟨1, 1, 1, 0, 0, 0, 0, by decide, by decide, by decide, by decide⟩⟩

namespace DateTime

/-- `date.toordinal`: days since 0001-01-01, which is day 1. -/
def ordinal (t : DateTime) : ℕ :=
  daysBeforeYear t.year + daysBeforeMonth t.year t.month + t.day

def timeOfDay (t : DateTime) : ℕ :=
  ((t.hour * 60 + t.minute) * 60 + t.second) * 1000000 + t.microsecond

def dayMicros : ℕ := 86400000000

def micros (t : DateTime) : ℕ := t.ordinal * dayMicros + t.timeOfDay

theorem timeOfDay_lt (t : DateTime) : t.timeOfDay < dayMicros := by
  obtain ⟨h₁, h₂, h₃, h₄⟩ := t.time_range
  simp only [timeOfDay, dayMicros]
  omega

theorem daysBeforeMonth_lt_ordinal (t : DateTime) :
    daysBeforeYear t.year + daysBeforeMonth t.year t.month < t.ordinal := by
  have := t.day_range.1
  simp only [ordinal]
  omega

theorem ordinal_le_daysBeforeMonth_succ (t : DateTime) :
    t.ordinal ≤
      daysBeforeYear t.year + daysBeforeMonth t.year (t.month + 1) := by
  have := t.day_range.2
  simp only [ordinal, daysBeforeMonth]
  omega

theorem ordinal_le_daysBeforeYear_succ (t : DateTime) :
    t.ordinal ≤ daysBeforeYear (t.year + 1) := by
  have hmonth := t.ordinal_le_daysBeforeMonth_succ
  have hle : daysBeforeMonth t.year (t.month + 1) ≤
      daysBeforeMonth t.year 13 :=
    daysBeforeMonth_mono (by have := t.month_range.2; omega)
  rw [daysBeforeMonth_thirteen] at hle
  rw [daysBeforeYear_succ t.year_range.1]
  omega

theorem ordinal_lt_of_year_lt {t u : DateTime} (h : t.year < u.year) :
    t.ordinal < u.ordinal := by
  have ht := t.ordinal_le_daysBeforeYear_succ
  have hu := u.daysBeforeMonth_lt_ordinal
  have hmono : daysBeforeYear (t.year + 1) ≤ daysBeforeYear u.year :=
    daysBeforeYear_mono (by omega) (by omega)
  omega

theorem ordinal_lt_of_month_lt {t u : DateTime} (hy : t.year = u.year)
    (h : t.month < u.month) : t.ordinal < u.ordinal := by
  have ht := t.ordinal_le_daysBeforeMonth_succ
  have hu := u.daysBeforeMonth_lt_ordinal
  have hmono : daysBeforeMonth u.year (t.month + 1) ≤
      daysBeforeMonth u.year u.month := daysBeforeMonth_mono h
  rw [hy] at ht
  omega

theorem ordinal_eq_iff {t u : DateTime} : t.ordinal = u.ordinal ↔
    t.year = u.year ∧ t.month = u.month ∧ t.day = u.day := by
  constructor
  · intro h
    have hy : t.year = u.year := by
      rcases Nat.lt_trichotomy t.year u.year with hlt | heq | hlt
      · have := ordinal_lt_of_year_lt hlt; omega
      · exact heq
      · have := ordinal_lt_of_year_lt hlt; omega
    have hm : t.month = u.month := by
      rcases Nat.lt_trichotomy t.month u.month with hlt | heq | hlt
      · have := ordinal_lt_of_month_lt hy hlt; omega
      · exact heq
      · have := ordinal_lt_of_month_lt hy.symm hlt; omega
    refine ⟨hy, hm, ?_⟩
    simp only [ordinal, hy, hm] at h
    omega
  · rintro ⟨hy, hm, hd⟩
    simp only [ordinal, hy, hm, hd]

/-- A first day comes before the days of its month and of all later ones. -/
theorem first_ordinal_le_iff {s t : DateTime} (hs : s.day = 1) :
    s.ordinal ≤ t.ordinal ↔
      s.year < t.year ∨ s.year = t.year ∧ s.month ≤ t.month := by
  rcases Nat.lt_trichotomy s.year t.year with hlt | heq | hlt
  · have := ordinal_lt_of_year_lt hlt
    omega
  · rcases Nat.lt_or_ge t.month s.month with hm | hm
    · have := ordinal_lt_of_month_lt heq.symm hm
      omega
    · have hmono : daysBeforeMonth t.year s.month ≤
          daysBeforeMonth t.year t.month := daysBeforeMonth_mono hm
      have hday := t.day_range.1
      refine iff_of_true ?_ (.inr ⟨heq, hm⟩)
      simp only [ordinal, heq, hs]
      omega
  · have := ordinal_lt_of_year_lt hlt
    omega

theorem timeOfDay_eq_iff {t u : DateTime} : t.timeOfDay = u.timeOfDay ↔
    t.hour = u.hour ∧ t.minute = u.minute ∧ t.second = u.second ∧
      t.microsecond = u.microsecond := by
  obtain ⟨-, h₂, h₃, h₄⟩ := t.time_range
  obtain ⟨-, k₂, k₃, k₄⟩ := u.time_range
  simp only [timeOfDay]
  constructor
  · intro h
    refine ⟨?_, ?_, ?_, ?_⟩ <;> omega
  · rintro ⟨h₁, h₂, h₃, h₄⟩
    rw [h₁, h₂, h₃, h₄]

theorem micros_injective : Function.Injective micros := by
  intro t u h
  have ht := t.timeOfDay_lt
  have hu := u.timeOfDay_lt
  have hord : t.ordinal = u.ordinal := by
    simp only [micros, dayMicros] at *
    omega
  have htod : t.timeOfDay = u.timeOfDay := by
    simp only [micros, hord] at h
    omega
  obtain ⟨hy, hm, hd⟩ := ordinal_eq_iff.mp hord
  obtain ⟨h₁, h₂, h₃, h₄⟩ := timeOfDay_eq_iff.mp htod
  cases t
  cases u
  simp_all

instance : LinearOrder DateTime :=
  LinearOrder.lift' micros micros_injective

/-! ## Truncation -/

/-- `ts.replace(second=0, microsecond=0)` -/
def truncMinute (t : DateTime) : DateTime :=
  { t with
    second := 0, microsecond := 0
    time_range := ⟨t.time_range.1, t.time_range.2.1, by decide, by decide⟩ }

/-- `ts.replace(minute=0, second=0, microsecond=0)` -/
def truncHour (t : DateTime) : DateTime :=
  { t with
    minute := 0, second := 0, microsecond := 0
    time_range := ⟨t.time_range.1, by decide, by decide, by decide⟩ }

/-- `ts.replace(hour=0, minute=0, second=0, microsecond=0)` -/
def truncDay (t : DateTime) : DateTime :=
  { t with
    hour := 0, minute := 0, second := 0, microsecond := 0
    time_range := by decide }

@[simp] theorem truncDay_truncDay (t : DateTime) :
    t.truncDay.truncDay = t.truncDay := rfl

theorem truncDay_ordinal (t : DateTime) : t.truncDay.ordinal = t.ordinal := rfl

theorem truncDay_micros (t : DateTime) :
    t.truncDay.micros = t.ordinal * dayMicros := by
  have htod : t.truncDay.timeOfDay = 0 := by simp [timeOfDay, truncDay]
  rw [micros, htod, truncDay_ordinal, Nat.add_zero]

theorem truncDay_eq_iff {t u : DateTime} :
    t.truncDay = u.truncDay ↔ t.ordinal = u.ordinal := by
  constructor
  · intro h
    rw [← t.truncDay_ordinal, h, u.truncDay_ordinal]
  · intro h
    apply micros_injective
    rw [truncDay_micros, truncDay_micros, h]

/-- The instants of one day are those that truncate to its midnight. -/
theorem mem_day_iff {s t : DateTime} (hs : s.truncDay = s) :
    (s.micros ≤ t.micros ∧ t.micros < s.micros + dayMicros) ↔
      t.truncDay = s := by
  have ht := t.timeOfDay_lt
  have hmicros : s.micros = s.ordinal * dayMicros := by
    rw [← s.truncDay_micros, hs]
  have hiff : t.truncDay = s ↔ t.ordinal = s.ordinal := by
    rw [← truncDay_eq_iff, hs]
  rw [hiff, hmicros]
  simp only [micros, dayMicros] at *
  omega

/-! ## Constructors -/

/-- `datetime(year, month, day, tzinfo=timezone.utc)`; `none` where Python
raises `ValueError`. -/
def ofDate? (y m d : ℕ) : Option DateTime :=
  if h : (1 ≤ y ∧ y ≤ 9999) ∧ (1 ≤ m ∧ m ≤ 12) ∧ 1 ≤ d ∧ d ≤ daysInMonth y m
  then some ⟨y, m, d, 0, 0, 0, 0, h.1, h.2.1, h.2.2, by decide⟩
  else none

/-- `t.replace(year=…, month=…, day=…)` -/
def replace? (t : DateTime) (y m d : ℕ) : Option DateTime :=
  if h : (1 ≤ y ∧ y ≤ 9999) ∧ (1 ≤ m ∧ m ≤ 12) ∧ 1 ≤ d ∧ d ≤ daysInMonth y m
  then some { t with
    year := y, month := m, day := d
    year_range := h.1, month_range := h.2.1, day_range := h.2.2 }
  else none

/-- The same day at a time given in microseconds. -/
def atTime (t : DateTime) (time : ℕ) : DateTime :=
  { t with
    hour := time / 3600000000 % 24, minute := time / 60000000 % 60
    second := time / 1000000 % 60, microsecond := time % 1000000
    time_range := ⟨Nat.mod_lt _ (Nat.succ_pos 23), Nat.mod_lt _ (Nat.succ_pos 59),
      Nat.mod_lt _ (Nat.succ_pos 59), Nat.mod_lt _ (Nat.succ_pos 999999)⟩ }

/-- The same time of the next day; Python has none after year 9999. -/
def nextDay? (t : DateTime) : Option DateTime :=
  if t.day < daysInMonth t.year t.month then t.replace? t.year t.month (t.day + 1)
  else if t.month < 12 then t.replace? t.year (t.month + 1) 1
  else t.replace? (t.year + 1) 1 1

/-- The same time of the day before; Python has none before year 1. -/
def prevDay? (t : DateTime) : Option DateTime :=
  if 1 < t.day then t.replace? t.year t.month (t.day - 1)
  else if 1 < t.month then
    t.replace? t.year (t.month - 1) (daysInMonth t.year (t.month - 1))
  else t.replace? (t.year - 1) 12 31

/-- `t + timedelta(days=n)` -/
def addDays? : ℕ → DateTime → Option DateTime
  | 0, t => some t
  | n + 1, t => t.nextDay?.bind (addDays? n)

/-- `t - timedelta(days=n)` -/
def subDays? : ℕ → DateTime → Option DateTime
  | 0, t => some t
  | n + 1, t => t.prevDay?.bind (subDays? n)

/-- `t + timedelta(days=i)` -/
def plusDays? (t : DateTime) : ℤ → Option DateTime
  | .ofNat n => t.addDays? n
  | .negSucc n => t.subDays? (n + 1)

/-- `date.max.toordinal()` -/
def maxOrdinal : ℕ := 3652059

theorem ofDate?_eq_some_iff {y m d : ℕ} {t : DateTime} :
    ofDate? y m d = some t ↔
      t.year = y ∧ t.month = m ∧ t.day = d ∧ t.truncDay = t := by
  constructor
  · intro h
    unfold ofDate? at h
    split at h
    · cases h
      exact ⟨rfl, rfl, rfl, rfl⟩
    · cases h
  · rintro ⟨rfl, rfl, rfl, ht⟩
    unfold ofDate?
    rw [dif_pos ⟨t.year_range, t.month_range, t.day_range⟩, ← ht]
    rfl

theorem replace?_eq_some_iff {t s : DateTime} {y m d : ℕ} :
    t.replace? y m d = some s ↔
      s.year = y ∧ s.month = m ∧ s.day = d ∧ s.timeOfDay = t.timeOfDay := by
  constructor
  · intro h
    unfold replace? at h
    split at h
    · cases h
      exact ⟨rfl, rfl, rfl, rfl⟩
    · cases h
  · rintro ⟨rfl, rfl, rfl, htime⟩
    unfold replace?
    rw [dif_pos ⟨s.year_range, s.month_range, s.day_range⟩]
    obtain ⟨h₁, h₂, h₃, h₄⟩ := timeOfDay_eq_iff.mp htime
    congr 1
    cases s
    cases t
    simp_all

theorem replace?_isSome_iff {t : DateTime} {y m d : ℕ} :
    (t.replace? y m d).isSome = true ↔ (1 ≤ y ∧ y ≤ 9999) ∧
      (1 ≤ m ∧ m ≤ 12) ∧ 1 ≤ d ∧ d ≤ daysInMonth y m := by
  unfold replace?
  split <;> simp_all

theorem atTime_ordinal (t : DateTime) (time : ℕ) :
    (t.atTime time).ordinal = t.ordinal := rfl

theorem atTime_timeOfDay (t : DateTime) (time : ℕ) (h : time < dayMicros) :
    (t.atTime time).timeOfDay = time := by
  simp only [dayMicros] at h
  simp only [timeOfDay, atTime]
  omega

/-- The day before, at the same time. -/
theorem prevDay?_ordinal {t s : DateTime} (h : t.prevDay? = some s) :
    s.ordinal + 1 = t.ordinal ∧ s.timeOfDay = t.timeOfDay := by
  have hyear := t.year_range
  have hmonth := t.month_range
  have hday := t.day_range
  unfold prevDay? at h
  split_ifs at h with hd hm <;>
    obtain ⟨hy', hm', hd', htime⟩ := replace?_eq_some_iff.mp h <;>
    refine ⟨?_, htime⟩ <;> simp only [ordinal, hy', hm', hd']
  · omega
  · -- The last day of the month before.
    obtain ⟨n, hn⟩ : ∃ n, t.month = n + 1 := ⟨t.month - 1, by omega⟩
    have hone : t.day = 1 := by omega
    rw [hn, hone, Nat.add_sub_cancel, daysBeforeMonth]
    omega
  · -- The last day of the year before.
    have hone : t.day = 1 := by omega
    have hjanuary : t.month = 1 := by omega
    have hlast := s.year_range
    obtain ⟨n, hn⟩ : ∃ n, t.year = n + 1 := ⟨t.year - 1, by omega⟩
    have hyears := daysBeforeYear_succ (y := n) (by omega)
    have hmonths := daysBeforeMonth_thirteen n
    rw [daysBeforeMonth] at hmonths
    have hdecember : daysInMonth n 12 = 31 := rfl
    have hfirst : daysBeforeMonth (n + 1) 1 = 0 := rfl
    rw [hn, hone, hjanuary, Nat.add_sub_cancel]
    omega

theorem prevDay?_micros {t s : DateTime} (h : t.prevDay? = some s) :
    s.micros + dayMicros = t.micros := by
  obtain ⟨hord, htime⟩ := prevDay?_ordinal h
  unfold micros
  rw [← hord, htime, Nat.add_mul]
  omega

/-- Only the first day of the calendar has no day before. -/
theorem prevDay?_isSome_iff {t : DateTime} :
    t.prevDay?.isSome = true ↔ t.ordinal ≠ 1 := by
  have hyear := t.year_range
  have hmonth := t.month_range
  have hday := t.day_range
  unfold prevDay?
  split_ifs with hd hm <;> rw [replace?_isSome_iff]
  · refine iff_of_true (by omega) ?_
    unfold ordinal
    omega
  · have hlast := one_le_daysInMonth (y := t.year) (m := t.month - 1) (by omega)
    refine iff_of_true (by omega) ?_
    have hjanuary : daysBeforeMonth t.year 2 = 31 := rfl
    have hbefore : daysBeforeMonth t.year 2 ≤ daysBeforeMonth t.year t.month :=
      daysBeforeMonth_mono (by omega)
    unfold ordinal
    omega
  · have hone : t.day = 1 := by omega
    have hjanuary : t.month = 1 := by omega
    have hfirst : daysBeforeMonth t.year 1 = 0 := rfl
    have hdecember : daysInMonth (t.year - 1) 12 = 31 := rfl
    have hzero : daysBeforeYear 1 = 0 := rfl
    have hnext : daysBeforeYear 2 = 365 := rfl
    rw [ordinal, hone, hjanuary, hfirst]
    rcases Nat.lt_or_ge 1 t.year with hlt | hle
    · have : daysBeforeYear 2 ≤ daysBeforeYear t.year :=
        daysBeforeYear_mono (by omega) hlt
      omega
    · have : t.year = 1 := by omega
      rw [this, hzero]
      omega

theorem one_le_ordinal (t : DateTime) : 1 ≤ t.ordinal := by
  have := t.day_range.1
  unfold ordinal
  omega

theorem ordinal_le_maxOrdinal (t : DateTime) : t.ordinal ≤ maxOrdinal := by
  have hyear : daysBeforeYear (t.year + 1) ≤ daysBeforeYear 10000 :=
    daysBeforeYear_mono (by omega) (by have := t.year_range.2; omega)
  have hmax : daysBeforeYear 10000 = maxOrdinal := rfl
  have := t.ordinal_le_daysBeforeYear_succ
  omega

/-- The day after, at the same time. -/
theorem nextDay?_ordinal {t s : DateTime} (h : t.nextDay? = some s) :
    s.ordinal = t.ordinal + 1 ∧ s.timeOfDay = t.timeOfDay := by
  have hmonth := t.month_range
  have hday := t.day_range
  unfold nextDay? at h
  split_ifs at h with hd hm <;>
    obtain ⟨hy', hm', hd', htime⟩ := replace?_eq_some_iff.mp h <;>
    refine ⟨?_, htime⟩ <;> simp only [ordinal, hy', hm', hd']
  · omega
  · rw [daysBeforeMonth]
    omega
  · have hdecember : t.month = 12 := by omega
    have hyears := daysBeforeYear_succ t.year_range.1
    have hmonths := daysBeforeMonth_thirteen t.year
    rw [daysBeforeMonth] at hmonths
    have hfirst : daysBeforeMonth (t.year + 1) 1 = 0 := rfl
    rw [hdecember] at hd ⊢
    rw [hdecember] at hday
    omega

/-- Only the last day of the calendar has no day after. -/
theorem nextDay?_isSome_iff {t : DateTime} :
    t.nextDay?.isSome = true ↔ t.ordinal ≠ maxOrdinal := by
  constructor
  · intro h hmax
    obtain ⟨s, hs⟩ := Option.isSome_iff_exists.mp h
    have hnext := (nextDay?_ordinal hs).1
    have := s.ordinal_le_maxOrdinal
    omega
  · intro hne
    have hyear := t.year_range
    have hmonth := t.month_range
    have hday := t.day_range
    unfold nextDay?
    split_ifs with hd hm <;> rw [replace?_isSome_iff]
    · omega
    · have := one_le_daysInMonth (y := t.year) (m := t.month + 1) (by omega)
      omega
    · refine ⟨⟨by omega, ?_⟩, by omega, le_refl 1, ?_⟩
      · -- Otherwise it is the last day of year 9999.
        by_contra hlast
        have hnine : t.year = 9999 := by omega
        have hdecember : t.month = 12 := by omega
        have hthirtyone : daysInMonth t.year 12 = 31 := rfl
        rw [hdecember, hthirtyone] at hd hday
        have hd31 : t.day = 31 := by omega
        apply hne
        unfold ordinal
        rw [hnine, hdecember, hd31]
        rfl
      · exact one_le_daysInMonth (by omega)

theorem addDays?_ordinal : ∀ {n : ℕ} {t s : DateTime}, t.addDays? n = some s →
    s.ordinal = t.ordinal + n ∧ s.timeOfDay = t.timeOfDay
  | 0, t, s, h => by
      cases h
      exact ⟨rfl, rfl⟩
  | n + 1, t, s, h => by
      obtain ⟨u, hu, hs⟩ := Option.bind_eq_some_iff.mp h
      obtain ⟨hord, htime⟩ := nextDay?_ordinal hu
      obtain ⟨hord', htime'⟩ := addDays?_ordinal hs
      exact ⟨by omega, htime'.trans htime⟩

theorem subDays?_ordinal : ∀ {n : ℕ} {t s : DateTime}, t.subDays? n = some s →
    s.ordinal + n = t.ordinal ∧ s.timeOfDay = t.timeOfDay
  | 0, t, s, h => by
      cases h
      exact ⟨rfl, rfl⟩
  | n + 1, t, s, h => by
      obtain ⟨u, hu, hs⟩ := Option.bind_eq_some_iff.mp h
      obtain ⟨hord, htime⟩ := prevDay?_ordinal hu
      obtain ⟨hord', htime'⟩ := subDays?_ordinal hs
      exact ⟨by omega, htime'.trans htime⟩

theorem exists_addDays? {n : ℕ} {t : DateTime}
    (h : t.ordinal + n ≤ maxOrdinal) : ∃ s, t.addDays? n = some s := by
  induction n generalizing t with
  | zero => exact ⟨t, rfl⟩
  | succ n ih =>
      obtain ⟨u, hu⟩ := Option.isSome_iff_exists.mp
        (nextDay?_isSome_iff (t := t).mpr (by omega))
      have hord := (nextDay?_ordinal hu).1
      obtain ⟨s, hs⟩ := ih (t := u) (by omega)
      exact ⟨s, Option.bind_eq_some_iff.mpr ⟨u, hu, hs⟩⟩

theorem exists_subDays? {n : ℕ} {t : DateTime} (h : n < t.ordinal) :
    ∃ s, t.subDays? n = some s := by
  induction n generalizing t with
  | zero => exact ⟨t, rfl⟩
  | succ n ih =>
      obtain ⟨u, hu⟩ := Option.isSome_iff_exists.mp
        (prevDay?_isSome_iff (t := t).mpr (by omega))
      have hord := (prevDay?_ordinal hu).1
      obtain ⟨s, hs⟩ := ih (t := u) (by omega)
      exact ⟨s, Option.bind_eq_some_iff.mpr ⟨u, hu, hs⟩⟩

theorem plusDays?_ordinal {t s : DateTime} {i : ℤ}
    (h : t.plusDays? i = some s) :
    (s.ordinal : ℤ) = t.ordinal + i ∧ s.timeOfDay = t.timeOfDay := by
  cases i with
  | ofNat n =>
      obtain ⟨hord, htime⟩ := addDays?_ordinal h
      refine ⟨?_, htime⟩
      rw [Int.ofNat_eq_natCast]
      omega
  | negSucc n =>
      obtain ⟨hord, htime⟩ := subDays?_ordinal h
      refine ⟨?_, htime⟩
      rw [Int.negSucc_eq]
      omega

/-- Python reaches exactly the days of its calendar. -/
theorem plusDays?_isSome_iff {t : DateTime} {i : ℤ} :
    (t.plusDays? i).isSome = true ↔
      1 ≤ (t.ordinal : ℤ) + i ∧ (t.ordinal : ℤ) + i ≤ maxOrdinal := by
  constructor
  · intro h
    obtain ⟨s, hs⟩ := Option.isSome_iff_exists.mp h
    have hord := (plusDays?_ordinal hs).1
    have := s.one_le_ordinal
    have := s.ordinal_le_maxOrdinal
    omega
  · rintro ⟨hlow, hhigh⟩
    cases i with
    | ofNat n =>
        rw [Int.ofNat_eq_natCast] at hhigh
        obtain ⟨s, hs⟩ := exists_addDays? (n := n) (t := t) (by omega)
        exact Option.isSome_iff_exists.mpr ⟨s, hs⟩
    | negSucc n =>
        rw [Int.negSucc_eq] at hlow
        obtain ⟨s, hs⟩ := exists_subDays? (n := n + 1) (t := t) (by omega)
        exact Option.isSome_iff_exists.mpr ⟨s, hs⟩

/-- Every month has a first day. -/
theorem exists_ofDate?_first {y m : ℕ} (hy : 1 ≤ y ∧ y ≤ 9999)
    (hm : 1 ≤ m ∧ m ≤ 12) : ∃ t, ofDate? y m 1 = some t := by
  have hday : 1 ≤ daysInMonth y m := one_le_daysInMonth (by omega)
  unfold ofDate?
  rw [dif_pos ⟨hy, hm, le_refl 1, hday⟩]
  exact ⟨_, rfl⟩

end DateTime

/-! ## Offsets -/

/-- A civil time read at a fixed distance from UTC, in microseconds. -/
structure AwareDateTime where
  naive : DateTime
  utcoffset : ℤ
  offset_range : -DateTime.dayMicros < utcoffset ∧ utcoffset < DateTime.dayMicros
deriving DecidableEq

namespace AwareDateTime

/-- Microseconds on the UTC time line. -/
def instant (t : AwareDateTime) : ℤ := t.naive.micros - t.utcoffset

def utc (t : DateTime) : AwareDateTime := ⟨t, 0, by decide⟩

@[simp] theorem instant_utc (t : DateTime) : (utc t).instant = t.micros := by
  simp [instant, utc]

/-- `t.astimezone(timezone.utc)`; `none` where Python raises `OverflowError`. -/
def toUtc? (t : AwareDateTime) : Option DateTime :=
  let time : ℤ := t.naive.timeOfDay - t.utcoffset
  (t.naive.plusDays? (time / DateTime.dayMicros)).map fun day =>
    day.atTime (time % DateTime.dayMicros).toNat

/-- The time in UTC is the same instant. -/
theorem toUtc?_micros {t : AwareDateTime} {u : DateTime} (h : t.toUtc? = some u) :
    (u.micros : ℤ) = t.instant := by
  obtain ⟨day, hday, rfl⟩ := Option.map_eq_some_iff.mp h
  have hordinal := (DateTime.plusDays?_ordinal hday).1
  have htime := day.atTime_timeOfDay
    (((t.naive.timeOfDay : ℤ) - t.utcoffset) % DateTime.dayMicros).toNat
    (by simp only [DateTime.dayMicros]; omega)
  rw [DateTime.micros, DateTime.atTime_ordinal, htime, instant, DateTime.micros]
  simp only [DateTime.dayMicros] at *
  omega

/-- A time has one in UTC when its instant is in the calendar. -/
theorem toUtc?_isSome_iff {t : AwareDateTime} : t.toUtc?.isSome = true ↔
    DateTime.dayMicros ≤ t.instant ∧
      t.instant < (DateTime.maxOrdinal + 1) * DateTime.dayMicros := by
  have hlt := t.naive.timeOfDay_lt
  rw [toUtc?, Option.isSome_map, DateTime.plusDays?_isSome_iff, instant,
    DateTime.micros]
  simp only [DateTime.dayMicros, DateTime.maxOrdinal] at *
  omega

@[simp] theorem toUtc?_utc (t : DateTime) : (utc t).toUtc? = some t := by
  have hsome : (utc t).toUtc?.isSome = true := by
    have hfirst := t.one_le_ordinal
    have hlast := t.ordinal_le_maxOrdinal
    have htime := t.timeOfDay_lt
    rw [toUtc?_isSome_iff, instant_utc, DateTime.micros]
    simp only [DateTime.dayMicros, DateTime.maxOrdinal] at *
    omega
  obtain ⟨u, hu⟩ := Option.isSome_iff_exists.mp hsome
  have hmicros := toUtc?_micros hu
  rw [instant_utc] at hmicros
  rw [hu, DateTime.micros_injective (Int.ofNat_inj.mp hmicros)]

end AwareDateTime

end Framework
