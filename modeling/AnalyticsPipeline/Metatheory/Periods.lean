import AnalyticsPipeline.Model.QueryService

/-!
# Periods

`_period_key` writes the month of a timestamp, `get_leaderboard` reads it back
and takes the first instants of the month and of the next one as bounds.
-/

namespace AnalyticsPipeline

open Framework

/-! ## The text of a month -/

theorem lt_pow_yearWidth {year : ℕ} (h : year ≤ 9999) :
    year < 10 ^ yearWidth year := by
  unfold yearWidth
  split_ifs <;> omega

theorem yearWidth_ne_zero (year : ℕ) : yearWidth year ≠ 0 := by
  unfold yearWidth
  split_ifs <;> decide

theorem yearWidth_le (year : ℕ) : yearWidth year ≤ 4 := by
  unfold yearWidth
  split_ifs <;> decide

/-- **A month is read back.** -/
theorem parsePeriod_yearMonth {year month : ℕ} (hyear : year ≤ 9999)
    (hmonth : month < 100) :
    parsePeriod (yearMonth year month) = some (year, month) := by
  have hy : '-' ∉ pad 10 (yearWidth year) year :=
    hyphen_not_mem_pad (by decide) (by decide)
  have hm : '-' ∉ pad 10 2 month := hyphen_not_mem_pad (by decide) (by decide)
  rw [parsePeriod, yearMonth, String.toList_ofList,
    List.splitOn_append_cons_self, List.splitOn_eq_singleton hy,
    List.splitOn_eq_singleton hm]
  have hyear' := natLiteral?_pad (yearWidth_ne_zero year)
    ((yearWidth_le year).trans (by decide)) (lt_pow_yearWidth hyear)
  have hmonth' := natLiteral?_pad (w := 2) (by decide) (by decide) hmonth
  simp only [List.singleton_append, List.map_cons, List.map_nil, hyear', hmonth']

theorem parsePeriod_periodKey (t : DateTime) :
    parsePeriod (periodKey t) = some (t.year, t.month) := by
  have hmonth := t.month_range.2
  exact parsePeriod_yearMonth t.year_range.2 (by omega)

theorem periodKey_eq_iff {t u : DateTime} :
    periodKey t = periodKey u ↔ t.year = u.year ∧ t.month = u.month := by
  constructor
  · intro h
    have ht := parsePeriod_periodKey t
    rw [h, parsePeriod_periodKey] at ht
    obtain ⟨hy, hm⟩ := Prod.mk.inj (Option.some.inj ht)
    exact ⟨hy.symm, hm.symm⟩
  · rintro ⟨hy, hm⟩
    rw [periodKey, hy, hm]
    rfl

/-! ## The bounds -/

def nextMonth (year month : ℕ) : ℕ × ℕ :=
  if month = 12 then (year + 1, 1) else (year, month + 1)

/-- The first instants of a month and of the next. -/
structure MonthBounds (year month : ℕ) (start stop : DateTime) : Prop where
  start_midnight : start.truncDay = start
  stop_midnight : stop.truncDay = stop
  start_day : start.day = 1
  stop_day : stop.day = 1
  start_month : (start.year, start.month) = (year, month)
  stop_month : (stop.year, stop.month) = nextMonth year month

theorem periodBounds_eq (year month : ℕ) : periodBounds year month =
    (DateTime.ofDate? year month 1).bind fun start =>
      (DateTime.ofDate? (nextMonth year month).1 (nextMonth year month).2 1).bind
        fun stop => some (start, stop) := by
  unfold periodBounds nextMonth
  split <;> rfl

theorem periodBounds_eq_some_iff {year month : ℕ} {start stop : DateTime} :
    periodBounds year month = some (start, stop) ↔
      MonthBounds year month start stop := by
  simp only [periodBounds_eq, Option.bind_eq_some_iff, Option.some.injEq,
    DateTime.ofDate?_eq_some_iff, Prod.mk.injEq]
  constructor
  · rintro ⟨s, ⟨hy, hm, hd, hs⟩, e, ⟨hy', hm', hd', he⟩, rfl, rfl⟩
    exact ⟨hs, he, hd, hd', Prod.ext hy hm, Prod.ext hy' hm'⟩
  · intro h
    obtain ⟨hy, hm⟩ := Prod.mk.inj h.start_month
    exact ⟨start, ⟨hy, hm, h.start_day, h.start_midnight⟩, stop,
      ⟨congrArg Prod.fst h.stop_month, congrArg Prod.snd h.stop_month,
        h.stop_day, h.stop_midnight⟩, rfl, rfl⟩

section Bounds

variable {year month : ℕ} {start stop t : DateTime}

/-- A month has bounds when the next one is in the range of dates. -/
theorem exists_monthBounds (hyear : 1 ≤ year ∧ year ≤ 9998)
    (hmonth : 1 ≤ month ∧ month ≤ 12) :
    ∃ start stop, MonthBounds year month start stop := by
  obtain ⟨start, hstart⟩ := DateTime.exists_ofDate?_first
    (show 1 ≤ year ∧ year ≤ 9999 by omega) hmonth
  have hnext : (1 ≤ (nextMonth year month).1 ∧ (nextMonth year month).1 ≤ 9999) ∧
      1 ≤ (nextMonth year month).2 ∧ (nextMonth year month).2 ≤ 12 := by
    unfold nextMonth
    split <;> dsimp only <;> omega
  obtain ⟨stop, hstop⟩ := DateTime.exists_ofDate?_first hnext.1 hnext.2
  refine ⟨start, stop, periodBounds_eq_some_iff.mp ?_⟩
  rw [periodBounds_eq, hstart, Option.bind_some, hstop]
  rfl

/-- **What the bounds select**: the days of the month, and the first day of the
next. -/
theorem MonthBounds.between_iff (h : MonthBounds year month start stop)
    (hmonth : month ≤ 12) :
    Stmt.between start.micros stop.micros t.truncDay = true ↔
      (t.year = year ∧ t.month = month) ∨ t.truncDay = stop := by
  have hstart := DateTime.first_ordinal_le_iff (t := t) h.start_day
  have hstop := DateTime.first_ordinal_le_iff (t := t) h.stop_day
  have hmicros : ∀ u : DateTime, u.truncDay = u →
      u.micros = u.ordinal * DateTime.dayMicros := fun u hu => by
    rw [← u.truncDay_micros, hu]
  have heq : t.truncDay = stop ↔ t.ordinal = stop.ordinal := by
    rw [← DateTime.truncDay_eq_iff, h.stop_midnight]
  have hbetween : Stmt.between start.micros stop.micros t.truncDay = true ↔
      start.ordinal ≤ t.ordinal ∧ t.ordinal ≤ stop.ordinal := by
    rw [Stmt.between, decide_eq_true_eq, hmicros start h.start_midnight,
      hmicros stop h.stop_midnight, t.truncDay_micros]
    simp only [DateTime.dayMicros]
    omega
  obtain ⟨hsy, hsm⟩ := Prod.mk.inj h.start_month
  have hnext := h.stop_month
  have ht := t.month_range
  rw [hbetween, heq]
  unfold nextMonth at hnext
  split at hnext
  · obtain ⟨hey, hem⟩ := Prod.mk.inj hnext
    omega
  · obtain ⟨hey, hem⟩ := Prod.mk.inj hnext
    omega

/-- Away from first days the bounds select the instants of the month. -/
theorem MonthBounds.between_iff_of_day (h : MonthBounds year month start stop)
    (hmonth : month ≤ 12) (hday : t.day ≠ 1) :
    Stmt.between start.micros stop.micros t = true ↔
      t.year = year ∧ t.month = month := by
  have hstop : t.truncDay ≠ stop := fun heq =>
    hday ((congrArg DateTime.day heq).trans h.stop_day)
  have hordinal : t.ordinal ≠ stop.ordinal := fun heq =>
    hstop ((DateTime.truncDay_eq_iff.mpr heq).trans h.stop_midnight)
  have hmicros : ∀ u : DateTime, u.truncDay = u →
      u.micros = u.ordinal * DateTime.dayMicros := fun u hu => by
    rw [← u.truncDay_micros, hu]
  have htod := t.timeOfDay_lt
  have hsame : Stmt.between start.micros stop.micros t =
      Stmt.between start.micros stop.micros t.truncDay := by
    rw [Stmt.between, Stmt.between, decide_eq_decide, t.truncDay_micros,
      hmicros start h.start_midnight, hmicros stop h.stop_midnight,
      DateTime.micros]
    simp only [DateTime.dayMicros] at htod ⊢
    omega
  rw [hsame, h.between_iff hmonth, or_iff_left hstop]

end Bounds

end AnalyticsPipeline
