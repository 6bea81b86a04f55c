import AnalyticsPipeline.Guarantees.SuccessRate
import AnalyticsPipeline.Metatheory.Rankings

/-!
# The month of a payment

The worker adds a payment to the sorted set of the month of its timestamp. A
rebuild sums up the day rows from the first instant of the month to that of the
next, both included: the payments of the first day of a month are in two.
-/

namespace AnalyticsPipeline

open Framework

/-- The bounds `get_leaderboard` computes from a period. -/
def PeriodBounds (period : String) (start stop : DateTime) : Prop :=
  (parsePeriod period).bind (fun p => periodBounds p.1 p.2) = some (start, stop)

/-- A request answered while the key of the period is not there, with room for
every merchant that is ranked. -/
def AnswersCold (settings : Settings) (i : ℕ) (w : World) (period : String)
    (a : LeaderboardResponse) : Prop :=
  ∃ redis top_n w', redis.get? (leaderboardKey period) = none ∧
    (∀ start stop, PeriodBounds period start stop →
      (w.db.rankedMerchants start stop).length ≤ pageSize settings top_n) ∧
    Eval (M := services) noFailure i
      (leaderboardRequest settings (some period) top_n) { w with redis } (.ok a)
      w'

/-- The payment is one of those whose amounts the period's volumes sum up. -/
def IncludedIn (db : Db) (period : String) (e : RawEvent) : Prop :=
  ∃ start stop, PeriodBounds period start stop ∧
    e ∈ covered start stop db.markedEvents

section Months

variable {db : Db} {events : List RawEvent} {e : RawEvent}
  {start stop t u : DateTime}

theorem periodBounds_periodKey :
    PeriodBounds (periodKey u) start stop ↔
      MonthBounds u.year u.month start stop := by
  rw [PeriodBounds, parsePeriod_periodKey, Option.bind_some,
    periodBounds_eq_some_iff]

theorem includedIn_iff (he : e ∈ db.markedEvents)
    (hconfirmed : e.event_type = .paymentConfirmed) :
    IncludedIn db (periodKey u) e ↔
      ∃ start stop, MonthBounds u.year u.month start stop ∧
        (periodKey (bucketTs e) = periodKey u ∨
          (bucketTs e).truncDay = stop) := by
  simp only [IncludedIn, periodBounds_periodKey]
  refine exists_congr fun start => exists_congr fun stop => ?_
  refine and_congr_right fun hbounds => ?_
  rw [periodKey_eq_iff, ← hbounds.between_iff u.month_range.2, covered,
    List.mem_filter, decide_eq_true_eq]
  exact ⟨fun h => h.2.1, fun h => ⟨he, h, hconfirmed⟩⟩

/-- A payment is included in its own month. -/
theorem includedIn_own (he : e ∈ db.markedEvents)
    (hconfirmed : e.event_type = .paymentConfirmed)
    (hyear : (bucketTs e).year ≤ 9998) :
    IncludedIn db (periodKey (bucketTs e)) e := by
  obtain ⟨start, stop, hbounds⟩ := exists_monthBounds
    ⟨(bucketTs e).year_range.1, hyear⟩ (bucketTs e).month_range
  exact (includedIn_iff he hconfirmed).mpr ⟨start, stop, hbounds, .inl rfl⟩

/-- A payment of a first day is included in the month before. -/
theorem includedIn_before (he : e ∈ db.markedEvents)
    (hconfirmed : e.event_type = .paymentConfirmed)
    (hu : nextMonth u.year u.month = ((bucketTs e).year, (bucketTs e).month))
    (hday : (bucketTs e).day = 1) (hyear : (bucketTs e).year ≤ 9998) :
    IncludedIn db (periodKey u) e := by
  have huyear : u.year ≤ 9998 := by
    unfold nextMonth at hu
    split at hu <;> obtain ⟨hy', -⟩ := Prod.mk.inj hu <;> omega
  obtain ⟨start, stop, hbounds⟩ := exists_monthBounds
    ⟨u.year_range.1, huyear⟩ u.month_range
  refine (includedIn_iff he hconfirmed).mpr ⟨start, stop, hbounds, .inr ?_⟩
  rw [← hbounds.stop_midnight, DateTime.truncDay_eq_iff,
    DateTime.ordinal_eq_iff, hday, hbounds.stop_day]
  obtain ⟨hy, hm⟩ := Prod.mk.inj (hbounds.stop_month.trans hu)
  exact ⟨hy.symm, hm.symm, rfl⟩

/-- The month before a month. -/
theorem exists_month_before (hyear : 2 ≤ t.year) :
    ∃ u : DateTime, nextMonth u.year u.month = (t.year, t.month) := by
  have hmonth := t.month_range
  have hyears := t.year_range
  by_cases h1 : t.month = 1
  · obtain ⟨u, hu⟩ := DateTime.exists_ofDate?_first (y := t.year - 1) (m := 12)
      (by omega) (by omega)
    obtain ⟨hy, hm, -⟩ := DateTime.ofDate?_eq_some_iff.mp hu
    refine ⟨u, ?_⟩
    rw [nextMonth, if_pos hm, hy, h1]
    exact Prod.ext (by dsimp only; omega) rfl
  · obtain ⟨u, hu⟩ := DateTime.exists_ofDate?_first (y := t.year)
      (m := t.month - 1) (by omega) (by omega)
    obtain ⟨hy, hm, -⟩ := DateTime.ofDate?_eq_some_iff.mp hu
    refine ⟨u, ?_⟩
    rw [nextMonth, if_neg (by omega), hy, hm]
    exact Prod.ext rfl (by dsimp only; omega)

/-- **The first day of a month** is the only one that two months include. -/
theorem included_in_own_month_iff (he : e ∈ db.markedEvents)
    (hconfirmed : e.event_type = .paymentConfirmed)
    (hyear : 1000 ≤ (bucketTs e).year ∧ (bucketTs e).year ≤ 9998) :
    (∀ u, IncludedIn db (periodKey u) e ↔ periodKey u = periodKey (bucketTs e)) ↔
      (bucketTs e).day ≠ 1 := by
  constructor
  · intro hall hday
    obtain ⟨u, hu⟩ := exists_month_before
      (show 2 ≤ (bucketTs e).year by omega)
    have hmonth := (bucketTs e).month_range
    have hother : periodKey u ≠ periodKey (bucketTs e) := by
      rw [Ne, periodKey_eq_iff]
      rintro ⟨hy, hm⟩
      unfold nextMonth at hu
      split at hu <;> obtain ⟨hy', hm'⟩ := Prod.mk.inj hu <;> omega
    exact hother ((hall u).mp (includedIn_before he hconfirmed hu hday hyear.2))
  · intro hday u
    constructor
    · intro hincluded
      obtain ⟨start, stop, hbounds, hmonth⟩ :=
        (includedIn_iff he hconfirmed).mp hincluded
      rcases hmonth with hmonth | hstop
      · exact hmonth.symm
      · exact absurd ((congrArg DateTime.day hstop).trans hbounds.stop_day) hday
    · intro hu
      rw [hu]
      exact includedIn_own he hconfirmed hyear.2

end Months

section Answers

variable {settings : Settings} {i : ℕ} {w : World} {period : String}
  {a : LeaderboardResponse} {start stop : DateTime}

/-- **A cold answer** lists the merchants of the covered payments with the sums
of their amounts. -/
theorem AnswersCold.lists (hagg : Aggregated w.db)
    (hidle : w.txs.get? i = none) (hbounds : PeriodBounds period start stop)
    (h : AnswersCold settings i w period a) :
    Lists (covered start stop w.db.markedEvents)
      (a.entries.map LeaderboardEntry.volume) := by
  obtain ⟨redis, top_n, w', hcold, hroom, he⟩ := h
  obtain ⟨⟨year, month⟩, hparse, hmonth⟩ := Option.bind_eq_some_iff.mp hbounds
  obtain ⟨-, -, -, rows, hrows, hentries, -⟩ := eval_leaderboard_cold
    (w := { w with redis }) hparse (periodBounds_eq_some_iff.mp hmonth) hidle
    hcold he
  have htake : rows.take (pageSize settings top_n) = rows :=
    List.take_of_length_le (hrows.length ▸ hroom start stop hbounds)
  rw [htake] at hentries
  have hvolumes : a.entries.map LeaderboardEntry.volume =
      rows.map LeaderboardRow.volume := by
    rw [(Prod.mk.inj hentries).1, rollupEntries_volume]
  rw [hvolumes]
  exact hagg.rolled.lists hrows

theorem exists_answersCold (settings : Settings) (hidle : w.txs.get? i = none)
    (hbounds : PeriodBounds period start stop) :
    ∃ a, AnswersCold settings i w period a := by
  obtain ⟨⟨year, month⟩, hparse, hmonth⟩ := Option.bind_eq_some_iff.mp hbounds
  let n := (w.db.rankedMerchants start stop).length + 1
  obtain ⟨a, w', he⟩ := @exists_eval_leaderboard_cold _
    { w with redis := ∅ } settings _ (some n) _ _ _ _ hparse
    (periodBounds_eq_some_iff.mp hmonth) hidle rfl (fun _ hget => nomatch hget)
  refine ⟨a, ∅, some n, w', rfl, fun start' stop' hbounds' => ?_, he⟩
  obtain ⟨rfl, rfl⟩ := Prod.mk.inj (Option.some.inj (hbounds.symm.trans hbounds'))
  exact Nat.le_succ _

end Answers

/-- **Every payment belongs to one monthly leaderboard** unless it is dated on
the first day of a month. The volumes of a cold answer are the sums of the
amounts of the payments `IncludedIn` the period, and a payment is included in
the months of its own period key alone if and only if its day is not the
first. -/
theorem payments_in_one_month_iff (merchants : List Merchant)
    {c : Config services PyError}
    (hc : Reach anyConsumers (Config.idle (World.start merchants)) c) :
    (∀ (settings : Settings) (i : ℕ) (period : String) (start stop : DateTime),
      c.world.txs.get? i = none → PeriodBounds period start stop →
      (∃ a, AnswersCold settings i c.world period a) ∧
      ∀ a, AnswersCold settings i c.world period a →
        Lists (covered start stop c.world.db.markedEvents)
          (a.entries.map LeaderboardEntry.volume)) ∧
    ∀ e ∈ c.world.db.markedEvents, e.event_type = .paymentConfirmed →
      1000 ≤ (bucketTs e).year ∧ (bucketTs e).year ≤ 9998 →
      ((∀ u, IncludedIn c.world.db (periodKey u) e ↔
        periodKey u = periodKey (bucketTs e)) ↔ (bucketTs e).day ≠ 1) := by
  refine ⟨fun settings i period start stop hidle hbounds => ⟨?_, ?_⟩, ?_⟩
  · exact exists_answersCold settings hidle hbounds
  · exact fun a ha => ha.lists (reach_aggregated hc) hidle hbounds
  · exact fun e he hconfirmed hyear =>
      included_in_own_month_iff he hconfirmed hyear

/-- A payment of the second of May is in the leaderboard of May alone. -/
theorem payments_in_one_month_iff_second : ∃ merchants,
    ∃ c : Config services PyError,
      Reach anyConsumers (Config.idle (World.start merchants)) c ∧
      ∃ e ∈ c.world.db.markedEvents,
        ∀ u, IncludedIn c.world.db (periodKey u) e ↔
          periodKey u = "2024-05" := by
  obtain ⟨merchants, c, hc, -, e, he, hmarked⟩ :=
    exists_marked_oneCent 7 .paymentConfirmed (Sample.instant 10)
  have hmem : e ∈ c.world.db.markedEvents := hmarked ▸ List.mem_singleton_self e
  have hyear : 1000 ≤ (bucketTs e).year ∧ (bucketTs e).year ≤ 9998 := by
    rw [he.bucket]
    decide
  have hiff := (payments_in_one_month_iff merchants hc).2 e hmem he.event_type
    hyear
  rw [he.bucket] at hiff
  exact ⟨merchants, c, hc, e, hmem, hiff.mpr (by decide)⟩

theorem june_range : 1 ≤ 6 ∧ 6 ≤ 12 := by decide

theorem first_of_june_range : 1 ≤ 1 ∧ 1 ≤ daysInMonth 2024 6 := by decide

/-- The first instant of June. -/
def firstOfJune : DateTime :=
  { (Sample.instant 0).truncDay with
    month := 6, month_range := june_range
    day := 1, day_range := first_of_june_range }

/-- **A payment of the first of June** is in the leaderboard of May. -/
theorem first_of_month_counted_twice : ∃ merchants,
    ∃ c : Config services PyError,
      Reach anyConsumers (Config.idle (World.start merchants)) c ∧
      ∃ e ∈ c.world.db.markedEvents, e.event_type = .paymentConfirmed ∧
        bucketTs e = firstOfJune ∧ periodKey (bucketTs e) = "2024-06" ∧
        ∀ period ∈ ["2024-05", "2024-06"],
          IncludedIn c.world.db period e ∧
          ∃ a, AnswersCold {} 0 c.world period a ∧
            a.entries.map LeaderboardEntry.volume = [(7, 1)] := by
  obtain ⟨merchants, c, hc, hidle, e, he, hmarked⟩ :=
    exists_marked_oneCent 7 .paymentConfirmed firstOfJune
  have hmem : e ∈ c.world.db.markedEvents := hmarked ▸ List.mem_singleton_self e
  have hkey : periodKey (bucketTs e) = "2024-06" := by
    rw [he.bucket]
    decide
  refine ⟨merchants, c, hc, e, hmem, he.event_type, he.bucket, hkey, ?_⟩
  have hincluded : ∀ period ∈ ["2024-05", "2024-06"],
      IncludedIn c.world.db period e := by
    have hyear : (bucketTs e).year ≤ 9998 := by
      rw [he.bucket]
      decide
    intro period hperiod
    rcases List.mem_pair.mp hperiod with rfl | rfl
    · have hbefore := includedIn_before (u := Sample.instant 0) hmem
        he.event_type (by rw [he.bucket]; decide) (by rw [he.bucket]; rfl) hyear
      exact hbefore
    · exact hkey ▸ includedIn_own hmem he.event_type hyear
  intro period hperiod
  obtain ⟨start, stop, hbounds, hcovered⟩ := hincluded period hperiod
  obtain ⟨a, ha⟩ := exists_answersCold (i := 0) {} (hidle 0) hbounds
  have hlists := ha.lists (reach_aggregated hc) (hidle 0) hbounds
  rw [hmarked] at hlists hcovered
  have hone : covered start stop [e] = [e] :=
    List.filter_eq_self.mpr fun e' he' =>
      (List.mem_singleton.mp he') ▸ (List.mem_filter.mp hcovered).2
  rw [hone] at hlists
  refine ⟨hincluded period hperiod, a, ha, ?_⟩
  rw [hlists.singleton, he.merchant_id, he.amount]

end AnalyticsPipeline
