import AnalyticsPipeline.Guarantees.SuccessRate
import AnalyticsPipeline.Metatheory.Amounts

/-!
# Wider ranges

A wider range may be answered from a coarser table. Its first bucket then starts
before the range does and is left out, with events that a narrower range, still
answered from the finer table, counts.
-/

namespace AnalyticsPipeline

open Framework

section Coarser

variable {g g' : RollupGranularity} {t : DateTime}

theorem truncate_truncate (h : g.width ≤ g'.width) :
    g'.truncate (g.truncate t) = g'.truncate t := by
  cases g <;> cases g' <;> first | rfl | exact absurd h (by decide)

theorem truncate_le_truncate (h : g.width ≤ g'.width) :
    (g'.truncate t).micros ≤ (g.truncate t).micros := by
  rw [← truncate_truncate h]
  exact truncate_le g' (g.truncate t)

theorem minute_width_le (g : RollupGranularity) :
    RollupGranularity.minute.width ≤ g.width := by
  cases g <;> decide

theorem width_le_day (g : RollupGranularity) :
    g.width ≤ RollupGranularity.day.width := by
  cases g <;> decide

/-- The wider the range, the longer the buckets. -/
theorem selectGranularity_mono {settings : Settings}
    {start stop start' stop' : AwareDateTime}
    (h : stop.instant - start.instant ≤ stop'.instant - start'.instant) :
    (selectGranularity settings start stop).1.width ≤
      (selectGranularity settings start' stop').1.width := by
  simp only [selectGranularity]
  generalize stop.instant - start.instant = range at h ⊢
  generalize stop'.instant - start'.instant = range' at h ⊢
  by_cases h₁ : range ≤ 3 * hourMicros
  · rw [if_pos h₁]
    exact minute_width_le _
  · rw [if_neg h₁, if_neg fun h' => h₁ (h.trans h')]
    by_cases h₂ : range ≤ 720 * hourMicros
    · rw [if_pos h₂]
      split_ifs
      · exact le_refl _
      · exact width_le_day _
    · rw [if_neg h₂, if_neg fun h' => h₂ (h.trans h')]

end Coarser

/-- The answer over the second range has at least the totals of the first. -/
def NeverLoses (settings : Settings) (start stop start' stop' : AwareDateTime) :
    Prop :=
  ∀ (merchants : List Merchant) (c : Config services PyError),
    Reach anyConsumers (Config.idle (World.start merchants)) c →
    ∀ (i : ℕ) (m : UUID) (a a' : MetricsResponse), c.world.txs.get? i = none →
      AnswersMiss settings i c.world m start stop a →
      AnswersMiss settings i c.world m start' stop' a' →
      a.total_count ≤ a'.total_count ∧
        a.total_volume_cents ≤ a'.total_volume_cents

section Widening

variable {settings : Settings} {start stop start' stop' : AwareDateTime}

/-- Counting more instants, a range scans more events. -/
theorem scanned_sublist {g g' : RollupGranularity} {m : UUID}
    {start stop start' stop' : ℤ} (events : List RawEvent)
    (h : ∀ t, Counted g start stop t → Counted g' start' stop' t) :
    (scanned g m start stop events).Sublist
      (scanned g' m start' stop' events) := by
  refine List.monotone_filter_right _ fun e he => ?_
  rw [decide_eq_true_eq, between_iff] at he ⊢
  exact ⟨he.1, h (bucketTs e) he.2⟩

/-- What bounds a range above bounds a wider one. -/
theorem counted_of_start_le (hstart : start'.instant ≤ start.instant)
    (hstop : stop.instant ≤ stop'.instant) {t : DateTime}
    (ht : Counted (selectGranularity settings start stop).1 start.instant
      stop.instant t)
    (hle : start'.instant ≤
      ((selectGranularity settings start' stop').1.truncate t).micros) :
    Counted (selectGranularity settings start' stop').1 start'.instant
      stop'.instant t := by
  have hwidth := @selectGranularity_mono settings _ _ _ _
    (show stop.instant - start.instant ≤ stop'.instant - start'.instant by omega)
  have htrunc := truncate_le_truncate (t := t) hwidth
  refine ⟨hle, ?_⟩
  have hstop' := ht.2
  omega

/-- **Widening loses nothing** if and only if every bucket that the narrow range
counts lies in a bucket of the wide range's table that does not start before the
wide range, or one of the two misses is not answered at all. -/
theorem widening_never_loses_iff (hstart : start'.instant ≤ start.instant)
    (hstop : stop.instant ≤ stop'.instant) :
    NeverLoses settings start stop start' stop' ↔
      (selectGranularity settings start stop).2 = 0 ∨
      (selectGranularity settings start' stop').2 = 0 ∨
      ∀ t, Counted (selectGranularity settings start stop).1 start.instant
          stop.instant t →
        start'.instant ≤
          ((selectGranularity settings start' stop').1.truncate t).micros := by
  classical
  constructor
  · intro hlaw
    by_contra hno
    simp only [not_or, not_forall] at hno
    obtain ⟨httl, httl', t, ht, ht'⟩ := hno
    obtain ⟨merchants, c, hc, hidle, row, hrow, hmarked, a, ha⟩ :=
      exists_answer_oneCent httl 0 .paymentConfirmed t
    obtain ⟨a', ha'⟩ := exists_answersMiss (m := 0) (hidle 0) httl'
    obtain ⟨hcount, -⟩ := hlaw merchants c hc 0 0 a a' (hidle 0) ha ha'
    have hrolled := (reach_aggregated hc).rolled
    obtain ⟨latency, rfl⟩ := ha.eq (hidle 0)
    obtain ⟨latency', rfl⟩ := ha'.eq (hidle 0)
    rw [(hrolled.scanOf settings 0 start stop latency).total_count,
      (hrolled.scanOf settings 0 start' stop' latency').total_count, hmarked,
      scanned_oneCent hrow, scanned_oneCent hrow, if_pos ht,
      if_neg fun h => ht' h.1] at hcount
    simp at hcount
  · intro hcond merchants c hc i m a a' hidle ha ha'
    have hle := (hcond.resolve_left (ttl_ne_zero_of_answersMiss hidle ha)
      ).resolve_left (ttl_ne_zero_of_answersMiss hidle ha')
    have hrolled := (reach_aggregated hc).rolled
    have hcredited := reach_credited (fun _ _ hp => hp) hc
    obtain ⟨latency, rfl⟩ := ha.eq hidle
    obtain ⟨latency', rfl⟩ := ha'.eq hidle
    have hnarrow := hrolled.scanOf settings m start stop latency
    have hwide := hrolled.scanOf settings m start' stop' latency'
    have hsub := scanned_sublist (m := m) c.world.db.markedEvents
      fun t ht => counted_of_start_le hstart hstop ht (hle t ht)
    rw [hnarrow.total_count, hwide.total_count, hnarrow.total_volume,
      hwide.total_volume]
    refine ⟨Int.ofNat_le.mpr hsub.length_le, Credits.sum_le ?_ hsub⟩
    intro r hr
    exact hcredited.raw_events r (markedEvents_subset _
      (mem_scanned_iff.mp hr).1)

end Widening

namespace Sample

/-- Three hours after `instant`. -/
def later (minute : ℕ) : DateTime :=
  { instant minute with
    hour := 13
    time_range := ⟨by decide, (instant minute).time_range.2⟩ }

end Sample

/-- From the minutes of an hour to all of it and the next three. -/
theorem widening_never_loses_iff_aligned :
    (selectGranularity {} (.utc (Sample.instant 5)) (.utc (Sample.instant 50))).1 ≠
      (selectGranularity {} (.utc (Sample.instant 0)) (.utc (Sample.later 50))).1 ∧
    NeverLoses {} (.utc (Sample.instant 5)) (.utc (Sample.instant 50))
      (.utc (Sample.instant 0)) (.utc (Sample.later 50)) := by
  refine ⟨by decide, (widening_never_loses_iff (by decide) (by decide)).mpr
    (.inr (.inr fun t ht => ?_))⟩
  have hsel : (selectGranularity {} (.utc (Sample.instant 0))
      (.utc (Sample.later 50))).1 = .hour := by decide
  have halign : (RollupGranularity.hour.width : ℤ) ∣
      (AwareDateTime.utc (Sample.instant 0)).instant := by decide
  rw [hsel, le_truncate_iff halign]
  have hfirst : (AwareDateTime.utc (Sample.instant 0)).instant ≤
      (AwareDateTime.utc (Sample.instant 5)).instant := by decide
  exact (hfirst.trans ht.1).trans (Int.ofNat_le.mpr (truncate_le _ t))

/-- One more minute at the end, and the first fifty-five are gone. -/
theorem wider_range_loses_first_hour :
    (AwareDateTime.utc (Sample.instant 5)).instant <
        (AwareDateTime.utc (Sample.later 5)).instant ∧
      (AwareDateTime.utc (Sample.later 5)).instant ≤
        (AwareDateTime.utc (Sample.later 6)).instant ∧
      ¬ NeverLoses {} (.utc (Sample.instant 5)) (.utc (Sample.later 5))
        (.utc (Sample.instant 5)) (.utc (Sample.later 6)) := by
  classical
  refine ⟨by decide, by decide, fun hlaw => ?_⟩
  have httl : (selectGranularity {} (.utc (Sample.instant 5))
      (.utc (Sample.later 5))).2 ≠ 0 := by decide
  obtain ⟨merchants, c, hc, hidle, row, hrow, hmarked, a, ha⟩ :=
    exists_answer_oneCent httl 7 .paymentConfirmed (Sample.instant 10)
  obtain ⟨a', ha'⟩ := @exists_answersMiss {} _ _ 7
    (.utc (Sample.instant 5)) (.utc (Sample.later 6))
    (hidle 0) (by decide)
  obtain ⟨hcount, -⟩ := hlaw merchants c hc 0 7 a a' (hidle 0) ha ha'
  have hrolled := (reach_aggregated hc).rolled
  obtain ⟨latency, rfl⟩ := ha.eq (hidle 0)
  obtain ⟨latency', rfl⟩ := ha'.eq (hidle 0)
  have hminute : Counted (selectGranularity {} (.utc (Sample.instant 5))
      (.utc (Sample.later 5))).1 (AwareDateTime.utc (Sample.instant 5)).instant
      (AwareDateTime.utc (Sample.later 5)).instant (Sample.instant 10) := by
    unfold Counted
    decide
  have hhour : ¬ Counted (selectGranularity {} (.utc (Sample.instant 5))
      (.utc (Sample.later 6))).1 (AwareDateTime.utc (Sample.instant 5)).instant
      (AwareDateTime.utc (Sample.later 6)).instant (Sample.instant 10) := by
    unfold Counted
    decide
  rw [(hrolled.scanOf {} 7 _ _ latency).total_count,
    (hrolled.scanOf {} 7 _ _ latency').total_count, hmarked,
    scanned_oneCent hrow, scanned_oneCent hrow, if_pos hminute, if_neg hhour]
    at hcount
  simp at hcount

end AnalyticsPipeline
