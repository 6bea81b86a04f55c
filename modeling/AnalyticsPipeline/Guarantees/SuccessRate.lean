import AnalyticsPipeline.Guarantees.SingleEvent

/-!
# The success rate and the totals

A response takes its totals from the table of the routed granularity and its
rate from the hours, both between the same bounds. The two describe the same
events exactly when the bounds select the same instants at both granularities.
-/

namespace AnalyticsPipeline

open Framework

/-! ## What a range counts -/

/-- The bucket of the instant starts between the bounds. -/
def Counted (g : RollupGranularity) (start stop : ℤ) (t : DateTime) : Prop :=
  start ≤ (g.truncate t).micros ∧ (g.truncate t).micros ≤ stop

theorem mem_scanned_iff {g : RollupGranularity} {m : UUID} {start stop : ℤ}
    {events : List RawEvent} {e : RawEvent} :
    e ∈ scanned g m start stop events ↔
      e ∈ events ∧ e.merchant_id = m ∧ Counted g start stop (bucketTs e) := by
  rw [scanned, List.mem_filter, decide_eq_true_eq, between_iff]
  rfl

/-- Ranges that count the same instants scan the same events. -/
theorem scanned_congr {g g' : RollupGranularity} {m : UUID}
    {start stop start' stop' : ℤ} (events : List RawEvent)
    (h : ∀ t, Counted g start stop t ↔ Counted g' start' stop' t) :
    scanned g m start stop events = scanned g' m start' stop' events := by
  refine List.filter_congr fun e _ => ?_
  rw [decide_eq_decide, between_iff, between_iff]
  exact and_congr_right fun _ => h (bucketTs e)

theorem scanned_oneCent {g : RollupGranularity} {m : UUID} {start stop : ℤ}
    {type : EventType} {t : DateTime} {row : RawEvent}
    (h : OneCent m type t row) [Decidable (Counted g start stop t)] :
    scanned g m start stop [row] =
      if Counted g start stop t then [row] else [] := by
  have hiff : row ∈ scanned g m start stop [row] ↔ Counted g start stop t := by
    simp [mem_scanned_iff, h.merchant_id, h.bucket]
  split
  · rename_i hcounted
    exact List.filter_eq_self.mpr fun e he => by
      rw [List.mem_singleton.mp he]
      exact (List.mem_filter.mp (hiff.mpr hcounted)).2
  · rename_i hcounted
    refine List.eq_nil_iff_forall_not_mem.mpr fun e he => ?_
    obtain rfl := List.mem_singleton.mp (mem_scanned_iff.mp he).1
    exact hcounted (hiff.mp he)

/-! ## The rate -/

/-- The number of events of the type. -/
def outcomeCount (type : EventType) (events : List RawEvent) : ℕ :=
  (events.filter fun e => e.event_type = type).length

/-- The confirmed share of the payments that ended, to four decimals. -/
def expectedRate (confirmed failed : ℕ) : Option ℚ :=
  if confirmed + failed = 0 then none
  else some (roundTo 4 ((confirmed : ℚ) / (confirmed + failed)))

theorem successRate_natCast (confirmed failed : ℕ) :
    successRate confirmed failed = expectedRate confirmed failed := by
  rw [successRate, expectedRate]
  by_cases h : confirmed + failed = 0
  · rw [if_pos h, if_neg (by omega)]
  · rw [if_neg h, if_pos (by omega)]
    push_cast
    rfl

/-- The rate of a response is that of the hours in its range. -/
theorem Rolled.success_rate {db : Db} {events : List RawEvent}
    (h : Rolled db events) (settings : Settings) (m : UUID)
    (start stop : AwareDateTime) (latency : ℚ) :
    (db.metrics settings m start stop latency).success_rate = expectedRate
      (outcomeCount .paymentConfirmed
        (scanned .hour m start.instant stop.instant events))
      (outcomeCount .paymentFailed
        (scanned .hour m start.instant stop.instant events)) := by
  have houtcomes : ∀ type, db.outcomes m start.instant stop.instant type =
      outcomeCount type (scanned .hour m start.instant stop.instant events) :=
    fun type => h.sumCount fun k => decide (k.event_type = type)
  rw [← successRate_natCast, ← houtcomes, ← houtcomes]
  rfl

/-- Every answer over the range rates the events that its totals count. -/
def RatesItsTotals (settings : Settings) (start stop : AwareDateTime) : Prop :=
  ∀ (merchants : List Merchant) (c : Config services PyError),
    Reach anyConsumers (Config.idle (World.start merchants)) c →
    ∀ (i : ℕ) (m : UUID) (a : MetricsResponse), c.world.txs.get? i = none →
      AnswersMiss settings i c.world m start stop a →
      let counted := scanned a.granularity m start.instant stop.instant
        c.world.db.markedEvents
      a.total_count = counted.length ∧
        a.success_rate = expectedRate (outcomeCount .paymentConfirmed counted)
          (outcomeCount .paymentFailed counted)

theorem ServiceProgram.mono {worker worker' : Settings → Prop}
    (hle : ∀ s, worker s → worker' s) {p : Service Unit}
    (hp : ServiceProgram worker p) : ServiceProgram worker' p := by
  cases hp with
  | processBatch settings h => exact .processBatch settings (hle _ h)
  | ingestEvent payload => exact .ingestEvent payload
  | ingestBatch payload => exact .ingestBatch payload

theorem reach_anyConsumers {consumer_id : String} {merchants : List Merchant}
    {c : Config services PyError}
    (hc : Reach (oneConsumer consumer_id)
      (Config.idle (World.start merchants)) c) :
    Reach anyConsumers (Config.idle (World.start merchants)) c := by
  refine Reach.mono (fun c l hl => ?_) hc
  cases l with
  | call i ch =>
      simp only [Policy.allows]
      split <;> trivial
  | crash i => trivial
  | spawn i p => exact ServiceProgram.mono (fun _ _ => trivial) hl
  | env e => trivial

/-- What serial histories aggregate, whoever the consumers. -/
theorem reach_aggregated {merchants : List Merchant}
    {c : Config services PyError}
    (hc : Reach anyConsumers (Config.idle (World.start merchants)) c) :
    Aggregated c.world.db := by
  have hs : Serial (fun _ _ _ => True) (History.start merchants)
      c.world.toHistory :=
    (reach_serial (fun _ _ hp => hp) (fun _ _ _ _ => trivial) hc).2
  exact Serial.aggregated (deduplicated_start merchants) (.start merchants) hs

/-- A state with one marked event. -/
theorem exists_marked_oneCent (m : UUID) (type : EventType) (t : DateTime) :
    ∃ merchants, ∃ c : Config services PyError,
      Reach anyConsumers (Config.idle (World.start merchants)) c ∧
      (∀ j, c.world.txs.get? j = none) ∧
      ∃ row, OneCent m type t row ∧ c.world.db.markedEvents = [row] := by
  obtain ⟨merchants, c, hc, hidle, row, hrow, hprocessed⟩ :=
    exists_reach_processed m type t
  obtain ⟨hd, -, honce⟩ := reach_oneConsumer hc
  have hmarked : c.world.db.markedEvents.Perm [row] :=
    hprocessed ▸ markedEvents_perm hd.ids honce
  exact ⟨merchants, c, reach_anyConsumers hc, hidle, row, hrow,
    List.perm_singleton.mp hmarked⟩

/-- A state with one marked event, and an answer to a miss in it. -/
theorem exists_answer_oneCent {settings : Settings} {start stop : AwareDateTime}
    (httl : (selectGranularity settings start stop).2 ≠ 0) (m : UUID)
    (type : EventType) (t : DateTime) :
    ∃ merchants, ∃ c : Config services PyError,
      Reach anyConsumers (Config.idle (World.start merchants)) c ∧
      (∀ j, c.world.txs.get? j = none) ∧
      ∃ row, OneCent m type t row ∧ c.world.db.markedEvents = [row] ∧
        ∃ a, AnswersMiss settings 0 c.world m start stop a := by
  obtain ⟨merchants, c, hc, hidle, row, hrow, hmarked⟩ :=
    exists_marked_oneCent m type t
  exact ⟨merchants, c, hc, hidle, row, hrow, hmarked,
    exists_answersMiss (hidle 0) httl⟩

/-- **The rate describes the counted events** if and only if the bounds count
the same instants at the routed granularity as at the hours, or no miss is
answered at all. -/
theorem rates_its_totals_iff (settings : Settings) (start stop : AwareDateTime) :
    RatesItsTotals settings start stop ↔
      (selectGranularity settings start stop).2 = 0 ∨
      ∀ t, Counted (selectGranularity settings start stop).1 start.instant
          stop.instant t ↔
        Counted .hour start.instant stop.instant t := by
  classical
  constructor
  · intro hlaw
    by_contra hno
    simp only [not_or, not_forall] at hno
    obtain ⟨httl, t, ht⟩ := hno
    obtain ⟨merchants, c, hc, hidle, row, hrow, hmarked, a, ha⟩ :=
      exists_answer_oneCent httl 0 .paymentConfirmed t
    obtain ⟨-, hrate⟩ := hlaw merchants c hc 0 0 a (hidle 0) ha
    obtain ⟨latency, rfl⟩ := ha.eq (hidle 0)
    rw [(reach_aggregated hc).rolled.success_rate, hmarked] at hrate
    change expectedRate _ _ = expectedRate (outcomeCount _ (scanned
      (selectGranularity settings start stop).1 0 _ _ _)) (outcomeCount _
        (scanned (selectGranularity settings start stop).1 0 _ _ _)) at hrate
    rw [scanned_oneCent hrow, scanned_oneCent hrow] at hrate
    -- the confirmed event is counted on one side only
    by_cases hhour : Counted .hour start.instant stop.instant t
    · have hg : ¬ Counted (selectGranularity settings start stop).1
          start.instant stop.instant t := fun h => ht ⟨fun _ => hhour, fun _ => h⟩
      rw [if_pos hhour, if_neg hg] at hrate
      simp [outcomeCount, hrow.event_type, expectedRate] at hrate
    · have hg : Counted (selectGranularity settings start stop).1
          start.instant stop.instant t := by
        by_contra h
        exact ht ⟨fun h' => absurd h' h, fun h' => absurd h' hhour⟩
      rw [if_neg hhour, if_pos hg] at hrate
      simp [outcomeCount, hrow.event_type, expectedRate] at hrate
  · intro hcond merchants c hc i m a hidle ha
    have hsame := hcond.resolve_left (ttl_ne_zero_of_answersMiss hidle ha)
    have hrolled := (reach_aggregated hc).rolled
    obtain ⟨latency, rfl⟩ := ha.eq hidle
    refine ⟨(hrolled.scanOf settings m start stop latency).total_count, ?_⟩
    rw [hrolled.success_rate, ← scanned_congr _ hsame]
    rfl

/-- Forty-five minutes with a confirmed payment, and no hour that starts in
them: the payment is counted and the rate is absent. -/
theorem confirmed_payment_unrated :
    ¬ RatesItsTotals {} (.utc (Sample.instant 5)) (.utc (Sample.instant 50)) := by
  classical
  intro hlaw
  have httl : (selectGranularity {} (.utc (Sample.instant 5))
      (.utc (Sample.instant 50))).2 ≠ 0 := by decide
  obtain ⟨merchants, c, hc, hidle, row, hrow, hmarked, a, ha⟩ :=
    exists_answer_oneCent httl 7 .paymentConfirmed (Sample.instant 10)
  obtain ⟨-, hrate⟩ := hlaw merchants c hc 0 7 a (hidle 0) ha
  obtain ⟨latency, rfl⟩ := ha.eq (hidle 0)
  rw [(reach_aggregated hc).rolled.success_rate, hmarked] at hrate
  change expectedRate _ _ = expectedRate (outcomeCount _ (scanned .minute 7 _ _ _))
    (outcomeCount _ (scanned .minute 7 _ _ _)) at hrate
  have hhour : ¬ Counted .hour (AwareDateTime.utc (Sample.instant 5)).instant
      (AwareDateTime.utc (Sample.instant 50)).instant (Sample.instant 10) := by
    unfold Counted
    decide
  have hminute : Counted .minute (AwareDateTime.utc (Sample.instant 5)).instant
      (AwareDateTime.utc (Sample.instant 50)).instant (Sample.instant 10) := by
    unfold Counted
    decide
  rw [scanned_oneCent hrow, scanned_oneCent hrow, if_neg hhour, if_pos hminute]
    at hrate
  simp [outcomeCount, hrow.event_type, expectedRate] at hrate

end AnalyticsPipeline
