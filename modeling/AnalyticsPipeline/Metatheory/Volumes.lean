import AnalyticsPipeline.Metatheory.Amounts
import AnalyticsPipeline.Metatheory.Leaderboard
import AnalyticsPipeline.Metatheory.RollupReads

/-!
# Volumes

The confirmed volume of a merchant in a period, once as the day rows have it and
once as the payments do. While the tables summarize the marked events the two
are the same.
-/

namespace AnalyticsPipeline

open Framework

/-- The sum of `amount_sum_cents` over the merchant's confirmed day rows whose
bucket is in the period. -/
def Db.volume (db : Db) (period : String) (m : UUID) : ℤ :=
  Stmt.sumAmount ((db.rollup .day).entries.filter fun r =>
    r.1.merchant_id = m ∧ r.1.event_type = .paymentConfirmed ∧
      periodKey r.1.bucket = period)

/-- The merchant's confirmed amounts of the period. -/
def confirmedVolume (period : String) (m : UUID) (events : List RawEvent) : ℤ :=
  (amountsOf m.str (confirmedIn period events)).sum

section Volumes

variable {events events' : List RawEvent} {period : String} {m : UUID} {db : Db}

theorem confirmedVolume_perm (h : events.Perm events') :
    confirmedVolume period m events = confirmedVolume period m events' :=
  (((h.filter _).filter _).map _).sum_eq

theorem confirmedVolume_append (events events' : List RawEvent) :
    confirmedVolume period m (events ++ events') =
      confirmedVolume period m events + confirmedVolume period m events' := by
  simp only [confirmedVolume, confirmedIn, amountsOf, List.filter_append,
    List.map_append, List.sum_append]

theorem confirmedVolume_nil (h : confirmedIn period events = []) :
    confirmedVolume period m events = 0 := by
  rw [confirmedVolume, h]
  rfl

theorem confirmedVolume_nonneg (h : Credits events) :
    0 ≤ confirmedVolume period m events := by
  refine List.sum_nonneg fun x hx => ?_
  obtain ⟨e, he, rfl⟩ := List.mem_map.mp hx
  exact h e (List.mem_of_mem_filter (List.mem_of_mem_filter he))

/-- No volume exceeds the sum of all day rows. -/
theorem Db.volume_le {rows : List (RollupKey × RollupRow)} {b : ℤ}
    (hrows : (db.rollup .day).entries = rows) (hnonneg : ∀ r ∈ rows, 0 ≤ r.2.sum)
    (hb : Stmt.sumAmount rows ≤ b) (period : String) (m : UUID) :
    db.volume period m ≤ b := by
  refine le_trans ?_ hb
  rw [Db.volume, hrows, Stmt.sumAmount, Stmt.sumAmount]
  refine (List.filter_sublist.map _).sum_le_sum fun x hx => ?_
  obtain ⟨r, hr, rfl⟩ := List.mem_map.mp hx
  exact hnonneg r hr

/-- **The two volumes are the same.** -/
theorem Aggregated.volume (h : Aggregated db) (period : String) (m : UUID) :
    db.volume period m = confirmedVolume period m db.markedEvents := by
  have hrows := (h.rolled .day).amount_entries fun k =>
    decide (k.merchant_id = m ∧ k.event_type = .paymentConfirmed ∧
      periodKey k.bucket = period)
  have hevents : (db.markedEvents.filter fun e =>
      decide ((e.rollupKey .day).merchant_id = m ∧
        (e.rollupKey .day).event_type = .paymentConfirmed ∧
        periodKey (e.rollupKey .day).bucket = period)) =
      (confirmedIn period db.markedEvents).filter fun e =>
        e.merchant_id.str = m.str := by
    rw [confirmedIn, List.filter_filter]
    refine List.filter_congr fun e _ => ?_
    rw [← Bool.decide_and, decide_eq_decide, UUID.str_injective.eq_iff]
    rfl
  rw [Db.volume, Stmt.sumAmount, hrows, hevents, confirmedVolume, amountsOf]

end Volumes

end AnalyticsPipeline
