import AnalyticsPipeline.Model.EventRepository

/-!
# Nightly compaction

`compact_day_rollup` re-derives the day rows of a date from its hour rows. Its
`INSERT ... SELECT ... ON CONFLICT DO UPDATE` reads one snapshot of the hours
and then writes the day rows one after another, waiting at each for whoever
holds it; the two phases are separate calls here.
-/

namespace AnalyticsPipeline

open Framework

namespace NightlyCompaction

/-- `start + timedelta(days=1)`, which Python cannot represent after the last
day of year 9999. -/
def dayEnd (start : DateTime) : Except PyError ℤ :=
  if start.year = 9999 ∧ start.month = 12 ∧ start.day = 31 then
    .error .overflowError
  else .ok (start.micros + DateTime.dayMicros)

theorem dayEnd_eq {start : DateTime} {stop : ℤ} (h : dayEnd start = .ok stop) :
    stop = start.micros + DateTime.dayMicros := by
  unfold dayEnd at h
  split at h
  · cases h
  · exact (Except.ok.inj h).symm

/-- The discrepancies found after the overwrite. -/
def compactDayRollup (start : DateTime) (stop : ℤ) :
    Service (List DiscrepancyRow) := do
  let rows ← execute (.aggregateHours start.micros stop)
  rows.forM fun entry => execute (.overwriteDayRow entry)
  execute (.selectDiscrepancies start.micros stop)

def snapshotLeaderboard (start : DateTime) (stop : ℤ) : Service ℕ := do
  let top_merchants ← execute (.selectDailyVolumes start.micros stop)
  top_merchants.forM fun row => do
    let id ← perform .uuid4
    execute (.upsertSnapshot ⟨"daily", start, row.merchant_id⟩
      ⟨id, row.rank, row.volume⟩)
  pure top_merchants.length

/-- `compact_day_rollup`, its bounds computed from the date. -/
def compactDayRollupOn (target_date : DateTime) :
    Service (List DiscrepancyRow) :=
  match dayEnd target_date.truncDay with
  | .error e => throw e
  | .ok stop => compactDayRollup target_date.truncDay stop

/-- `snapshot_leaderboard`, its bounds computed from the date. -/
def snapshotLeaderboardOn (target_date : DateTime) : Service ℕ :=
  match dayEnd target_date.truncDay with
  | .error e => throw e
  | .ok stop => snapshotLeaderboard target_date.truncDay stop

/-- `target_date` is given by its midnight. -/
def runCompaction (target_date : DateTime) :
    Service (List DiscrepancyRow × ℕ) :=
  sessionScope do
    let start := target_date.truncDay
    match dayEnd start with
    | .error e => throw e
    | .ok stop => do
        let discrepancies ← compactDayRollup start stop
        let snapshot_count ← snapshotLeaderboard start stop
        perform (.commit [])
        pure (discrepancies, snapshot_count)

end NightlyCompaction

end AnalyticsPipeline
