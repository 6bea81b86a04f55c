import AnalyticsPipeline.Model.Tables
import AnalyticsPipeline.Model.Statements

/-!
# Migrations

The revisions of the schema as functions on the stored rows. Revision 0001 has
no table of idempotency keys: its unique index is on the key together with the
partition column. Revision 0002 drops the index and creates the table, revision
0003 adds the markers of the worker. The way back drops the tables and builds
the index anew.
-/

namespace AnalyticsPipeline

open Framework

/-- The values an `INSERT` supplies to store these columns. -/
def RawValues.supplied (v : RawValues DateTime) : RawValues PyDateTime :=
  { v with client_timestamp := v.client_timestamp.map fun t => .aware (.utc t) }

/-- The tables of revision 0001, with the constraints on `raw_events`. -/
structure InitialDb where
  merchants : List Merchant
  raw_events : List RawEvent
  rollup : RollupGranularity → RollupTable
  consumer_offsets : Dict String ConsumerOffset
  leaderboard_snapshots : Dict SnapshotKey SnapshotRow
  columns : ∀ row ∈ raw_events,
    row.toRawValues.supplied.stored = .ok row.toRawValues
  pk_raw_events : (raw_events.map RawEvent.primaryKey).Nodup
  uq_raw_events_idempotency_key :
    (raw_events.map fun row => (row.idempotency_key, row.occurred_at)).Nodup

/-- The constraints on `raw_events` that no revision changes. -/
structure Constrained (raw_events : List RawEvent) : Prop where
  columns : ∀ row ∈ raw_events,
    row.toRawValues.supplied.stored = .ok row.toRawValues
  pk_raw_events : (raw_events.map RawEvent.primaryKey).Nodup

/-- The tables of revision 0002: `raw_events` keeps its rows and loses its
index. -/
structure IdempotencyDb where
  merchants : List Merchant
  raw_events : List RawEvent
  event_idempotency : List EventIdempotency
  rollup : RollupGranularity → RollupTable
  consumer_offsets : Dict String ConsumerOffset
  leaderboard_snapshots : Dict SnapshotKey SnapshotRow

namespace Migrations

/-- `0002_idempotency_table.upgrade` -/
def idempotencyTable (db : InitialDb) : IdempotencyDb where
  merchants := db.merchants
  raw_events := db.raw_events
  event_idempotency := []
  rollup := db.rollup
  consumer_offsets := db.consumer_offsets
  leaderboard_snapshots := db.leaderboard_snapshots

/-- `0003_processed_rollup_events.upgrade` -/
def processedRollupEvents (db : IdempotencyDb) : Db where
  merchants := db.merchants
  raw_events := db.raw_events
  event_idempotency := db.event_idempotency
  processed_rollup_events := []
  rollup := db.rollup
  consumer_offsets := db.consumer_offsets
  leaderboard_snapshots := db.leaderboard_snapshots

/-- `alembic upgrade head` -/
def upgrade (db : InitialDb) : Db := processedRollupEvents (idempotencyTable db)

/-- `0003_processed_rollup_events.downgrade` -/
def dropProcessedRollupEvents (db : Db) : IdempotencyDb where
  merchants := db.merchants
  raw_events := db.raw_events
  event_idempotency := db.event_idempotency
  rollup := db.rollup
  consumer_offsets := db.consumer_offsets
  leaderboard_snapshots := db.leaderboard_snapshots

/-- `0002_idempotency_table.downgrade`: the index cannot be created over two rows
with one key and instant. -/
def dropIdempotencyTable (db : IdempotencyDb) (h : Constrained db.raw_events) :
    Except DbError InitialDb :=
  if huq : (db.raw_events.map fun row =>
      (row.idempotency_key, row.occurred_at)).Nodup then
    .ok {
      merchants := db.merchants
      raw_events := db.raw_events
      rollup := db.rollup
      consumer_offsets := db.consumer_offsets
      leaderboard_snapshots := db.leaderboard_snapshots
      columns := h.columns
      pk_raw_events := h.pk_raw_events
      uq_raw_events_idempotency_key := huq }
  else .error .uniqueViolation

/-- `alembic downgrade 0001_initial_schema` -/
def downgrade (db : Db) (h : Constrained db.raw_events) :
    Except DbError InitialDb :=
  dropIdempotencyTable (dropProcessedRollupEvents db) h

end Migrations

end AnalyticsPipeline
