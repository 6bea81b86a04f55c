import AnalyticsPipeline.Framework.Dict
import AnalyticsPipeline.Framework.Summary
import AnalyticsPipeline.Model.Schemas

/-!
# Tables

The schema after migration 0003. A `Db` is used both for the committed tables
and for the rows an open transaction has written so far; `overlay` is what the
transaction sees, and what a commit installs.
-/

namespace AnalyticsPipeline

open Framework

/-! ## Rows -/

structure Merchant where
  id : UUID
  name : String
deriving DecidableEq

/-- The columns an `INSERT INTO raw_events` supplies. The client's time is a
`τ`: a `datetime` in the statement, an instant in the row. -/
structure RawValues (τ : Type) where
  id : UUID
  event_type : EventType
  merchant_id : UUID
  amount_cents : ℤ
  currency : String
  idempotency_key : String
  occurred_at : DateTime
  client_timestamp : Option τ
  metadata : Option Metadata
deriving DecidableEq

structure RawEvent extends RawValues DateTime where
  created_at : DateTime
deriving DecidableEq

structure EventIdempotency where
  idempotency_key : String
  event_id : UUID
deriving DecidableEq

structure ProcessedMarker where
  consumer_id : String
  event_id : UUID
deriving DecidableEq

structure RollupKey where
  merchant_id : UUID
  bucket : DateTime
  event_type : EventType
deriving DecidableEq

/-- `count`, `amount_sum_cents`, `amount_min_cents`, `amount_max_cents`. -/
abbrev RollupRow := Summary ℤ

abbrev RollupTable := Dict RollupKey RollupRow

structure ConsumerOffset where
  last_event_id : Option UUID
  last_event_at : Option DateTime
deriving DecidableEq

structure SnapshotKey where
  period : String
  period_start : DateTime
  merchant_id : UUID
deriving DecidableEq

/-- The columns an `INSERT INTO leaderboard_snapshots` supplies. -/
structure SnapshotValues where
  id : UUID
  rank : ℕ
  amount_sum_cents : ℤ
deriving DecidableEq

structure SnapshotRow extends SnapshotValues where
  created_at : DateTime
deriving DecidableEq

/-! ## Databases -/

structure Db where
  merchants : List Merchant
  raw_events : List RawEvent
  event_idempotency : List EventIdempotency
  processed_rollup_events : List ProcessedMarker
  rollup : RollupGranularity → RollupTable
  consumer_offsets : Dict String ConsumerOffset
  leaderboard_snapshots : Dict SnapshotKey SnapshotRow

namespace Db

def empty : Db := ⟨[], [], [], [], fun _ => ∅, ∅, ∅⟩

instance : EmptyCollection Db := ⟨empty⟩

/-- The tables of `base` with the rows of `ws` inserted or written over. -/
def overlay (ws base : Db) : Db where
  merchants := base.merchants ++ ws.merchants
  raw_events := base.raw_events ++ ws.raw_events
  event_idempotency := base.event_idempotency ++ ws.event_idempotency
  processed_rollup_events :=
    base.processed_rollup_events ++ ws.processed_rollup_events
  rollup := fun g => (ws.rollup g).overlay (base.rollup g)
  consumer_offsets := ws.consumer_offsets.overlay base.consumer_offsets
  leaderboard_snapshots :=
    ws.leaderboard_snapshots.overlay base.leaderboard_snapshots

section

variable (ws base : Db)

@[simp] theorem overlay_merchants :
    (ws.overlay base).merchants = base.merchants ++ ws.merchants := rfl

@[simp] theorem overlay_raw_events :
    (ws.overlay base).raw_events = base.raw_events ++ ws.raw_events := rfl

@[simp] theorem overlay_event_idempotency :
    (ws.overlay base).event_idempotency =
      base.event_idempotency ++ ws.event_idempotency := rfl

@[simp] theorem overlay_processed :
    (ws.overlay base).processed_rollup_events =
      base.processed_rollup_events ++ ws.processed_rollup_events := rfl

@[simp] theorem get?_overlay_rollup (g : RollupGranularity) (k : RollupKey) :
    ((ws.overlay base).rollup g).get? k =
      ((ws.rollup g).get? k).or ((base.rollup g).get? k) :=
  Dict.get?_overlay (ws.rollup g) (base.rollup g) k

@[simp] theorem get?_overlay_offsets (c : String) :
    (ws.overlay base).consumer_offsets.get? c =
      (ws.consumer_offsets.get? c).or (base.consumer_offsets.get? c) :=
  Dict.get?_overlay ws.consumer_offsets base.consumer_offsets c

@[simp] theorem get?_overlay_snapshots (k : SnapshotKey) :
    (ws.overlay base).leaderboard_snapshots.get? k =
      (ws.leaderboard_snapshots.get? k).or
        (base.leaderboard_snapshots.get? k) :=
  Dict.get?_overlay ws.leaderboard_snapshots base.leaderboard_snapshots k

end

/-- `DROP TABLE` for partitions of `raw_events`: one for each date, given by its
midnight, of the values of `occurred_at`. -/
def dropPartitions (db : Db) (days : List DateTime) : Db :=
  { db with raw_events := db.raw_events.filter fun r =>
      r.occurred_at.truncDay ∉ days }

@[simp] theorem empty_merchants : (∅ : Db).merchants = [] := rfl

@[simp] theorem empty_raw_events : (∅ : Db).raw_events = [] := rfl

@[simp] theorem empty_event_idempotency : (∅ : Db).event_idempotency = [] := rfl

@[simp] theorem empty_processed : (∅ : Db).processed_rollup_events = [] := rfl

@[simp] theorem empty_rollup (g : RollupGranularity) :
    (∅ : Db).rollup g = ∅ := rfl

@[simp] theorem empty_consumer_offsets : (∅ : Db).consumer_offsets = ∅ := rfl

@[simp] theorem empty_leaderboard_snapshots :
    (∅ : Db).leaderboard_snapshots = ∅ := rfl

@[simp] theorem empty_overlay (base : Db) : (∅ : Db).overlay base = base := by
  simp only [overlay, empty_merchants, empty_raw_events,
    empty_event_idempotency, empty_processed, empty_rollup,
    empty_consumer_offsets, empty_leaderboard_snapshots, List.append_nil,
    Dict.overlay_empty]

end Db

/-! ## Locks

A row that an uncommitted transaction has inserted or updated makes every other
transaction wait that wants to insert or update the same key. -/

inductive Lock where
  | merchant (id : UUID)
  | rawEvent (id : UUID) (occurred_at : DateTime)
  | idempotency (key : String)
  | marker (m : ProcessedMarker)
  | rollup (g : RollupGranularity) (k : RollupKey)
  | offset (consumer_id : String)
  | snapshot (k : SnapshotKey)
deriving DecidableEq

namespace Db

/-- The keys of the rows a transaction has written. -/
def locks (ws : Db) : List Lock :=
  ws.merchants.map (fun m => .merchant m.id) ++
  ws.raw_events.map (fun r => .rawEvent r.id r.occurred_at) ++
  ws.event_idempotency.map (fun r => .idempotency r.idempotency_key) ++
  ws.processed_rollup_events.map .marker ++
  (ws.rollup .minute).keys.map (.rollup .minute) ++
  (ws.rollup .hour).keys.map (.rollup .hour) ++
  (ws.rollup .day).keys.map (.rollup .day) ++
  ws.consumer_offsets.keys.map .offset ++
  ws.leaderboard_snapshots.keys.map .snapshot

section

variable {ws : Db}

@[simp] theorem merchant_mem_locks {id : UUID} :
    .merchant id ∈ ws.locks ↔ ∃ m ∈ ws.merchants, m.id = id := by
  simp [locks]

@[simp] theorem rawEvent_mem_locks {id : UUID} {t : DateTime} :
    .rawEvent id t ∈ ws.locks ↔
      ∃ r ∈ ws.raw_events, r.id = id ∧ r.occurred_at = t := by
  simp [locks]

@[simp] theorem idempotency_mem_locks {key : String} :
    .idempotency key ∈ ws.locks ↔
      ∃ r ∈ ws.event_idempotency, r.idempotency_key = key := by
  simp [locks]

@[simp] theorem marker_mem_locks {m : ProcessedMarker} :
    .marker m ∈ ws.locks ↔ m ∈ ws.processed_rollup_events := by
  simp [locks]

@[simp] theorem rollup_mem_locks {g : RollupGranularity} {k : RollupKey} :
    .rollup g k ∈ ws.locks ↔ k ∈ (ws.rollup g).keys := by
  cases g <;> simp [locks]

@[simp] theorem offset_mem_locks {c : String} :
    .offset c ∈ ws.locks ↔ c ∈ ws.consumer_offsets.keys := by
  simp [locks]

@[simp] theorem snapshot_mem_locks {k : SnapshotKey} :
    .snapshot k ∈ ws.locks ↔ k ∈ ws.leaderboard_snapshots.keys := by
  simp [locks]

@[simp] theorem locks_empty : (∅ : Db).locks = [] := rfl

end

end Db

end AnalyticsPipeline
