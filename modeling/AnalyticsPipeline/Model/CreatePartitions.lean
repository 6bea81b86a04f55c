import AnalyticsPipeline.Model.RollupWorker

/-!
# Partition pre-creation

`scripts/create_partitions.py` over the partitions of `raw_events`. Every
statement commits on its own, so what ran before an exception stays.
-/

namespace AnalyticsPipeline

open Framework

/-! ## The partitioned table -/

/-- `raw_events_…`, for the rows from `start` up to `stop`, in microseconds. -/
structure Partition where
  name : String
  start : ℕ
  stop : ℕ
  rows : List RawEvent

def Partition.Holds (p : Partition) (r : RawEvent) : Prop :=
  p.start ≤ r.occurred_at.micros ∧ r.occurred_at.micros < p.stop

instance (p : Partition) (r : RawEvent) : Decidable (p.Holds r) :=
  inferInstanceAs (Decidable (_ ∧ _))

inductive ScriptError where
  | overflowError
  | invalidObjectDefinition
  | checkViolation
deriving DecidableEq

structure PartitionedTable where
  partitions : List Partition
  /-- `raw_events_default` -/
  default_rows : List RawEvent

namespace PartitionedTable

def rows (t : PartitionedTable) : List RawEvent :=
  t.partitions.flatMap Partition.rows ++ t.default_rows

/-- `INSERT INTO raw_events`: to the partition for the row, if there is one. -/
def insert (t : PartitionedTable) (r : RawEvent) : PartitionedTable :=
  if t.partitions.any fun p => p.Holds r then
    { t with
      partitions := t.partitions.map fun p =>
        if p.Holds r then { p with rows := p.rows ++ [r] } else p }
  else { t with default_rows := t.default_rows ++ [r] }

/-- `SELECT EXISTS(SELECT 1 FROM pg_tables WHERE tablename = $1)`; no other
table is named as a partition is. -/
def tableExists (t : PartitionedTable) (name : String) : Bool :=
  t.partitions.any fun p => p.name = name

/-- `CREATE TABLE IF NOT EXISTS name PARTITION OF raw_events FOR VALUES FROM
(start) TO (stop)` -/
def createPartition (t : PartitionedTable) (name : String) (start stop : ℕ) :
    Except ScriptError PartitionedTable :=
  if t.tableExists name then .ok t
  else if t.partitions.any fun p => p.start < stop ∧ start < p.stop then
    .error .invalidObjectDefinition
  else
    let new : Partition := ⟨name, start, stop, []⟩
    if t.default_rows.any fun r => new.Holds r then .error .checkViolation
    else .ok { t with partitions := t.partitions ++ [new] }

end PartitionedTable

/-! ## The script -/

namespace CreatePartitions

/-- `f"raw_events_{target_date.strftime('%Y_%m_%d')}"` -/
def partitionName (target_date : DateTime) : String :=
  String.ofList ("raw_events_".toList ++
    pad 10 (yearWidth target_date.year) target_date.year ++
    '_' :: pad 10 2 target_date.month ++ '_' :: pad 10 2 target_date.day)

def dateOrOverflow (date : Option DateTime) : Except ScriptError DateTime :=
  date.elim (.error .overflowError) .ok

/-- One turn of the loop. -/
def ensurePartition (today : DateTime) (i : ℤ) (t : PartitionedTable) :
    Except ScriptError PartitionedTable := do
  let target_date ← dateOrOverflow (today.plusDays? i)
  let partition_name := partitionName target_date
  let stop ← dateOrOverflow (target_date.plusDays? 1)
  if t.tableExists partition_name then pure t
  else t.createPartition partition_name target_date.micros stop.micros

def loop (today : DateTime) :
    List ℤ → PartitionedTable → Except ScriptError Unit × PartitionedTable
  | [], t => (.ok (), t)
  | i :: rest, t =>
      match ensurePartition today i t with
      | .error e => (.error e, t)
      | .ok t' => loop today rest t'

/-- `range(-1, days_ahead + 1)` -/
def dayOffsets (days_ahead : ℕ) : List ℤ :=
  (List.range (days_ahead + 2)).map fun k : ℕ => (k : ℤ) - 1

end CreatePartitions

/-- `create_partitions(days_ahead)` run at `now`. -/
def createPartitions (now : DateTime) (days_ahead : ℕ) (t : PartitionedTable) :
    Except ScriptError Unit × PartitionedTable :=
  CreatePartitions.loop now.truncDay (CreatePartitions.dayOffsets days_ahead) t

end AnalyticsPipeline
