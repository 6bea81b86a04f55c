import AnalyticsPipeline.Framework.Transitions
import AnalyticsPipeline.Model.CreatePartitions

/-!
# The script next to ingestion

`create_partitions.py` runs as a job while events come in. Its statements commit
one by one, so a step is one turn of its loop or one statement of somebody else.
A process that is killed takes no more turns.
-/

namespace AnalyticsPipeline

open Framework

/-- A process of the script: the turns it has left, or what it raised. -/
structure ScriptRun where
  today : DateTime
  days_ahead : ℕ
  left : Except ScriptError (List ℤ)

/-- The last two fields are kept for the statements of the theorems alone. -/
structure ScheduleState where
  now : DateTime
  table : PartitionedTable
  scripts : List ScriptRun
  ingested : List RawEvent
  dropped : List RawEvent

inductive ScheduleEvent where
  | clock (now : DateTime)
  | starts (days_ahead : ℕ)
  /-- The next turn of the process with this number. -/
  | turns (k : ℕ)
  /-- `INSERT INTO raw_events` -/
  | ingests (row : RawEvent)
  /-- `DROP TABLE`, for a partition that is no longer needed -/
  | drops (name : String)

namespace PartitionedTable

def drop (t : PartitionedTable) (name : String) : PartitionedTable :=
  { t with partitions := t.partitions.filter fun p => p.name ≠ name }

def rowsOf (t : PartitionedTable) (name : String) : List RawEvent :=
  (t.partitions.filter fun p => p.name = name).flatMap Partition.rows

end PartitionedTable

namespace CreatePartitions

/-- `create_partitions(days_ahead)` up to its loop. -/
def started (now : DateTime) (days_ahead : ℕ) : ScriptRun :=
  ⟨now.truncDay, days_ahead, .ok (dayOffsets days_ahead)⟩

/-- One turn: an exception ends the process. -/
def turn? (p : ScriptRun) (t : PartitionedTable) :
    Option (ScriptRun × PartitionedTable) :=
  match p.left with
  | .ok (i :: rest) =>
      match ensurePartition p.today i t with
      | .ok t' => some ({ p with left := .ok rest }, t')
      | .error e => some ({ p with left := .error e }, t)
  | _ => none

def next? (s : ScheduleState) : ScheduleEvent → Option ScheduleState
  | .clock now =>
      if s.now.micros ≤ now.micros then some { s with now := now } else none
  | .starts days_ahead =>
      some { s with scripts := s.scripts ++ [started s.now days_ahead] }
  | .turns k =>
      s.scripts[k]?.bind fun p => (turn? p s.table).map fun r =>
        { s with scripts := s.scripts.set k r.1, table := r.2 }
  | .ingests row =>
      some { s with
        table := s.table.insert row, ingested := s.ingested ++ [row] }
  | .drops name =>
      some { s with
        table := s.table.drop name, dropped := s.dropped ++ s.table.rowsOf name }

/-- The tables are there, with nothing but the default partition. -/
def migrated (now : DateTime) : ScheduleState := ⟨now, ⟨[], []⟩, [], [], []⟩

end CreatePartitions

end AnalyticsPipeline
