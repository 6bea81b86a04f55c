import AnalyticsPipeline.Framework.Regroup
import AnalyticsPipeline.Metatheory.BatchTransaction
import AnalyticsPipeline.Model.NightlyCompaction

/-!
# Day rows and hour rows

A day row agrees with the hours when it is what the hour rows of its merchant,
event type and day add up to. A batch adds the same events to both, so it keeps
every day row in agreement that was; compaction computes the row anew.
-/

namespace AnalyticsPipeline

open Framework

/-- The hour rows of the merchant, event type and day of a day row. -/
def Db.hoursOf (db : Db) (k : RollupKey) : List RollupRow :=
  ((db.rollup .hour).entries.filter fun r => Stmt.dayKey r.1 = k).map Prod.snd

/-- The sum of the counts, the sum of the amounts, the least and the greatest of
the hour rows; no row when there are none. -/
def Db.dayAggregate (db : Db) (k : RollupKey) : Option RollupRow :=
  if db.hoursOf k = [] then none else some (db.hoursOf k).sum

def Db.DayAgrees (db : Db) (k : RollupKey) : Prop :=
  (db.rollup .day).get? k = db.dayAggregate k

section DayRows

variable {db db' : Db} {k : RollupKey}

theorem regroup_hours (db : Db) (k : RollupKey) :
    (db.rollup .hour).regroup Stmt.dayKey k = db.dayAggregate k := by
  have hrows : (db.rollup .hour).regroup Stmt.dayKey k =
      ((db.hoursOf k).map fun v : RollupRow => (v : WithZero RollupRow)).sum := by
    rw [Db.hoursOf, List.map_map]
    rfl
  rw [hrows, Dict.sum_coe]
  rfl

theorem dayAgrees_iff : db.DayAgrees k ↔
    (db.rollup .day).row k = (db.rollup .hour).regroup Stmt.dayKey k := by
  rw [regroup_hours]
  rfl

/-- The two have the same hour rows for the day row's group. -/
def Db.SameHours (db db' : Db) (k : RollupKey) : Prop :=
  ∀ x, Stmt.dayKey x = k →
    (db.rollup .hour).get? x = (db'.rollup .hour).get? x

theorem dayAggregate_congr (h : db.SameHours db' k) :
    db.dayAggregate k = db'.dayAggregate k :=
  (regroup_hours db k).symm.trans
    ((Dict.regroup_congr h).trans (regroup_hours db' k))

theorem Db.DayAgrees.congr (h : db.DayAgrees k)
    (hrollup : ∀ g k, (db'.rollup g).get? k = (db.rollup g).get? k) :
    db'.DayAgrees k := by
  rw [Db.DayAgrees, hrollup .day k, h]
  exact dayAggregate_congr fun x _ => (hrollup .hour x).symm

/-- Writes without rollup rows. -/
theorem Db.DayAgrees.overlay {ws : Db} (h : db.DayAgrees k)
    (hws : ∀ g k, (ws.rollup g).get? k = none) : (ws.overlay db).DayAgrees k :=
  h.congr fun g k => by rw [Db.get?_overlay_rollup, hws g k, Option.none_or]

/-! ## Batches -/

variable {settings : Settings} {h : History} {f : Fetch} {new : List RawEvent}
  {ws : Db}

/-- A batch adds its new events to the rows they belong to. -/
theorem BatchTx.row_overlay (hb : BatchTx settings h f new ws)
    (g : RollupGranularity) (k : RollupKey) :
    ((ws.overlay h.db).rollup g).row k = (h.db.rollup g).row k +
      ((new.filter fun e => e.rollupKey g = k).map fun e =>
        (Summary.single e.amount_cents : WithZero RollupRow)).sum := by
  have hrow : ((ws.overlay h.db).rollup g).get? k =
      mergeRows ((h.db.rollup g).get? k)
        (Summary.collect (amountsAt g k new)) := by
    rw [Db.get?_overlay_rollup, hb.deltas g k, if_pos rfl, absorbed_or]
  rw [Dict.row, hrow, Summary.collect_eq_sum, amountsAt, List.map_map]
  rfl

theorem BatchTx.dayAgrees (hb : BatchTx settings h f new ws)
    (hk : h.db.DayAgrees k) : (ws.overlay h.db).DayAgrees k := by
  have hhours := Dict.regroup_add (fun k => hb.row_overlay .hour k) Stmt.dayKey k
  rw [dayAgrees_iff] at hk ⊢
  rw [hhours, ← hk, hb.row_overlay .day k]
  rfl

/-! ## The snapshot of a compaction -/

/-- The hours of a day are those between its midnights. -/
theorem hourRows_day {start : DateTime} (hstart : start.truncDay = start)
    (hk : k.bucket = start) :
    ((Stmt.hourRows db start.micros (start.micros + DateTime.dayMicros)).filter
      fun r => Stmt.dayKey r.1 = k) =
        (db.rollup .hour).entries.filter fun r => Stmt.dayKey r.1 = k := by
  rw [Stmt.hourRows, List.filter_filter]
  refine List.filter_congr fun r _ => ?_
  by_cases hkey : Stmt.dayKey r.1 = k
  · subst hkey
    have hday := (DateTime.mem_day_iff hstart (t := r.1.bucket)).mpr hk
    have hwithin : Stmt.within start.micros (start.micros + DateTime.dayMicros)
        r.1.bucket = true := by
      simp only [Stmt.within, decide_eq_true_eq]
      omega
    simp [hwithin]
  · simp [hkey]

/-- **The snapshot** holds, for each group of hour rows of the day, the row they
add up to. -/
theorem snapshot_eq_dayAggregate {start : DateTime}
    (hstart : start.truncDay = start) {entry : RollupEntry} {keys : List RollupKey}
    (hkeys : keys.Perm ((Stmt.hourRows db start.micros
      (start.micros + DateTime.dayMicros)).map (Stmt.dayKey ·.1)).dedup)
    (hentry : entry ∈ keys.map fun k => (k, Stmt.hourGroup (Stmt.hourRows db
      start.micros (start.micros + DateTime.dayMicros)) k)) :
    db.dayAggregate entry.1 = some entry.2 := by
  obtain ⟨k, hk, rfl⟩ := List.mem_map.mp hentry
  obtain ⟨r, hr, rfl⟩ := List.mem_map.mp (List.mem_dedup.mp (hkeys.subset hk))
  obtain ⟨hr, hwithin⟩ := List.mem_filter.mp hr
  have hbucket : (Stmt.dayKey r.1).bucket = start := by
    refine (DateTime.mem_day_iff hstart (t := r.1.bucket)).mp ?_
    simp only [Stmt.within, decide_eq_true_eq] at hwithin
    omega
  have hne : db.hoursOf (Stmt.dayKey r.1) ≠ [] :=
    List.ne_nil_of_mem (List.mem_map_of_mem (List.mem_filter.mpr ⟨hr, by simp⟩))
  rw [Db.dayAggregate, if_neg hne, Stmt.hourGroup, hourRows_day hstart hbucket,
    Db.hoursOf]

end DayRows

end AnalyticsPipeline
