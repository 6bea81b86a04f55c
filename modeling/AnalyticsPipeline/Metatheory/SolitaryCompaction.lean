import AnalyticsPipeline.Metatheory.DayRows
import AnalyticsPipeline.Metatheory.SolitaryTransaction

/-!
# A compaction alone

The day rows of the date that have hours become what their hours add up to, the
others stay, and only then are day rows and hours compared.
-/

namespace AnalyticsPipeline

open Framework

/-- The day rows, written over one after another. -/
def Db.overwritten (ws : Db) (rows : List RollupEntry) : Db :=
  rows.foldl (fun ws entry =>
    (Stmt.rollupWrites .day ((∅ : RollupTable).set entry.1 entry.2)).overlay ws) ws

/-- What the overwrites of a date leave of the day rows and the hour rows. -/
structure Compacted (start : DateTime) (db db' : Db) : Prop where
  hours : db'.rollup .hour = db.rollup .hour
  days : ∀ k, k.bucket = start → (db'.rollup .day).get? k =
    (db.dayAggregate k).or ((db.rollup .day).get? k)

section Overwritten

variable {rows : List RollupEntry} {start : DateTime} {db : Db}

theorem overwritten_hours (ws : Db) (rows : List RollupEntry) :
    (ws.overwritten rows).rollup .hour = ws.rollup .hour := by
  induction rows generalizing ws with
  | nil => rfl
  | cons entry rows ih =>
      rw [Db.overwritten, List.foldl_cons]
      refine (ih _).trans ?_
      exact Dict.overlay_empty _

theorem get?_overwritten_of_not_mem {k : RollupKey} (ws : Db)
    (hk : k ∉ rows.map Prod.fst) :
    ((ws.overwritten rows).rollup .day).get? k = (ws.rollup .day).get? k := by
  induction rows generalizing ws with
  | nil => rfl
  | cons entry rows ih =>
      rw [List.map_cons, List.mem_cons, not_or] at hk
      rw [Db.overwritten, List.foldl_cons]
      refine (ih _ hk.2).trans ?_
      rw [Db.get?_overlay_rollup]
      simp [Stmt.rollupWrites, hk.1]

/-- The last row written at a key is the one that stays. -/
theorem get?_overwritten_of_mem {entry : RollupEntry} (ws : Db)
    (hnd : (rows.map Prod.fst).Nodup) (hentry : entry ∈ rows) :
    ((ws.overwritten rows).rollup .day).get? entry.1 = some entry.2 := by
  induction rows generalizing ws with
  | nil => cases hentry
  | cons first rows ih =>
      obtain ⟨hfirst, hrest⟩ := List.nodup_cons.mp hnd
      rw [Db.overwritten, List.foldl_cons]
      rcases List.mem_cons.mp hentry with rfl | hmem
      · refine (get?_overwritten_of_not_mem _ hfirst).trans ?_
        rw [Db.get?_overlay_rollup]
        simp [Stmt.rollupWrites]
      · exact ih _ hrest hmem

/-- **The snapshot's rows, written over**, are the aggregates of the hours. -/
theorem compacted_overwritten (hstart : start.truncDay = start) {ws : Db}
    {keys : List RollupKey}
    (hkeys : keys.Perm ((Stmt.hourRows (ws.overlay db) start.micros
      (start.micros + DateTime.dayMicros)).map (Stmt.dayKey ·.1)).dedup) :
    Compacted start (ws.overlay db) ((ws.overwritten (keys.map fun k =>
      (k, Stmt.hourGroup (Stmt.hourRows (ws.overlay db) start.micros
        (start.micros + DateTime.dayMicros)) k))).overlay db) where
  hours := by
    unfold Db.overlay
    dsimp only
    rw [overwritten_hours]
  days := fun k hk => by
    have hfst : (keys.map fun k => (k, Stmt.hourGroup (Stmt.hourRows
        (ws.overlay db) start.micros (start.micros + DateTime.dayMicros))
          k)).map Prod.fst = keys := by
      rw [List.map_map]
      exact List.map_id keys
    have hnd : keys.Nodup := hkeys.nodup_iff.mpr (List.nodup_dedup _)
    by_cases hmem : k ∈ keys
    · have hentry := List.mem_map_of_mem
        (f := fun k => (k, Stmt.hourGroup (Stmt.hourRows (ws.overlay db)
          start.micros (start.micros + DateTime.dayMicros)) k)) hmem
      have hwritten := get?_overwritten_of_mem ws (hfst.symm ▸ hnd :) hentry
      rw [Db.get?_overlay_rollup, hwritten,
        snapshot_eq_dayAggregate hstart hkeys hentry, Option.some_or,
        Option.some_or]
    · have hnone : (ws.overlay db).dayAggregate k = none := by
        refine if_pos (List.eq_nil_iff_forall_not_mem.mpr fun row hrow => ?_)
        obtain ⟨r, hr, rfl⟩ := List.mem_map.mp hrow
        obtain ⟨hr, hkey⟩ := List.mem_filter.mp hr
        -- an hour row of the date is in the snapshot
        apply hmem
        rw [hkeys.mem_iff, List.mem_dedup, List.mem_map]
        refine ⟨r, ?_, of_decide_eq_true hkey⟩
        have hboth : r ∈ ((ws.overlay db).rollup .hour).entries.filter
            fun r => Stmt.dayKey r.1 = k := List.mem_filter.mpr ⟨hr, hkey⟩
        rw [← hourRows_day hstart hk] at hboth
        exact List.mem_of_mem_filter hboth
      rw [hnone, Option.none_or, Db.get?_overlay_rollup,
        get?_overwritten_of_not_mem ws (hfst.symm ▸ hmem),
        Db.get?_overlay_rollup]

end Overwritten

section Rules

variable {i : ℕ} {h : History} {r : Redis} {d : Dict UUID ℕ} {tx : Tx}
  {w : World} {fails : Bool} {start : DateTime}

theorem after_overwrites {rows : List RollupEntry} {P : World → Prop}
    (hat : At i h r d (some tx) w) (hopen : tx.aborted = false)
    (hP : ∀ w', At i h r d (some { tx with
      writes := tx.writes.overwritten rows }) w' → P w') :
    After (notifying fails) (M := services) i
      (rows.forM fun entry => execute (.overwriteDayRow entry))
      (fun x w' => x = .ok () ∧ P w') w := by
  induction rows generalizing w tx with
  | nil => exact after_ret ⟨rfl, hP w hat⟩
  | cons entry rows ih =>
      refine after_bind (after_writes hat hopen (by simp)
        (fun _ _ => .inl rfl) fun w₁ hat₁ => ?_)
      exact ih hat₁ hopen hP

/-- **A compaction** compares the rows it leaves. -/
theorem after_compactDayRollup (hstart : start.truncDay = start)
    (hat : At i h r d (some tx) w) (hopen : tx.aborted = false) :
    After (notifying fails) (M := services) i
      (NightlyCompaction.compactDayRollup start
        (start.micros + DateTime.dayMicros))
      (fun x _ => ∃ db' now ch rows,
        Compacted start (tx.writes.overlay h.db) db' ∧
        (Stmt.selectDiscrepancies start.micros
          (start.micros + DateTime.dayMicros)).run now ch db' =
            some (.ok (rows, ∅)) ∧ x = .ok rows) w := by
  unfold NightlyCompaction.compactDayRollup
  refine after_bind (after_execute hat hopen (by simp) ?_ ?_)
  · intro ch rows ws w₁ _ hrun hat₁
    simp only [Stmt.run] at hrun
    split at hrun
    · split at hrun
      · rename_i keys hkeys
        cases hrun
        rw [Db.empty_overlay] at hat₁
        refine after_bind (After.mono ?_ (after_overwrites hat₁ hopen
          fun w₂ hat₂ => hat₂))
        rintro x w₂ ⟨rfl, hat₂⟩
        refine after_execute hat₂ hopen (by simp) ?_ ?_
        · intro ch' rows' ws' w₃ _ hrun' _
          have hws : ws' = ∅ := by
            simp only [Stmt.run] at hrun'
            repeat' split at hrun'
            all_goals cases hrun'
            rfl
          subst hws
          exact ⟨_, _, ch', rows', compacted_overwritten hstart hkeys, hrun',
            rfl⟩
        · intro ch' e w₃ _ hrun' _
          simp only [Stmt.run] at hrun'
          repeat' split at hrun'
          all_goals cases hrun'
      · cases hrun
    · cases hrun
  · intro ch e w₁ _ hrun _
    simp only [Stmt.run] at hrun
    repeat' split at hrun
    all_goals cases hrun

/-- What storing ranked rows does to the snapshots: each is stored under its
merchant, all else is kept. -/
structure Snapshotted (start : DateTime) (top : List RankedRow) (db db' : Db) :
    Prop where
  stored : ∀ row ∈ top, ∃ stored, db'.leaderboard_snapshots.get?
    ⟨"daily", start, row.merchant_id⟩ = some stored ∧ stored.rank = row.rank ∧
      stored.amount_sum_cents = row.volume
  kept : ∀ k, (∀ row ∈ top, k ≠ ⟨"daily", start, row.merchant_id⟩) →
    db'.leaderboard_snapshots.get? k = db.leaderboard_snapshots.get? k

theorem Snapshotted.cons {row : RankedRow} {top : List RankedRow}
    {db db₁ db' : Db} (hnew : row.merchant_id ∉ top.map (·.merchant_id))
    (h₁ : Snapshotted start [row] db db₁) (h : Snapshotted start top db₁ db') :
    Snapshotted start (row :: top) db db' where
  stored := fun row' hrow' => by
    rcases List.mem_cons.mp hrow' with rfl | hmem
    · obtain ⟨stored, hget, hvalues⟩ := h₁.stored row' List.mem_cons_self
      refine ⟨stored, (h.kept _ fun other hother hkey => ?_).trans hget, hvalues⟩
      apply hnew
      rw [(SnapshotKey.mk.inj hkey).2.2]
      exact List.mem_map_of_mem hother
    · exact h.stored row' hmem
  kept := fun k hk => by
    refine (h.kept k fun other hother => ?_).trans (h₁.kept k fun other hother => ?_)
    · exact hk other (List.mem_cons_of_mem row hother)
    · rw [List.mem_singleton.mp hother]
      exact hk row List.mem_cons_self

theorem snapshotted_upsert {ws : Db} {db : Db} {row : RankedRow} {id : UUID}
    {now : DateTime} :
    Snapshotted start [row] (ws.overlay db) (((Stmt.snapshotWrites
      ⟨"daily", start, row.merchant_id⟩
      (match (ws.overlay db).leaderboard_snapshots.get?
          ⟨"daily", start, row.merchant_id⟩ with
        | none => ⟨⟨id, row.rank, row.volume⟩, now⟩
        | some old => ⟨⟨old.id, row.rank, row.volume⟩,
            old.created_at⟩)).overlay ws).overlay db) where
  stored := fun row' hrow' => by
    obtain rfl := List.mem_singleton.mp hrow'
    rw [Db.get?_overlay_snapshots, Db.get?_overlay_snapshots]
    simp only [Stmt.snapshotWrites, Dict.get?_set, if_true, Option.some_or,
      Option.some.injEq]
    cases (ws.overlay db).leaderboard_snapshots.get?
        ⟨"daily", start, row'.merchant_id⟩ with
    | none => exact ⟨_, rfl, rfl, rfl⟩
    | some old => exact ⟨_, rfl, rfl, rfl⟩
  kept := fun k hk => by
    have hne := hk row List.mem_cons_self
    rw [Db.get?_overlay_snapshots, Db.get?_overlay_snapshots]
    simp only [Stmt.snapshotWrites, Dict.get?_set, if_neg hne, Dict.get?_empty,
      Option.none_or]
    exact (Db.get?_overlay_snapshots ws db k).symm

theorem after_storeSnapshots {top : List RankedRow}
    (hnd : (top.map (·.merchant_id)).Nodup) (hat : At i h r d (some tx) w)
    (hopen : tx.aborted = false) :
    After (notifying fails) (M := services) i
      (top.forM fun row => do
        let id ← perform .uuid4
        execute (.upsertSnapshot ⟨"daily", start, row.merchant_id⟩
          ⟨id, row.rank, row.volume⟩))
      (fun x w' => x = .ok () ∧ ∃ d' tx', At i h r d' (some tx') w' ∧
        Snapshotted start top (tx.writes.overlay h.db)
          (tx'.writes.overlay h.db)) w := by
  induction top generalizing w tx d with
  | nil =>
      exact after_ret ⟨rfl, d, tx, hat, fun _ hrow => (by cases hrow),
        fun _ _ => rfl⟩
  | cons row top ih =>
      obtain ⟨hnew, hrest⟩ := List.nodup_cons.mp hnd
      refine after_bind (after_uuid4 hat fun u w₁ _ hat₁ => ?_)
      refine after_writes hat₁ hopen (by simp) (fun _ _ => .inl rfl)
        fun w₂ hat₂ => ?_
      refine After.mono ?_ (ih hrest hat₂ hopen)
      rintro x w₃ ⟨rfl, d', tx', hat₃, hsnap⟩
      exact ⟨rfl, d', tx', hat₃, snapshotted_upsert.cons hnew hsnap⟩

theorem within_storeSnapshots (start : DateTime) : ∀ top : List RankedRow,
    Prog.Within Call.draws top.length (top.forM fun row => do
      let id ← perform .uuid4
      execute (.upsertSnapshot ⟨"daily", start, row.merchant_id⟩
        ⟨id, row.rank, row.volume⟩) : Service Unit)
  | [] => .ret
  | row :: top => by
      have hone : Prog.Within Call.draws 1 (do
          let id ← perform .uuid4
          execute (.upsertSnapshot ⟨"daily", start, row.merchant_id⟩
            ⟨id, row.rank, row.volume⟩) : Service Unit) := by
        rw [perform_bind]
        exact @Prog.Within.call _ _ _ _ Call.draws 0 .uuid4 _ fun id =>
          within_execute rfl
      have hall := hone.bind fun _ => within_storeSnapshots start top
      rw [Nat.add_comm] at hall
      exact hall

end Rules

end AnalyticsPipeline
