import AnalyticsPipeline.Framework.Ranking
import AnalyticsPipeline.Guarantees.ExactlyOnce
import AnalyticsPipeline.Metatheory.SolitaryCompaction

/-!
# Daily snapshots

A snapshot stores the hundred best sellers of a date. It writes over the rows of
those it selects and deletes nothing: what an earlier snapshot of the date has
left of the others stays.
-/

namespace AnalyticsPipeline

open Framework

/-! ## The ranking of a date -/

/-- The confirmed payments of a date in the day rows. -/
def Db.soldRows (db : Db) (start : DateTime) : List RollupEntry :=
  (db.rollup .day).entries.filter fun r =>
    r.1.bucket.truncDay = start ∧ r.1.event_type = .paymentConfirmed

def Db.sellers (db : Db) (start : DateTime) : List UUID :=
  ((db.soldRows start).map (·.1.merchant_id)).dedup

def Db.soldOn (db : Db) (start : DateTime) (m : UUID) : ℤ :=
  Stmt.sumAmount (Stmt.merchantRows (db.soldRows start) m)

/-- One more than the sellers with a strictly larger volume. -/
def Db.rankOn (db : Db) (start : DateTime) (m : UUID) : ℕ :=
  1 + ((db.sellers start).filter fun m' =>
    db.soldOn start m < db.soldOn start m').length

/-- The daily rows of the date are those of a hundred best sellers, with their
volumes and ranks, and all other rows are as before. -/
structure IsSnapshot (db : Db) (start : DateTime) (db' : Db) : Prop where
  selection : ∃ top, IsTop (db.soldOn start) (db.sellers start) 100 top ∧
    ∀ m, m ∈ top ↔ ∃ row,
      db'.leaderboard_snapshots.get? ⟨"daily", start, m⟩ = some row
  rows : ∀ m row, db'.leaderboard_snapshots.get? ⟨"daily", start, m⟩ = some row →
    row.amount_sum_cents = db.soldOn start m ∧ row.rank = db.rankOn start m
  others : ∀ k, k.period ≠ "daily" ∨ k.period_start ≠ start →
    db'.leaderboard_snapshots.get? k = db.leaderboard_snapshots.get? k

def Db.soldRow (db : Db) (start : DateTime) (m : UUID) : RankedRow :=
  ⟨m, db.soldOn start m, db.rankOn start m⟩

section Selection

variable {start now : DateTime} {db db' : Db} {ids ms : List UUID} {m : UUID}

theorem soldRows_eq (hstart : start.truncDay = start) (db : Db) :
    ((db.rollup .day).entries.filter fun r =>
      Stmt.within start.micros (start.micros + DateTime.dayMicros) r.1.bucket ∧
        r.1.event_type = .paymentConfirmed) = db.soldRows start := by
  apply List.filter_congr
  intro r _
  rw [decide_eq_decide]
  apply and_congr_left
  intro _
  rw [← DateTime.mem_day_iff hstart, Stmt.within, decide_eq_true_eq]
  omega

/-- The rows selected, for each order in which the merchants come. -/
theorem run_selectDailyVolumes (hstart : start.truncDay = start)
    (hids : ids.Perm (db.sellers start)) :
    (Stmt.selectDailyVolumes start.micros
      (start.micros + DateTime.dayMicros)).run now (.merchants ids) db =
        some (.ok ((((ids.insertionSort fun a b => db.soldOn start b ≤
          db.soldOn start a).take 100).map (db.soldRow start)), ∅)) := by
  have hids' : ids.Perm
      ((db.soldRows start).map (·.1.merchant_id)).dedup := hids
  have hranked : Stmt.rankedRows (db.soldRows start) ids =
      (ids.insertionSort fun a b => db.soldOn start b ≤ db.soldOn start a).map
        fun m => ⟨m, db.soldOn start m,
          Stmt.sumCount (Stmt.merchantRows (db.soldRows start) m)⟩ :=
    (List.map_insertionSort (fun a b => db.soldOn start b ≤ db.soldOn start a)
      (fun a b : LeaderboardRow => b.volume_cents ≤ a.volume_cents)
      (fun m => ⟨m, db.soldOn start m,
        Stmt.sumCount (Stmt.merchantRows (db.soldRows start) m)⟩) ids
      fun _ _ _ _ => Iff.rfl).symm
  simp only [Stmt.run, soldRows_eq hstart]
  rw [if_pos hids', hranked, List.map_map, ← List.map_take]
  refine congrArg (fun l => some (Except.ok (l, (∅ : Db)))) ?_
  refine List.map_congr_left fun m _ => ?_
  show (⟨m, db.soldOn start m, _⟩ : RankedRow) = ⟨m, db.soldOn start m, _⟩
  rw [Db.rankOn, ← (hids.filter fun m' =>
    decide (db.soldOn start m < db.soldOn start m')).length_eq]
  rfl

theorem perm_of_run_selectDailyVolumes (hstart : start.truncDay = start)
    {ch : Choice} {r : Except DbError (List RankedRow × Db)}
    (hrun : (Stmt.selectDailyVolumes start.micros
      (start.micros + DateTime.dayMicros)).run now ch db = some r) :
    ∃ ids, ids.Perm (db.sellers start) ∧ ch = .merchants ids := by
  simp only [Stmt.run, soldRows_eq hstart] at hrun
  split at hrun
  · split at hrun
    · exact ⟨_, ‹_›, rfl⟩
    · cases hrun
  · cases hrun

/-- **What a snapshot leaves** is the ranking exactly when it selects everyone
an earlier one has left a row of. -/
theorem isSnapshot_iff (hms : IsRanking (db.soldOn start) (db.sellers start) ms)
    (h : Snapshotted start ((ms.take 100).map (db.soldRow start)) db db') :
    IsSnapshot db start db' ↔ ∀ m row,
      db.leaderboard_snapshots.get? ⟨"daily", start, m⟩ = some row →
        m ∈ ms.take 100 := by
  have htop := hms.isTop (List.nodup_dedup _) 100
  have hstored : ∀ m ∈ ms.take 100, ∃ row, db'.leaderboard_snapshots.get?
      ⟨"daily", start, m⟩ = some row ∧ row.rank = db.rankOn start m ∧
        row.amount_sum_cents = db.soldOn start m :=
    fun m hm => h.stored _ (List.mem_map_of_mem hm)
  -- rows of merchants outside the first hundred stay as they were
  have hkept : ∀ m, m ∉ ms.take 100 → db'.leaderboard_snapshots.get?
      ⟨"daily", start, m⟩ = db.leaderboard_snapshots.get? ⟨"daily", start, m⟩ := by
    intro m hm
    apply h.kept
    rintro row hrow hkey
    obtain ⟨m', hm', rfl⟩ := List.mem_map.mp hrow
    obtain rfl : m = m' := (SnapshotKey.mk.inj hkey).2.2
    exact hm hm'
  constructor
  · intro hsnap m row hrow
    obtain ⟨top, hbest, hkeys⟩ := hsnap.selection
    -- the rows stored are among those that are there, and as many
    have hsub : ms.take 100 ⊆ top := by
      intro m' hm'
      obtain ⟨row, hget, -⟩ := hstored m' hm'
      exact (hkeys m').mpr ⟨row, hget⟩
    by_contra hm
    apply hm
    apply htop.subset_of hbest hsub
    apply (hkeys m).mpr
    exact ⟨row, (hkept m hm).trans hrow⟩
  · intro hprior
    refine ⟨⟨ms.take 100, htop, fun m => ⟨fun hm => ?_, ?_⟩⟩, ?_, ?_⟩
    · obtain ⟨row, hget, -⟩ := hstored m hm
      exact ⟨row, hget⟩
    · rintro ⟨row, hrow⟩
      by_contra hm
      exact hm (hprior m row ((hkept m hm).symm.trans hrow))
    · intro m row hrow
      have hm : m ∈ ms.take 100 := by
        by_contra hm
        exact hm (hprior m row ((hkept m hm).symm.trans hrow))
      obtain ⟨stored, hget, hrank, hvolume⟩ := hstored m hm
      obtain rfl := Option.some.inj (hget.symm.trans hrow)
      exact ⟨hvolume, hrank⟩
    · intro k hk
      apply h.kept
      rintro row - rfl
      rcases hk with hperiod | hdate
      · exact hperiod rfl
      · exact hdate rfl

end Selection

/-! ## Runs -/

section Run

variable {i : ℕ} {h : History} {r : Redis} {d : Dict UUID ℕ} {tx : Tx}
  {w : World} {start : DateTime} {ms : List UUID}

theorem nodup_soldRows {db : Db}
    (hms : IsRanking (db.soldOn start) (db.sellers start) ms) (n : ℕ) :
    (((ms.take n).map (db.soldRow start)).map (·.merchant_id)).Nodup := by
  rw [List.map_map]
  have hids : (ms.take n).map ((fun row : RankedRow => row.merchant_id) ∘
      db.soldRow start) = ms.take n := List.map_id _
  rw [hids]
  exact (hms.isTop (List.nodup_dedup _) n).nodup

/-- **A snapshot** stores the first hundred of some ranking. -/
theorem after_snapshotLeaderboard (hstart : start.truncDay = start)
    (hat : At i h r d (some tx) w) (hopen : tx.aborted = false) :
    After noFailure (M := services) i
      (NightlyCompaction.snapshotLeaderboard start
        (start.micros + DateTime.dayMicros))
      (fun x w' => ∃ n ms d' tx', x = .ok n ∧ At i h r d' (some tx') w' ∧
        IsRanking ((tx.writes.overlay h.db).soldOn start)
          ((tx.writes.overlay h.db).sellers start) ms ∧
        Snapshotted start ((ms.take 100).map
          ((tx.writes.overlay h.db).soldRow start)) (tx.writes.overlay h.db)
            (tx'.writes.overlay h.db)) w := by
  unfold NightlyCompaction.snapshotLeaderboard
  refine after_bind (after_execute hat hopen (by simp) ?_ ?_)
  · intro ch top ws w₁ _ hrun hat₁
    obtain ⟨ids, hids, rfl⟩ := perm_of_run_selectDailyVolumes hstart hrun
    have hsort := IsRanking.insertionSort
      ((tx.writes.overlay h.db).soldOn start) ids
    have hms : IsRanking ((tx.writes.overlay h.db).soldOn start)
        ((tx.writes.overlay h.db).sellers start) _ :=
      ⟨hsort.perm.trans hids, hsort.sorted⟩
    obtain ⟨rfl, rfl⟩ := Prod.mk.inj (Except.ok.inj (Option.some.inj
      (hrun.symm.trans (run_selectDailyVolumes hstart hids))))
    rw [Db.empty_overlay] at hat₁
    refine after_bind (After.mono ?_ (after_storeSnapshots
      (nodup_soldRows hms 100) hat₁ hopen))
    rintro x w₂ ⟨rfl, d', tx', hat₂, hsnap⟩
    exact after_ret ⟨_, _, d', tx', rfl, hat₂, hms, hsnap⟩
  · intro ch e w₁ _ hrun _
    obtain ⟨ids, hids, rfl⟩ := perm_of_run_selectDailyVolumes hstart hrun
    rw [run_selectDailyVolumes hstart hids] at hrun
    cases hrun

/-- Any ranking may be the one. -/
theorem exists_eval_snapshotLeaderboard (hstart : start.truncDay = start)
    (htx : w.txs.get? i = some tx) (hopen : tx.aborted = false)
    (halone : Alone i w) (hsupply : w.issued.entries.length + 100 ≤ 2 ^ 128)
    (hms : IsRanking ((w.view tx).soldOn start) ((w.view tx).sellers start) ms) :
    ∃ x w' tx', Eval (M := services) noFailure i
      (NightlyCompaction.snapshotLeaderboard start
        (start.micros + DateTime.dayMicros)) w x w' ∧
      w'.txs.get? i = some tx' ∧
      Snapshotted start ((ms.take 100).map ((w.view tx).soldRow start))
        (w.view tx) (w'.view tx') := by
  have hrun : (Stmt.selectDailyVolumes start.micros
      (start.micros + DateTime.dayMicros)).run tx.now (.merchants ms)
        (w.view tx) = _ := run_selectDailyVolumes hstart hms.perm
  -- the database may hand out the merchants in the order of any ranking
  have hsorted : (ms.insertionSort fun a b => (w.view tx).soldOn start b ≤
      (w.view tx).soldOn start a) = ms := hms.sorted.insertionSort_eq
  rw [hsorted] at hrun
  have hexec : World.exec i (.sql (.selectDailyVolumes start.micros
      (start.micros + DateTime.dayMicros))) (.merchants ms) w =
        some (.ok ((ms.take 100).map ((w.view tx).soldRow start)),
          w.setTx i { tx with writes := (∅ : Db).overlay tx.writes }) := by
    show w.execSql i _ _ = _
    rw [World.execSql, htx]
    dsimp only
    rw [hopen, if_neg Bool.false_ne_true,
      not_blocked_of_alone halone, if_neg Bool.false_ne_true, hrun]
    rfl
  rw [Db.empty_overlay] at hexec
  have hat : At i w.toHistory w.redis w.issued (some tx) (w.setTx i tx) :=
    (At.mk rfl rfl rfl htx : At i w.toHistory w.redis w.issued (some tx) w).setTx
      tx
  have halone' : Alone i (w.setTx i tx) := exec_alone halone hexec
  have hlength : ((ms.take 100).map ((w.view tx).soldRow start)).length ≤ 100 := by
    rw [List.length_map, List.length_take]
    exact min_le_left _ _
  obtain ⟨x, w', he⟩ := exists_eval_service (i := i) false
    (within_storeSnapshots start ((ms.take 100).map
      ((w.view tx).soldRow start))) halone' (by
        have hissued : (w.setTx i tx).issued = w.issued := rfl
        rw [hissued]
        omega)
  obtain ⟨rfl, d', tx', hat', hsnap⟩ := after_storeSnapshots
    (nodup_soldRows hms 100) hat hopen x w' he
  refine ⟨.ok ((ms.take 100).map ((w.view tx).soldRow start)).length, w', tx',
    ?_, hat'.tx, ?_⟩
  · unfold NightlyCompaction.snapshotLeaderboard
    refine eval_bind_iff.mpr (.inl ⟨(ms.take 100).map
      ((w.view tx).soldRow start), w.setTx i tx, ?_, ?_⟩)
    · have hok : noFailure (.sql (.selectDailyVolumes start.micros
          (start.micros + DateTime.dayMicros))) (.merchants ms) :=
        noFailure_iff.mpr (by simp)
      rw [execute_eq]
      exact .call hok hexec .ret
    · exact eval_bind_iff.mpr (.inl ⟨(), w', he, .ret⟩)
  · have hdb : World.view w' tx' = tx'.writes.overlay w.db := hat'.view tx'
    rw [hdb]
    exact hsnap

/-- The run has returned, and what it wrote is the ranking. -/
def Ranked (db : Db) (start : DateTime) (i : ℕ) (x : Except PyError ℕ)
    (w' : World) : Prop :=
  ∃ n tx', x = .ok n ∧ w'.txs.get? i = some tx' ∧
    IsSnapshot db start (w'.view tx')

/-- **A daily snapshot** is the ranking, whichever the run, exactly when the
date has a next day and every row left by an earlier one is of a seller with
fewer than a hundred others who sold as much. -/
theorem daily_snapshot_iff (target_date : DateTime)
    (htx : w.txs.get? i = some tx) (hopen : tx.aborted = false)
    (halone : Alone i w) (hsupply : w.issued.entries.length + 100 ≤ 2 ^ 128) :
    After noFailure (M := services) i
        (NightlyCompaction.snapshotLeaderboardOn target_date)
        (Ranked (w.view tx) target_date.truncDay i) w ↔
      (∃ stop, NightlyCompaction.dayEnd target_date.truncDay = .ok stop) ∧
        ∀ m row, (w.view tx).leaderboard_snapshots.get?
            ⟨"daily", target_date.truncDay, m⟩ = some row →
          m ∈ (w.view tx).sellers target_date.truncDay ∧
            (((w.view tx).sellers target_date.truncDay).filter fun m' =>
              m' ≠ m ∧ (w.view tx).soldOn target_date.truncDay m ≤
                (w.view tx).soldOn target_date.truncDay m').length < 100 := by
  have hstart := DateTime.truncDay_truncDay target_date
  have hat : At i w.toHistory w.redis w.issued (some tx) w := ⟨rfl, rfl, rfl, htx⟩
  unfold NightlyCompaction.snapshotLeaderboardOn
  cases hend : NightlyCompaction.dayEnd target_date.truncDay with
  | error e =>
      constructor
      · intro h
        obtain ⟨n, tx', hx, -⟩ := h _ _ .ret
        cases hx
      · rintro ⟨⟨stop, hstop⟩, -⟩
        cases hstop
  | ok stop =>
      obtain rfl := NightlyCompaction.dayEnd_eq hend
      constructor
      · intro h
        refine ⟨⟨_, rfl⟩, fun m row hrow => ?_⟩
        -- every ranking is one a run may come to
        have hall : ∀ ms, IsRanking ((w.view tx).soldOn target_date.truncDay)
            ((w.view tx).sellers target_date.truncDay) ms → m ∈ ms.take 100 := by
          intro ms hms
          obtain ⟨x, w', tx', he, htx', hsnap⟩ :=
            exists_eval_snapshotLeaderboard hstart htx hopen halone hsupply hms
          obtain ⟨n, tx'', -, htx'', hranked⟩ := h x w' he
          obtain rfl := Option.some.inj (htx'.symm.trans htx'')
          exact (isSnapshot_iff hms hsnap).mp hranked m row hrow
        have hm : m ∈ (w.view tx).sellers target_date.truncDay := by
          have hsort := IsRanking.insertionSort
            ((w.view tx).soldOn target_date.truncDay)
            ((w.view tx).sellers target_date.truncDay)
          exact hsort.perm.subset (List.mem_of_mem_take (hall _ hsort))
        -- in one ranking `m` comes after everyone it is tied with
        obtain ⟨ms, hms, hlast⟩ := IsRanking.exists_last
          ((w.view tx).soldOn target_date.truncDay) (List.nodup_dedup _) hm
        exact ⟨hm, hlast 100 (hall ms hms)⟩
      · rintro ⟨-, hprior⟩
        refine After.mono ?_ (after_snapshotLeaderboard hstart hat hopen)
        rintro x w' ⟨n, ms, d', tx', rfl, hat', hms, hsnap⟩
        refine ⟨n, tx', rfl, hat'.tx, ?_⟩
        have hview : World.view w' tx' = tx'.writes.overlay w.db := hat'.view tx'
        rw [hview]
        refine (isSnapshot_iff hms hsnap).mpr fun m row hrow => ?_
        obtain ⟨hm, hfew⟩ := hprior m row hrow
        exact hms.mem_take_of_few (List.nodup_dedup _) hm hfew

end Run

/-! ## Two snapshots -/

/-- A snapshot of the day on which one merchant sold for thirty, over these
snapshot rows. -/
def snapshotting (prior : Dict SnapshotKey SnapshotRow) : World :=
  { World.start Sample.merchants with
    db := { (∅ : Db) with
      merchants := Sample.merchants
      rollup := fun g => if g = .day then (∅ : RollupTable).set
        ⟨7, (Sample.instant 0).truncDay, .paymentConfirmed⟩
        ⟨3, 30, some 10, some 10⟩ else ∅
      leaderboard_snapshots := prior }
    txs := (∅ : Dict ℕ Tx).set 0 ⟨Sample.instant 5, false, ∅⟩ }

/-- The merchant's row as an earlier snapshot has left it. -/
def outdated : World :=
  snapshotting ((∅ : Dict SnapshotKey SnapshotRow).set
    ⟨"daily", (Sample.instant 0).truncDay, 7⟩ ⟨⟨100, 1, 20⟩, Sample.instant 0⟩)

/-- The row of a merchant without sales. -/
def stale : World :=
  snapshotting ((∅ : Dict SnapshotKey SnapshotRow).set
    ⟨"daily", (Sample.instant 0).truncDay, 9⟩ ⟨⟨100, 1, 20⟩, Sample.instant 0⟩)

theorem outdated_prior {m : UUID} {row : SnapshotRow}
    (hrow : outdated.db.leaderboard_snapshots.get?
      ⟨"daily", (Sample.instant 0).truncDay, m⟩ = some row) : m = 7 := by
  simp only [outdated, snapshotting, Dict.get?_set, Dict.get?_empty] at hrow
  split at hrow
  · rename_i hkey
    exact (SnapshotKey.mk.inj hkey).2.2
  · cases hrow

theorem daily_snapshot_outdated : ∃ x w',
    Eval (M := services) noFailure 0
      (NightlyCompaction.snapshotLeaderboardOn (Sample.instant 0)) outdated x w' ∧
    Ranked outdated.db (Sample.instant 0).truncDay 0 x w' := by
  have hrun : (evalWith (M := services) (Call.lets false) 0
      [.merchants [7], .uuid 101, .auto]
      (NightlyCompaction.snapshotLeaderboardOn (Sample.instant 0))
      outdated).map (fun _ => true) = some true := by
    decide +kernel
  obtain ⟨x, w', he, -⟩ := exists_eval_of_evalWith (P := fun _ => true)
    (fun _ _ => notifying_of_lets) hrun
  have hview : outdated.view ⟨Sample.instant 5, false, ∅⟩ = outdated.db :=
    Db.empty_overlay _
  refine ⟨x, w', he, hview ▸ (daily_snapshot_iff (Sample.instant 0) rfl rfl
    (alone_of_txs rfl) (by decide)).mpr ⟨⟨_, rfl⟩, ?_⟩ x w' he⟩
  rw [hview]
  intro m row hrow
  obtain rfl := outdated_prior hrow
  decide +kernel

/-- **What an earlier snapshot has left** of others stays in the ranking. -/
theorem daily_snapshot_stale : ∃ x w',
    Eval (M := services) noFailure 0
      (NightlyCompaction.snapshotLeaderboardOn (Sample.instant 0)) stale x w' ∧
    ¬ Ranked stale.db (Sample.instant 0).truncDay 0 x w' := by
  have hrun : (evalWith (M := services) (Call.lets false) 0
      [.merchants [7], .uuid 101, .auto]
      (NightlyCompaction.snapshotLeaderboardOn (Sample.instant 0)) stale).map
        (fun r => ((World.txs r.2).get? 0).any fun tx =>
          ((World.view r.2 tx).leaderboard_snapshots.get?
            ⟨"daily", (Sample.instant 0).truncDay, 9⟩).isSome) = some true := by
    decide +kernel
  obtain ⟨⟨x, w'⟩, hrun, hleft⟩ := Option.map_eq_some_iff.mp hrun
  have he := eval_of_evalWith (fun _ _ => notifying_of_lets) hrun
  refine ⟨x, w', he, ?_⟩
  rintro ⟨n, tx', -, htx', hranked⟩
  obtain ⟨top, hbest, hkeys⟩ := hranked.selection
  rw [htx'] at hleft
  obtain ⟨row, hrow⟩ := Option.isSome_iff_exists.mp hleft
  have hseller : (9 : UUID) ∈ stale.db.sellers (Sample.instant 0).truncDay :=
    hbest.subset ((hkeys 9).mpr ⟨row, hrow⟩)
  revert hseller
  decide +kernel

end AnalyticsPipeline
