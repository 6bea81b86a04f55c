import AnalyticsPipeline.Framework.Ranking
import AnalyticsPipeline.Guarantees.ExactlyOnce
import AnalyticsPipeline.Metatheory.SolitaryCompaction

/-!
# The drift a compaction reports

A compaction overwrites the day rows first and compares day rows and hours
afterwards. What it has overwritten agrees by then, so a drift is reported only
where there were no hours to overwrite with.
-/

namespace AnalyticsPipeline

open Framework

/-! ## Drift -/

/-- The day row of a merchant and an event type on a date. -/
def dayKeyOn (start : DateTime) (p : UUID × EventType) : RollupKey :=
  ⟨p.1, start, p.2⟩

def Db.dayCount (db : Db) (start : DateTime) (p : UUID × EventType) : ℤ :=
  ((db.rollup .day).get? (dayKeyOn start p)).elim 0 (·.count)

def Db.hourCount (db : Db) (start : DateTime) (p : UUID × EventType) : ℤ :=
  ((db.hoursOf (dayKeyOn start p)).map (·.count)).sum

def Db.drift (db : Db) (start : DateTime) (p : UUID × EventType) : ℕ :=
  (db.dayCount start p - db.hourCount start p).natAbs

def DiscrepancyRow.pair (r : DiscrepancyRow) : UUID × EventType :=
  (r.merchant_id, r.event_type)

/-- Every drift is reported, unless ten are that are not smaller, and nothing
else is. -/
structure Reports (db : Db) (start : DateTime) (rows : List DiscrepancyRow) :
    Prop where
  once : (rows.map DiscrepancyRow.pair).Nodup
  drifts : ∀ r ∈ rows, r.delta = db.drift start r.pair ∧ 0 < r.delta
  complete : ∀ p, 0 < db.drift start p →
    p ∈ rows.map DiscrepancyRow.pair ∨
      10 ≤ (rows.filter fun r => (db.drift start p : ℤ) ≤ r.delta).length

/-- The day rows of the date without hours. -/
def Db.hourless (db : Db) (start : DateTime) : List RollupEntry :=
  (db.rollup .day).entries.filter fun r =>
    r.1.bucket = start ∧ db.hoursOf r.1 = []

/-- Whoever has hours that day and drifts is outweighed by ten day rows without
hours. -/
def Db.Outweighed (db : Db) (start : DateTime) : Prop :=
  ∀ p, db.hoursOf (dayKeyOn start p) ≠ [] → 0 < db.drift start p →
    10 ≤ ((db.hourless start).filter fun r =>
      db.drift start p ≤ r.2.count.natAbs).length

section Drift

variable {start : DateTime} {db db' : Db} {k : RollupKey} {row : RollupRow}

theorem dayKeyOn_pair (hk : k.bucket = start) :
    dayKeyOn start (k.merchant_id, k.event_type) = k := by
  subst hk
  rfl

theorem hourCount_hourRows (hstart : start.truncDay = start)
    (hk : k.bucket = start) :
    Stmt.hourCount (Stmt.hourRows db start.micros
      (start.micros + DateTime.dayMicros)) k =
        ((db.hoursOf k).map (·.count)).sum := by
  rw [Stmt.hourCount, Stmt.sumCount, Db.hoursOf, List.map_map,
    ← hourRows_day hstart hk]
  refine congrArg (fun l : List RollupEntry => (l.map (·.2.count)).sum)
    (List.filter_congr fun r hr => decide_eq_decide.mpr ?_)
  obtain ⟨-, hwithin⟩ := List.mem_filter.mp hr
  have hbucket : r.1.bucket.truncDay = start := by
    apply (DateTime.mem_day_iff hstart (t := r.1.bucket)).mp
    simp only [Stmt.within, decide_eq_true_eq] at hwithin
    omega
  constructor
  · rintro ⟨hm, ht⟩
    rw [← dayKeyOn_pair hk, ← hm, ← ht, ← hbucket]
    rfl
  · rintro rfl
    exact ⟨rfl, rfl⟩

/-- What an overwritten row is compared with is what it was set to. -/
theorem dayAggregate_count (h : db.dayAggregate k = some row) :
    row.count = ((db.hoursOf k).map (·.count)).sum := by
  unfold Db.dayAggregate at h
  split at h
  · cases h
  · cases h
    exact Summary.sum_count _

theorem dayAggregate_eq_none_iff :
    db.dayAggregate k = none ↔ db.hoursOf k = [] := by
  unfold Db.dayAggregate
  split <;> simp_all

/-- **A day row without hours** drifts by all it counts. -/
theorem drift_of_hourless {r : RollupEntry} (hr : r ∈ db.hourless start) :
    db.drift start (r.1.merchant_id, r.1.event_type) = r.2.count.natAbs := by
  obtain ⟨hmem, hkey⟩ := List.mem_filter.mp hr
  obtain ⟨hbucket, hnone⟩ := of_decide_eq_true hkey
  rw [Db.drift, Db.dayCount, Db.hourCount, dayKeyOn_pair hbucket,
    Dict.get?_eq_some_iff.mpr hmem, hnone]
  simp

end Drift

/-! ## The report -/

/-- What is reported of a day row without hours. -/
def hourlessReport (r : RollupEntry) : DiscrepancyRow :=
  ⟨r.1.merchant_id, r.1.event_type, r.2.count, 0, r.2.count.natAbs⟩

/-- All that could be reported. -/
def Db.standing (db : Db) (start : DateTime) : List DiscrepancyRow :=
  ((db.hourless start).filter fun r => 0 < r.2.count.natAbs).map hourlessReport

section Report

variable {start now : DateTime} {db db' : Db} {ch : Choice}
  {rows sorted : List DiscrepancyRow}

theorem Compacted.discrepancy_eq (hc : Compacted start db db')
    (hstart : start.truncDay = start) {r : RollupEntry}
    (hr : r ∈ (db'.rollup .day).entries) (hk : r.1.bucket = start) :
    Stmt.discrepancy (Stmt.hourRows db' start.micros
      (start.micros + DateTime.dayMicros)) r =
        if db.hoursOf r.1 = [] then hourlessReport r
        else ⟨r.1.merchant_id, r.1.event_type, r.2.count, r.2.count, 0⟩ := by
  have hhours : db'.hoursOf r.1 = db.hoursOf r.1 := by
    rw [Db.hoursOf, hc.hours]
    rfl
  rw [Stmt.discrepancy, hourCount_hourRows hstart hk, hhours]
  split
  · rename_i hnone
    rw [hnone]
    simp [hourlessReport]
  · rename_i hsome
    have hrow := Dict.get?_eq_some_iff.mpr hr
    rw [hc.days _ hk] at hrow
    obtain ⟨row, hagg⟩ := Option.ne_none_iff_exists'.mp
      (mt dayAggregate_eq_none_iff.mp hsome)
    rw [hagg, Option.some_or, Option.some.injEq] at hrow
    rw [← hrow, dayAggregate_count hagg]
    simp

/-- The hourless rows are as they were. -/
theorem Compacted.hourless_perm (hc : Compacted start db db') :
    ((db'.rollup .day).entries.filter fun r =>
      r.1.bucket = start ∧ db.hoursOf r.1 = []).Perm (db.hourless start) := by
  have hnd : ∀ table : RollupTable, table.entries.Nodup := fun table =>
    List.Nodup.of_map _ table.nodup_keys
  apply (List.perm_ext_iff_of_nodup ((hnd _).filter _) ((hnd _).filter _)).mpr
  intro r
  rw [List.mem_filter, List.mem_filter, and_congr_left_iff]
  intro hkey
  obtain ⟨hbucket, hnone⟩ := of_decide_eq_true hkey
  rw [← Dict.get?_eq_some_iff, hc.days _ hbucket,
    dayAggregate_eq_none_iff.mpr hnone, Option.none_or, Dict.get?_eq_some_iff]

/-- The rows that do not agree are those that could not be overwritten. -/
theorem Compacted.standing_perm (hc : Compacted start db db')
    (hstart : start.truncDay = start) :
    ((((db'.rollup .day).entries.filter fun r =>
      (r.1.bucket.micros : ℤ) = start.micros).map
        (Stmt.discrepancy (Stmt.hourRows db' start.micros
          (start.micros + DateTime.dayMicros)))).filter (0 < ·.delta)).Perm
            (db.standing start) := by
  have hday : ∀ r ∈ (db'.rollup .day).entries,
      (r.1.bucket.micros : ℤ) = start.micros →
      Stmt.discrepancy (Stmt.hourRows db' start.micros
        (start.micros + DateTime.dayMicros)) r =
          if db.hoursOf r.1 = [] then hourlessReport r
          else ⟨r.1.merchant_id, r.1.event_type, r.2.count, r.2.count, 0⟩ :=
    fun r hr hk => hc.discrepancy_eq hstart hr
      (DateTime.micros_injective (Int.ofNat_inj.mp hk))
  rw [List.filter_map, List.filter_filter]
  refine .trans (.of_eq ?_) ((hc.hourless_perm.filter fun r =>
    decide (0 < r.2.count.natAbs)).map hourlessReport)
  rw [List.filter_filter]
  -- which rows are kept, and what is said of them
  have hkept : (db'.rollup .day).entries.filter (fun r =>
      ((fun d : DiscrepancyRow => decide (0 < d.delta)) ∘
        Stmt.discrepancy (Stmt.hourRows db' start.micros
          (start.micros + DateTime.dayMicros))) r &&
        decide ((r.1.bucket.micros : ℤ) = start.micros)) =
      (db'.rollup .day).entries.filter fun r =>
        decide (0 < r.2.count.natAbs) &&
          decide (r.1.bucket = start ∧ db.hoursOf r.1 = []) := by
    apply List.filter_congr
    intro r hr
    have hbucket : (r.1.bucket.micros : ℤ) = start.micros ↔ r.1.bucket = start :=
      ⟨fun h => DateTime.micros_injective (Int.ofNat_inj.mp h), fun h => h ▸ rfl⟩
    by_cases hk : r.1.bucket = start
    · rw [Function.comp_apply, hday r hr (hbucket.mpr hk)]
      by_cases hnone : db.hoursOf r.1 = [] <;>
        simp [hk, hnone, hourlessReport]
    · simp [hk, hbucket]
  rw [hkept]
  apply List.map_congr_left
  intro r hr
  obtain ⟨hmem, hkey⟩ := List.mem_filter.mp hr
  rw [← Bool.decide_and] at hkey
  obtain ⟨-, hbucket, hnone⟩ := of_decide_eq_true hkey
  rw [hday r hmem (congrArg (fun t : DateTime => (t.micros : ℤ)) hbucket), if_pos hnone]

/-- **The report** is the ten largest standing rows. -/
theorem Compacted.exists_ranking (hc : Compacted start db db')
    (hstart : start.truncDay = start)
    (hrun : (Stmt.selectDiscrepancies start.micros
      (start.micros + DateTime.dayMicros)).run now ch db' =
        some (.ok (rows, ∅))) :
    ∃ sorted, IsRanking DiscrepancyRow.delta (db.standing start) sorted ∧
      rows = sorted.take 10 := by
  simp only [Stmt.run] at hrun
  split at hrun
  · split at hrun
    · rename_i keys hkeys
      cases hrun
      refine ⟨_, ?_, rfl⟩
      have hsort := IsRanking.insertionSort DiscrepancyRow.delta
        ((keys.filterMap fun k => ((db'.rollup .day).get? k).map fun row =>
          Stmt.discrepancy (Stmt.hourRows db' start.micros
            (start.micros + DateTime.dayMicros)) (k, row)).filter
              (0 < ·.delta))
      refine ⟨hsort.perm.trans ?_, hsort.sorted⟩
      have hrows := (hkeys.filterMap fun k =>
        ((db'.rollup .day).get? k).map fun row =>
          Stmt.discrepancy (Stmt.hourRows db' start.micros
            (start.micros + DateTime.dayMicros)) (k, row)).filter
              (fun d : DiscrepancyRow => decide (0 < d.delta))
      refine hrows.trans ?_
      refine .trans (.of_eq ?_) (hc.standing_perm hstart)
      rw [List.filterMap_map]
      refine congrArg (List.filter fun d : DiscrepancyRow =>
        decide (0 < d.delta)) ?_
      rw [← List.filterMap_eq_map]
      refine List.filterMap_congr fun r hr => ?_
      have hr := Dict.get?_eq_some_iff.mpr (List.mem_of_mem_filter hr)
      simp only [Function.comp_apply, hr, Option.map_some]
    · cases hrun
  · cases hrun

theorem mem_standing {r : DiscrepancyRow} (hr : r ∈ db.standing start) :
    r.delta = db.drift start r.pair ∧ 0 < r.delta ∧
      db.hoursOf (dayKeyOn start r.pair) = [] := by
  obtain ⟨entry, hentry, rfl⟩ := List.mem_map.mp hr
  obtain ⟨hmem, hpos⟩ := List.mem_filter.mp hentry
  have hdrift := drift_of_hourless hmem
  obtain ⟨hbucket, hnone⟩ := of_decide_eq_true (List.mem_filter.mp hmem).2
  refine ⟨congrArg Nat.cast hdrift.symm, ?_, ?_⟩
  · exact Int.natCast_pos.mpr (of_decide_eq_true hpos)
  · show db.hoursOf (dayKeyOn start (entry.1.merchant_id, entry.1.event_type)) = []
    rw [dayKeyOn_pair hbucket, hnone]

/-- A drift without hours stands. -/
theorem exists_standing {p : UUID × EventType} (hpos : 0 < db.drift start p)
    (hnone : db.hoursOf (dayKeyOn start p) = []) :
    ∃ r ∈ db.standing start, r.pair = p := by
  have hcount : db.drift start p = (db.dayCount start p).natAbs := by
    rw [Db.drift, Db.hourCount, hnone]
    simp
  cases hrow : (db.rollup .day).get? (dayKeyOn start p) with
  | none =>
      rw [hcount, Db.dayCount, hrow] at hpos
      simp at hpos
  | some row =>
      rw [hcount, Db.dayCount, hrow] at hpos
      refine ⟨hourlessReport (dayKeyOn start p, row), List.mem_map_of_mem ?_, rfl⟩
      refine List.mem_filter.mpr ⟨List.mem_filter.mpr ⟨?_, ?_⟩, decide_eq_true hpos⟩
      · exact Dict.get?_eq_some_iff.mp hrow
      · exact decide_eq_true ⟨rfl, hnone⟩

theorem nodup_standing (db : Db) (start : DateTime) :
    ((db.standing start).map DiscrepancyRow.pair).Nodup := by
  rw [Db.standing, List.map_map]
  refine List.Nodup.map_on ?_ ?_
  · -- rows of one date and one pair are one row
    intro a ha b hb hpair
    have hday : ∀ {r}, r ∈ (db.hourless start).filter
        (fun r => decide (0 < r.2.count.natAbs)) → r ∈ (db.rollup .day).entries ∧
          dayKeyOn start (r.1.merchant_id, r.1.event_type) = r.1 := by
      intro r hr
      obtain ⟨hmem, hkey⟩ := List.mem_filter.mp (List.mem_of_mem_filter hr)
      exact ⟨hmem, dayKeyOn_pair (of_decide_eq_true hkey).1⟩
    obtain ⟨hmema, hkeya⟩ := hday ha
    obtain ⟨hmemb, hkeyb⟩ := hday hb
    have hkey : a.1 = b.1 := by
      rw [← hkeya, ← hkeyb]
      exact congrArg (dayKeyOn start) hpair
    have hb' : (a.1, b.2) ∈ (db.rollup .day).entries := by
      rw [hkey]
      exact hmemb
    exact Prod.ext hkey (Dict.eq_of_mem_of_mem hmema hb')
  · exact ((List.Nodup.of_map _ (db.rollup .day).nodup_keys).filter _).filter _

/-- How many stand with at least this drift. -/
theorem length_standing_filter {n : ℕ} (hn : 0 < n) :
    ((db.standing start).filter fun r => (n : ℤ) ≤ r.delta).length =
      ((db.hourless start).filter fun r => n ≤ r.2.count.natAbs).length := by
  rw [Db.standing, List.filter_map, List.length_map, List.filter_filter]
  refine congrArg List.length (List.filter_congr fun r _ => ?_)
  rw [Function.comp_apply, ← Bool.decide_and, decide_eq_decide]
  simp only [hourlessReport, Nat.cast_le]
  omega

/-- **The report is complete** exactly when what was overwritten is outweighed. -/
theorem reports_take_iff
    (hsorted : IsRanking DiscrepancyRow.delta (db.standing start) sorted) :
    Reports db start (sorted.take 10) ↔ db.Outweighed start := by
  have hmem : ∀ {r}, r ∈ sorted.take 10 → r ∈ db.standing start := fun hr =>
    hsorted.perm.subset (List.mem_of_mem_take hr)
  constructor
  · intro h p hhours hpos
    rcases h.complete p hpos with hlisted | hten
    · obtain ⟨r, hr, rfl⟩ := List.mem_map.mp hlisted
      exact absurd (mem_standing (hmem hr)).2.2 hhours
    · rw [hsorted.length_filter_take, length_standing_filter hpos] at hten
      exact hten.trans (min_le_right _ _)
  · intro h
    constructor
    · exact ((hsorted.perm.map _).nodup_iff.mpr
        (nodup_standing db start)).sublist ((List.take_sublist 10 sorted).map _)
    · intro r hr
      obtain ⟨hdelta, hpos, -⟩ := mem_standing (hmem hr)
      exact ⟨hdelta, hpos⟩
    · intro p hpos
      by_cases hhours : db.hoursOf (dayKeyOn start p) = []
      · obtain ⟨r, hr, rfl⟩ := exists_standing hpos hhours
        rcases hsorted.mem_take_or hr 10 with htake | hten
        · exact .inl (List.mem_map_of_mem htake)
        · exact .inr ((mem_standing hr).1 ▸ hten)
      · right
        rw [hsorted.length_filter_take, length_standing_filter hpos]
        exact le_min (le_refl 10) (h p hhours hpos)

end Report

section Run

variable {i : ℕ} {w w' : World} {tx : Tx}
  {r : Except PyError (List DiscrepancyRow)}

/-- **The report of a compaction** lists the drifts it repairs exactly when the
date has a next day and none of them needs to be listed. -/
theorem drift_report_iff (target_date : DateTime) (htx : w.txs.get? i = some tx)
    (hopen : tx.aborted = false)
    (he : Eval (M := services) noFailure i
      (NightlyCompaction.compactDayRollupOn target_date) w r w') :
    (∃ rows, r = .ok rows ∧
        Reports (w.view tx) target_date.truncDay rows) ↔
      (∃ stop, NightlyCompaction.dayEnd target_date.truncDay = .ok stop) ∧
        (w.view tx).Outweighed target_date.truncDay := by
  unfold NightlyCompaction.compactDayRollupOn at he
  cases hend : NightlyCompaction.dayEnd target_date.truncDay with
  | error e =>
      rw [hend] at he
      obtain ⟨rfl, -⟩ := eval_ret_iff.mp he
      simp
  | ok stop =>
      rw [hend] at he
      obtain rfl := NightlyCompaction.dayEnd_eq hend
      obtain ⟨db', now, ch, rows, hc, hrun, rfl⟩ := after_compactDayRollup
        (DateTime.truncDay_truncDay _) ⟨rfl, rfl, rfl, htx⟩ hopen r w' he
      obtain ⟨sorted, hsorted, rfl⟩ := hc.exists_ranking
        (DateTime.truncDay_truncDay _) hrun
      have hiff := reports_take_iff hsorted
      constructor
      · rintro ⟨rows, hrows, hreports⟩
        cases hrows
        exact ⟨⟨_, rfl⟩, hiff.mp hreports⟩
      · rintro ⟨-, hweigh⟩
        exact ⟨_, rfl, hiff.mpr hweigh⟩

end Run

/-! ## Two reports -/

/-- A compaction has begun over these rows. -/
def compacting (days hours : RollupTable) : World :=
  { World.start Sample.merchants with
    db := { (∅ : Db) with
      merchants := Sample.merchants
      rollup := fun g => if g = .day then days else if g = .hour then hours
        else ∅ }
    txs := (∅ : Dict ℕ Tx).set 0 ⟨Sample.instant 5, false, ∅⟩ }

def paymentDay : RollupKey :=
  ⟨7, (Sample.instant 0).truncDay, .paymentConfirmed⟩

/-- A day row that no hour row accounts for. -/
def unaccounted : World :=
  compacting ((∅ : RollupTable).set paymentDay ⟨3, 30, some 10, some 10⟩) ∅

/-- An hour row that no day row accounts for. -/
def uncompacted : World :=
  compacting ∅ ((∅ : RollupTable).set
    { paymentDay with bucket := (Sample.instant 0).truncHour }
    ⟨3, 30, some 10, some 10⟩)

theorem drift_report_unaccounted : ∃ r w',
    Eval (M := services) noFailure 0
      (NightlyCompaction.compactDayRollupOn (Sample.instant 0)) unaccounted r w' ∧
    ∃ rows, r = .ok rows ∧
      Reports unaccounted.db (Sample.instant 0).truncDay rows := by
  have hrun : (evalWith (M := services) (Call.lets false) 0
      [.groups [], .groups [paymentDay]]
      (NightlyCompaction.compactDayRollupOn (Sample.instant 0))
      unaccounted).map (fun _ => true) = some true := by
    decide +kernel
  obtain ⟨r, w', he, -⟩ := exists_eval_of_evalWith (P := fun _ => true)
    (fun _ _ => notifying_of_lets) hrun
  have hview : unaccounted.view ⟨Sample.instant 5, false, ∅⟩ = unaccounted.db :=
    Db.empty_overlay _
  refine ⟨r, w', he, hview ▸ (drift_report_iff (Sample.instant 0) rfl rfl he).mpr
    ⟨⟨_, rfl⟩, ?_⟩⟩
  rw [hview]
  intro p hhours
  exact absurd rfl hhours

/-- **A missing day row** is not reported. -/
theorem drift_not_reported : ∃ r w',
    Eval (M := services) noFailure 0
      (NightlyCompaction.compactDayRollupOn (Sample.instant 0)) uncompacted r w' ∧
    ¬ ∃ rows, r = .ok rows ∧
      Reports uncompacted.db (Sample.instant 0).truncDay rows := by
  have hrun : (evalWith (M := services) (Call.lets false) 0
      [.groups [paymentDay], .auto, .groups [paymentDay]]
      (NightlyCompaction.compactDayRollupOn (Sample.instant 0))
      uncompacted).map (fun r => decide (r.1.toOption = some [])) =
        some true := by
    decide +kernel
  obtain ⟨r, w', he, hr⟩ := exists_eval_of_evalWith
    (P := fun r => decide (r.toOption = some []))
    (fun _ _ => notifying_of_lets) hrun
  refine ⟨r, w', he, ?_⟩
  rintro ⟨rows, rfl, hreports⟩
  obtain rfl : rows = [] := Option.some.inj (of_decide_eq_true hr)
  have hdrift : 0 < uncompacted.db.drift (Sample.instant 0).truncDay
      (7, .paymentConfirmed) := by
    decide +kernel
  rcases hreports.complete _ hdrift with hlisted | hten
  · cases hlisted
  · cases hten

end AnalyticsPipeline
