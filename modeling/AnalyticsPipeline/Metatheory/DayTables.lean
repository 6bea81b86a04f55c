import AnalyticsPipeline.Metatheory.BatchTransaction
import AnalyticsPipeline.Metatheory.Volumes
import AnalyticsPipeline.Metatheory.WholeBoards

/-!
# Day tables of any content

Whatever the day rows hold, a batch adds to the volume of a merchant what its
new payments amount to, and a rebuild stores the volumes.
-/

namespace AnalyticsPipeline

open Framework

/-- No confirmed day row is of the first day of a month. -/
def Db.NoFirstRows (db : Db) : Prop :=
  ∀ r ∈ (db.rollup .day).entries, r.1.event_type = .paymentConfirmed →
    r.1.bucket.day ≠ 1

/-! ## What a batch adds -/

section Batch

variable {db ws : Db} {new : List RawEvent}

theorem Deltas.get?_overlay (h : Deltas (fun _ => true) new db ws)
    (g : RollupGranularity) (k : RollupKey) :
    ((ws.overlay db).rollup g).get? k = mergeRows ((db.rollup g).get? k)
      (Summary.collect (amountsAt g k new)) := by
  rw [Db.get?_overlay_rollup, h g k, if_pos rfl, absorbed_or]

theorem sum_mergeRows (stored delta : Option RollupRow) :
    ((mergeRows stored delta).map (·.sum)).getD 0 =
      (stored.map (·.sum)).getD 0 + (delta.map (·.sum)).getD 0 := by
  cases stored <;> cases delta <;> simp [mergeRows, Summary.add_def]

theorem count_mergeRows (stored delta : Option RollupRow) :
    ((mergeRows stored delta).map (·.count)).getD 0 =
      (stored.map (·.count)).getD 0 + (delta.map (·.count)).getD 0 := by
  cases stored <;> cases delta <;> simp [mergeRows, Summary.add_def]

/-- A batch with new events changes the tables. -/
theorem Deltas.overlay_ne (h : Deltas (fun _ => true) new db ws)
    (hnew : new ≠ []) : ws.overlay db ≠ db := by
  obtain ⟨e, he⟩ := List.exists_mem_of_ne_nil new hnew
  have hne : amountsAt .day (e.rollupKey .day) new ≠ [] := fun hnil =>
    amountsAt_eq_nil_iff.mp hnil e he rfl
  intro heq
  have hrow := h.get?_overlay .day (e.rollupKey .day)
  rw [heq, Summary.collect_of_ne_nil hne] at hrow
  have hcount := count_mergeRows ((db.rollup .day).get? (e.rollupKey .day))
    (some (Summary.ofList (amountsAt .day (e.rollupKey .day) new)))
  rw [← hrow, Option.map_some, Option.getD_some, Summary.ofList_count] at hcount
  have hlength := List.length_pos_iff.mpr hne
  omega

theorem sum_collect (amounts : List ℤ) :
    ((Summary.collect amounts).map (·.sum)).getD 0 = amounts.sum := by
  by_cases h : amounts = []
  · rw [h]
    rfl
  · rw [Summary.collect_of_ne_nil h]
    exact Summary.ofList_sum _

/-- **A batch adds the volumes of its new events** to the day rows. -/
theorem Deltas.volume (h : Deltas (fun _ => true) new db ws) (period : String)
    (m : UUID) : (ws.overlay db).volume period m =
      db.volume period m + confirmedVolume period m new := by
  let p : RollupKey → Bool := fun k => decide (k.merchant_id = m ∧
    k.event_type = .paymentConfirmed ∧ periodKey k.bucket = period)
  let ks := ((ws.overlay db).rollup .day).keys
  have hkeys : (db.rollup .day).keys ⊆ ks := by
    intro k hk
    obtain ⟨row, hrow⟩ := Dict.mem_keys_iff.mp hk
    refine Dict.mem_keys_iff.mpr ?_
    rw [h.get?_overlay, hrow]
    cases Summary.collect (amountsAt .day k new) with
    | none => exact ⟨row, rfl⟩
    | some d => exact ⟨row + d, rfl⟩
  have hnew : ∀ e ∈ new, e.rollupKey .day ∈ ks := by
    intro e he
    refine Dict.mem_keys_iff.mpr ?_
    have hne : amountsAt .day (e.rollupKey .day) new ≠ [] := fun hnil =>
      amountsAt_eq_nil_iff.mp hnil e he rfl
    rw [h.get?_overlay, Summary.collect_of_ne_nil hne]
    cases (db.rollup .day).get? (e.rollupKey .day) with
    | none => exact ⟨_, rfl⟩
    | some d => exact ⟨_, rfl⟩
  have hks : ks.Nodup := ((ws.overlay db).rollup .day).nodup_keys
  have hrows : ∀ db' : Db, (db'.rollup .day).keys ⊆ ks →
      db'.volume period m = ((ks.filter p).map fun k =>
        (((db'.rollup .day).get? k).map (·.sum)).getD 0).sum := fun db' hsub =>
    Dict.sum_entries hks hsub p fun row : RollupRow => row.sum
  have hdelta : confirmedVolume period m new =
      ((ks.filter p).map fun k => (amountsAt .day k new).sum).sum := by
    have hgroups := sum_groups (RawEvent.rollupKey .day)
      (fun e => e.amount_cents) new (hks.filter p)
    refine Eq.trans ?_ hgroups.symm
    rw [confirmedVolume, amountsOf, confirmedIn, List.filter_filter]
    refine congrArg (fun l : List RawEvent =>
      (l.map fun e => e.amount_cents).sum) (List.filter_congr fun e he => ?_)
    rw [← Bool.decide_and, decide_eq_decide, UUID.str_injective.eq_iff,
      List.mem_filter, and_iff_right (hnew e he), decide_eq_true_eq]
    rfl
  rw [hrows _ (List.Subset.refl _), hrows db hkeys, hdelta, ← List.sum_map_add]
  refine congrArg List.sum (List.map_congr_left fun k _ => ?_)
  rw [h.get?_overlay, sum_mergeRows, sum_collect]

end Batch

/-! ## What a rebuild stores -/

/-- The score of every merchant in a sorted set, zero when it has none. -/
def scoresOf (scores : Dict String ℤ) : UUID → ℤ :=
  fun m => (scores.get? m.str).getD 0

section Rebuild

variable {db ws : Db} {new : List RawEvent} {rows : List LeaderboardRow}
  {u start stop : DateTime}

theorem mem_keys_overlay_rollup (ws db : Db) (g : RollupGranularity) :
    (db.rollup g).keys ⊆ ((ws.overlay db).rollup g).keys := by
  intro k hk
  obtain ⟨row, hrow⟩ := Dict.mem_keys_iff.mp hk
  refine Dict.mem_keys_iff.mpr ?_
  rw [Db.get?_overlay_rollup, hrow]
  cases (ws.rollup g).get? k with
  | none => exact ⟨row, rfl⟩
  | some d => exact ⟨d, rfl⟩

theorem Db.noFirstRows_iff : db.NoFirstRows ↔ ∀ k ∈ (db.rollup .day).keys,
    k.event_type = .paymentConfirmed → k.bucket.day ≠ 1 := by
  rw [Db.NoFirstRows, Dict.keys, List.forall_mem_map]

theorem Db.NoFirstRows.of_overlay (h : (ws.overlay db).NoFirstRows) :
    db.NoFirstRows :=
  noFirstRows_iff.mpr fun k hk =>
    noFirstRows_iff.mp h k (mem_keys_overlay_rollup ws db .day hk)

theorem mem_rankedMerchants_iff {m : UUID} :
    m ∈ db.rankedMerchants start stop ↔ ∃ k ∈ (db.rollup .day).keys,
      (Stmt.between start.micros stop.micros k.bucket = true ∧
        k.event_type = .paymentConfirmed) ∧ k.merchant_id = m := by
  simp only [Db.rankedMerchants, List.mem_dedup, List.mem_map,
    Stmt.leaderboardRows, List.mem_filter, decide_eq_true_eq, Dict.keys,
    exists_exists_and_eq_and, and_assoc]

/-- A batch takes no merchant off the ranking. -/
theorem rankedCount_le_overlay (ws db : Db) (start stop : DateTime) :
    db.rankedCount start stop ≤ (ws.overlay db).rankedCount start stop := by
  refine ((List.nodup_dedup _).subperm fun m hm => ?_).length_le
  obtain ⟨k, hk, hmem⟩ := mem_rankedMerchants_iff.mp hm
  exact mem_rankedMerchants_iff.mpr
    ⟨k, mem_keys_overlay_rollup ws db .day hk, hmem⟩

theorem rowOf_volume_cents (hbounds : MonthBounds u.year u.month start stop)
    (hfirst : db.NoFirstRows) (m : UUID) :
    (db.rowOf start stop m).volume_cents = db.volume (periodKey u) m := by
  rw [Db.rowOf, Stmt.merchantRows, Stmt.leaderboardRows, List.filter_filter,
    Db.volume]
  refine congrArg Stmt.sumAmount (List.filter_congr fun r hr => ?_)
  rw [← Bool.decide_and, decide_eq_decide, periodKey_eq_iff]
  refine and_congr_right fun _ => ?_
  rw [and_comm]
  refine and_congr_right fun hconfirmed => ?_
  exact hbounds.between_iff_of_day u.month_range.2 (hfirst r hr hconfirmed)

/-- Who is not ranked has no volume. -/
theorem volume_of_not_ranked (hbounds : MonthBounds u.year u.month start stop)
    (hfirst : db.NoFirstRows) {m : UUID}
    (hm : m ∉ db.rankedMerchants start stop) :
    db.volume (periodKey u) m = 0 := by
  have hnil : Stmt.merchantRows
      (Stmt.leaderboardRows db start.micros stop.micros) m = [] := by
    refine List.filter_eq_nil_iff.mpr fun r hr hmerchant => hm ?_
    rw [Db.rankedMerchants, List.mem_dedup]
    exact of_decide_eq_true hmerchant ▸ List.mem_map_of_mem hr
  rw [← rowOf_volume_cents hbounds hfirst, Db.rowOf, hnil]
  rfl

/-- **A rebuild stores the volumes.** -/
theorem scoresOf_boardOf (h : db.Ranking start stop rows)
    (hbounds : MonthBounds u.year u.month start stop) (hfirst : db.NoFirstRows)
    (hexact : ∀ m, (db.volume (periodKey u) m).natAbs ≤ 2 ^ 53) :
    scoresOf (boardOf rows) = db.volume (periodKey u) := by
  funext m
  rw [scoresOf]
  by_cases hm : m ∈ db.rankedMerchants start stop
  · have hrow : db.rowOf start stop m ∈ rows :=
      h.perm.symm.subset (List.mem_map_of_mem hm)
    have hget : (boardOf rows).get? m.str =
        some (roundDouble (db.rowOf start stop m).volume_cents) := by
      rw [Dict.get?_eq_some_iff, entries_boardOf h.nodup]
      exact List.mem_map.mpr ⟨_, hrow, Prod.ext rfl rfl⟩
    rw [hget, rowOf_volume_cents hbounds hfirst, Option.getD_some]
    exact roundDouble_eq_self (hexact m)
  · have hnone : (boardOf rows).get? m.str = none := by
      refine Dict.get?_eq_none_iff.mpr fun hmem => hm ?_
      rw [Dict.keys, entries_boardOf h.nodup, List.map_map] at hmem
      obtain ⟨row, hrow, heq⟩ := List.mem_map.mp hmem
      obtain ⟨m', hm', rfl⟩ := List.mem_map.mp (h.perm.subset hrow)
      exact UUID.str_injective heq ▸ hm'
    rw [hnone, volume_of_not_ranked hbounds hfirst hm]
    rfl

/-- Increments that fit add the volumes; the sum is rounded. -/
theorem scoresOf_gained {scores : Dict String ℤ} {period : String} {m : UUID}
    (hscore : (scoresOf scores m).natAbs ≤ 2 ^ 53)
    (hnew : (confirmedVolume period m new).natAbs ≤ 2 ^ 53) :
    scoresOf (gained scores (confirmedIn period new)) m =
      roundDouble (scoresOf scores m + confirmedVolume period m new) := by
  rw [confirmedVolume] at hnew ⊢
  rw [scoresOf] at hscore
  rw [scoresOf, scoresOf, get?_gained]
  by_cases hnil : amountsOf m.str (confirmedIn period new) = []
  · rw [if_pos hnil, hnil, List.sum_nil, add_zero]
    exact (roundDouble_eq_self hscore).symm
  · rw [if_neg hnil, Option.getD_some, roundDouble_eq_self hnew]

end Rebuild

end AnalyticsPipeline
