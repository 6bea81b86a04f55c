import AnalyticsPipeline.Framework.Ranking
import AnalyticsPipeline.Metatheory.LeaderboardReads
import AnalyticsPipeline.Metatheory.Volumes

/-!
# Rankings

A ranking read from the day rows, as a list of merchants with the sums of their
payments; and what is read back of it from the sorted set it was stored in.
-/

namespace AnalyticsPipeline

open Framework

/-- The confirmed payments whose day is between the bounds. -/
def covered (start stop : DateTime) (events : List RawEvent) : List RawEvent :=
  events.filter fun e =>
    Stmt.between start.micros stop.micros (dayBucket (bucketTs e)) ∧
      e.event_type = .paymentConfirmed

def merchantVolume (m : UUID) (events : List RawEvent) : ℤ :=
  ((events.filter fun e => e.merchant_id = m).map fun e => e.amount_cents).sum

/-- Each merchant of the events once, with the sum of its amounts. -/
structure Lists (events : List RawEvent) (volumes : List (UUID × ℤ)) : Prop where
  nodup : (volumes.map Prod.fst).Nodup
  merchants : ∀ m, m ∈ volumes.map Prod.fst ↔ ∃ e ∈ events, e.merchant_id = m
  volumes : ∀ p ∈ volumes, p.2 = merchantVolume p.1 events

/-- Payments of one merchant. -/
theorem Lists.of_merchant {events : List RawEvent} {volumes : List (UUID × ℤ)}
    {m : UUID} (h : Lists events volumes) (hne : events ≠ [])
    (hall : ∀ e ∈ events, e.merchant_id = m) :
    volumes = [(m, merchantVolume m events)] := by
  have hids : volumes.map Prod.fst = [m] := by
    refine List.perm_singleton.mp ((List.perm_ext_iff_of_nodup h.nodup
      (List.nodup_singleton _)).mpr fun m' => ?_)
    rw [h.merchants, List.mem_singleton]
    constructor
    · rintro ⟨e, he, rfl⟩
      exact hall e he
    · rintro rfl
      obtain ⟨e, he⟩ := List.exists_mem_of_ne_nil _ hne
      exact ⟨e, he, hall e he⟩
  obtain ⟨p, rfl, hp⟩ := List.map_eq_singleton_iff.mp hids
  have hvolume := h.volumes p (List.mem_singleton_self p)
  rw [hp] at hvolume
  rw [← hvolume, ← hp]

theorem Lists.singleton {e : RawEvent} {volumes : List (UUID × ℤ)}
    (h : Lists [e] volumes) : volumes = [(e.merchant_id, e.amount_cents)] := by
  rw [h.of_merchant (List.cons_ne_nil _ _) fun e' he' => by
    rw [List.mem_singleton.mp he']]
  simp [merchantVolume]

def LeaderboardRow.volume (row : LeaderboardRow) : UUID × ℤ :=
  (row.merchant_id, row.volume_cents)

def LeaderboardEntry.volume (entry : LeaderboardEntry) : UUID × ℤ :=
  (entry.merchant_id, entry.volume_cents)

section Rankings

variable {db : Db} {events : List RawEvent} {start stop : DateTime}
  {rows : List LeaderboardRow}

theorem rollupEntries_volume (rows : List LeaderboardRow) :
    (QueryService.rollupEntries rows).map LeaderboardEntry.volume =
      rows.map LeaderboardRow.volume := by
  have hfst := congrArg (List.map LeaderboardRow.volume)
    (List.zipIdx_map_fst 0 rows)
  rw [List.map_map] at hfst
  rw [QueryService.rollupEntries, List.map_map]
  exact hfst

/-- The merchants that are ranked. -/
def Db.rankedMerchants (db : Db) (start stop : DateTime) : List UUID :=
  ((Stmt.leaderboardRows db start.micros stop.micros).map
    (·.1.merchant_id)).dedup

def Db.rankedCount (db : Db) (start stop : DateTime) : ℕ :=
  (db.rankedMerchants start stop).length

/-- No more merchants are ranked than there are day rows. -/
theorem Db.rankedCount_le (db : Db) (start stop : DateTime) :
    db.rankedCount start stop ≤ (db.rollup .day).entries.length := by
  refine (List.dedup_sublist _).length_le.trans ?_
  rw [List.length_map]
  exact List.length_filter_le _ _

/-- A row of the ranking before it is sorted. -/
def Db.rowOf (db : Db) (start stop : DateTime) (m : UUID) : LeaderboardRow :=
  let rows := Stmt.merchantRows
    (Stmt.leaderboardRows db start.micros stop.micros) m
  ⟨m, Stmt.sumAmount rows, Stmt.sumCount rows⟩

theorem Db.Ranking.perm (h : db.Ranking start stop rows) :
    rows.Perm ((db.rankedMerchants start stop).map (db.rowOf start stop)) := by
  obtain ⟨ids, hids, rfl⟩ := h
  exact (List.perm_insertionSort _ _).trans (hids.map _)

theorem Db.Ranking.ids_perm (h : db.Ranking start stop rows) :
    (rows.map (·.merchant_id)).Perm (db.rankedMerchants start stop) := by
  refine (h.perm.map _).trans (List.Perm.of_eq ?_)
  rw [List.map_map]
  exact List.map_id _

theorem Db.Ranking.nodup (h : db.Ranking start stop rows) :
    (rows.map (·.merchant_id)).Nodup :=
  h.ids_perm.nodup_iff.mpr (List.nodup_dedup _)

theorem Db.Ranking.length (h : db.Ranking start stop rows) :
    rows.length = (db.rankedMerchants start stop).length := by
  rw [h.perm.length_eq, List.length_map]

theorem Rolled.mem_rankedMerchants (h : Rolled db events) (m : UUID) :
    m ∈ db.rankedMerchants start stop ↔
      ∃ e ∈ covered start stop events, e.merchant_id = m := by
  have hiff := (h .day).exists_entry_iff fun k =>
    (Stmt.between start.micros stop.micros k.bucket = true ∧
      k.event_type = .paymentConfirmed) ∧ k.merchant_id = m
  simp only [Db.rankedMerchants, List.mem_dedup, List.mem_map,
    Stmt.leaderboardRows, List.mem_filter, covered, decide_eq_true_eq, and_assoc]
    at hiff ⊢
  exact hiff

theorem Rolled.rowOf_volume (h : Rolled db events) (m : UUID) :
    (db.rowOf start stop m).volume_cents =
      merchantVolume m (covered start stop events) := by
  have hrows := (h .day).amount_entries fun k =>
    decide (k.merchant_id = m) && decide (Stmt.between start.micros stop.micros
      k.bucket = true ∧ k.event_type = .paymentConfirmed)
  rw [Db.rowOf, merchantVolume, covered, List.filter_filter]
  dsimp only
  rw [Stmt.merchantRows, Stmt.leaderboardRows, List.filter_filter,
    Stmt.sumAmount]
  exact hrows

/-- **A ranking lists the covered payments.** -/
theorem Rolled.lists (h : Rolled db events)
    (hrows : db.Ranking start stop rows) :
    Lists (covered start stop events) (rows.map LeaderboardRow.volume) := by
  have hids : (rows.map LeaderboardRow.volume).map Prod.fst =
      rows.map (·.merchant_id) := List.map_map ..
  refine ⟨?_, fun m => ?_, List.forall_mem_map.mpr fun row hrow => ?_⟩
  · rw [hids]
    exact hrows.nodup
  · rw [hids, hrows.ids_perm.mem_iff, h.mem_rankedMerchants]
  · obtain ⟨m, -, rfl⟩ := List.mem_map.mp (hrows.perm.subset hrow)
    exact h.rowOf_volume m

end Rankings

/-! ## Rankings and sorted sets -/

theorem ranking_iff {db : Db} {start stop : DateTime}
    {rows : List LeaderboardRow} : db.Ranking start stop rows ↔
      IsRanking (fun row : LeaderboardRow => row.volume_cents)
        ((db.rankedMerchants start stop).map (db.rowOf start stop)) rows := by
  constructor
  · rintro h
    refine ⟨h.perm, ?_⟩
    obtain ⟨ids, -, rfl⟩ := h
    exact (IsRanking.insertionSort _ _).sorted
  · rintro ⟨hperm, hsorted⟩
    have hrows : (rows.map (·.merchant_id)).map (db.rowOf start stop) = rows := by
      rw [List.map_map]
      refine (List.map_congr_left fun row hrow => ?_).trans (List.map_id rows)
      obtain ⟨m, -, rfl⟩ := List.mem_map.mp (hperm.subset hrow)
      rfl
    refine ⟨rows.map (·.merchant_id), ?_, ?_⟩
    · refine (hperm.map _).trans (List.Perm.of_eq ?_)
      rw [List.map_map]
      exact List.map_id _
    · change rows = List.insertionSort _ ((rows.map (·.merchant_id)).map
        (db.rowOf start stop))
      rw [hrows]
      exact hsorted.insertionSort_eq.symm

/-- The member of a row, under its score. -/
def LeaderboardRow.member (row : LeaderboardRow) : String × ℤ :=
  (row.merchant_id.str, roundDouble row.volume_cents)

/-- The order of `ZREVRANGE`. -/
def Redis.before (a b : String × ℤ) : Prop :=
  b.2 < a.2 ∨ (a.2 = b.2 ∧ b.1 ≤ a.1)

instance Redis.decidableBefore : DecidableRel Redis.before :=
  fun a b => inferInstanceAs (Decidable (b.2 < a.2 ∨ (a.2 = b.2 ∧ b.1 ≤ a.1)))

/-- The rows in the order they are read back from the sorted set. -/
def servedRows (rows : List LeaderboardRow) : List LeaderboardRow :=
  rows.insertionSort fun a b => Redis.before a.member b.member

/-- The entry of a row that is read back. -/
def servedEntries (rows : List LeaderboardRow) : List LeaderboardEntry :=
  rows.zipIdx.map fun p =>
    ⟨p.2 + 1, p.1.merchant_id, none, roundDouble p.1.volume_cents, none⟩

section Served

variable {rows : List LeaderboardRow}

theorem servedEntries_rounded (rows : List LeaderboardRow) :
    (servedEntries rows).map LeaderboardEntry.volume = rows.map fun row =>
      (row.merchant_id, roundDouble row.volume_cents) := by
  have hfst := congrArg (List.map fun row : LeaderboardRow =>
    (row.merchant_id, roundDouble row.volume_cents)) (List.zipIdx_map_fst 0 rows)
  rw [List.map_map] at hfst
  rw [servedEntries, List.map_map]
  exact hfst

theorem servedEntries_volume (hexact : ∀ row ∈ rows,
    roundDouble row.volume_cents = row.volume_cents) :
    (servedEntries rows).map LeaderboardEntry.volume =
      rows.map LeaderboardRow.volume := by
  rw [servedEntries_rounded]
  exact List.map_congr_left fun row hrow => by
    rw [hexact row hrow, LeaderboardRow.volume]

theorem entries_boardOf (hnd : (rows.map (·.merchant_id)).Nodup) :
    (boardOf rows).entries = rows.map LeaderboardRow.member := by
  induction rows using List.reverseRecOn with
  | nil => rfl
  | append_singleton rows row ih =>
      rw [List.map_append, List.nodup_append] at hnd
      have hfresh : row.merchant_id.str ∉ (boardOf rows).keys := by
        rw [Dict.keys, ih hnd.1, List.map_map]
        intro hmem
        obtain ⟨row', hrow', heq⟩ := List.mem_map.mp hmem
        exact hnd.2.2 _ (List.mem_map_of_mem hrow') _ List.mem_cons_self
          (UUID.str_injective heq)
      have hfold : boardOf (rows ++ [row]) = place row (boardOf rows) := by
        rw [boardOf, List.foldl_append]
        rfl
      rw [hfold, place, Dict.entries_set_of_not_mem hfresh, ih hnd.1,
        List.map_append]
      rfl

theorem ranked_boardOf (hnd : (rows.map (·.merchant_id)).Nodup) :
    Redis.ranked (boardOf rows) = (servedRows rows).map LeaderboardRow.member := by
  have hranked : Redis.ranked (boardOf rows) =
      (boardOf rows).entries.insertionSort Redis.before := rfl
  rw [hranked, entries_boardOf hnd, servedRows]
  exact (List.map_insertionSort (fun a b : LeaderboardRow =>
    Redis.before a.member b.member) Redis.before _ _
      fun _ _ _ _ => Iff.rfl).symm

theorem redisEntries_map (rows : List LeaderboardRow) :
    QueryService.redisEntries (rows.map LeaderboardRow.member) =
      .ok (servedEntries rows) := by
  apply mapM_eq_ok_iff.mpr
  rw [List.zipIdx_map, List.forall₂_map_left_iff, servedEntries,
    List.forall₂_map_right_iff, List.forall₂_same]
  intro p _
  simp only [Prod.map_fst, Prod.map_snd, LeaderboardRow.member, id_eq,
    UUID.ofStr?_str]

theorem hotAnswer_boardOf (hnd : (rows.map (·.merchant_id)).Nodup) (n : ℕ) :
    hotAnswer (boardOf rows) n =
      .ok (servedEntries ((servedRows rows).take n), "redis") := by
  rw [hotAnswer, ranked_boardOf hnd, ← List.map_take, redisEntries_map]
  rfl

theorem servedRows_perm (rows : List LeaderboardRow) :
    (servedRows rows).Perm rows := List.perm_insertionSort _ _

/-- **Exact scores rank as the volumes do.** -/
theorem servedRows_ranking (hexact : ∀ row ∈ rows,
    roundDouble row.volume_cents = row.volume_cents) :
    IsRanking (fun row : LeaderboardRow => row.volume_cents) rows
      (servedRows rows) where
  perm := servedRows_perm rows
  sorted := by
    have : Std.Total fun a b : LeaderboardRow =>
        Redis.before a.member b.member := ⟨fun a b => by
      rcases lt_trichotomy a.member.2 b.member.2 with h | h | h
      · exact .inr (.inl h)
      · rcases String.le_total b.member.1 a.member.1 with h' | h'
        · exact .inl (.inr ⟨h, h'⟩)
        · exact .inr (.inr ⟨h.symm, h'⟩)
      · exact .inl (.inl h)⟩
    have : IsTrans LeaderboardRow fun a b =>
        Redis.before a.member b.member := ⟨fun a b c hab hbc => by
      rcases hab with hab | ⟨hab, hab'⟩ <;> rcases hbc with hbc | ⟨hbc, hbc'⟩
      · exact .inl (hbc.trans hab)
      · exact .inl (hbc ▸ hab)
      · exact .inl (hab ▸ hbc)
      · exact .inr ⟨hab.trans hbc, String.le_trans hbc' hab'⟩⟩
    have hsorted := List.pairwise_insertionSort (fun a b : LeaderboardRow =>
      Redis.before a.member b.member) rows
    refine hsorted.imp_of_mem fun {a b} ha hb hbefore => ?_
    have hscore : b.member.2 ≤ a.member.2 := by
      rcases hbefore with h | ⟨h, -⟩
      · exact h.le
      · exact h.ge
    rwa [LeaderboardRow.member, LeaderboardRow.member,
      hexact a ((servedRows_perm rows).subset ha),
      hexact b ((servedRows_perm rows).subset hb)] at hscore

end Served

end AnalyticsPipeline
