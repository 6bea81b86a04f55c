import AnalyticsPipeline.Metatheory.Rankings

/-!
# Whole leaderboards

A sorted set is whole when its scores are the volumes of all payments of the
period. Publishing new payments keeps it so, a rebuild makes it so, and what is
read back then lists the payments.
-/

namespace AnalyticsPipeline

open Framework

/-- The scores are the volumes of the payments, one for each merchant that has
any. -/
def Represents (scores : Dict String ℤ) (events : List RawEvent) : Prop :=
  ∀ member, scores.get? member =
    if amountsOf member events = [] then none
    else some (amountsOf member events).sum

/-- No volume is too great for a score. -/
def Fits (events : List RawEvent) : Prop := ∀ m, merchantVolume m events ≤ 2 ^ 53

section Amounts

variable {events events' : List RawEvent} {m : UUID} {member : String}

theorem amountsOf_str (m : UUID) (events : List RawEvent) :
    (amountsOf m.str events).sum = merchantVolume m events := by
  have hfilter : (events.filter fun e => e.merchant_id.str = m.str) =
      events.filter fun e => e.merchant_id = m :=
    List.filter_congr fun e _ =>
      decide_eq_decide.mpr UUID.str_injective.eq_iff
  rw [amountsOf, hfilter, merchantVolume]

theorem confirmedVolume_eq (period : String) (m : UUID)
    (events : List RawEvent) : confirmedVolume period m events =
      merchantVolume m (confirmedIn period events) := amountsOf_str m _

theorem amountsOf_append (member : String) (events events' : List RawEvent) :
    amountsOf member (events ++ events') =
      amountsOf member events ++ amountsOf member events' := by
  rw [amountsOf, List.filter_append, List.map_append]
  rfl

theorem exists_of_amountsOf (h : amountsOf member events ≠ []) :
    ∃ e ∈ events, e.merchant_id.str = member := by
  obtain ⟨x, hx⟩ := List.exists_mem_of_ne_nil _ h
  obtain ⟨e, he, -⟩ := List.mem_map.mp hx
  obtain ⟨he, hmember⟩ := List.mem_filter.mp he
  exact ⟨e, he, of_decide_eq_true hmember⟩

theorem amountsOf_ne_nil {e : RawEvent} (he : e ∈ events) :
    amountsOf e.merchant_id.str events ≠ [] :=
  List.ne_nil_of_mem (List.mem_map_of_mem
    (List.mem_filter.mpr ⟨he, decide_eq_true rfl⟩))

theorem merchantVolume_nonneg (h : Credits events) :
    0 ≤ merchantVolume m events := by
  refine List.sum_nonneg fun x hx => ?_
  obtain ⟨e, he, rfl⟩ := List.mem_map.mp hx
  exact h e (List.mem_of_mem_filter he)

theorem merchantVolume_append (m : UUID) (events events' : List RawEvent) :
    merchantVolume m (events ++ events') =
      merchantVolume m events + merchantVolume m events' := by
  simp only [merchantVolume, List.filter_append, List.map_append,
    List.sum_append]

theorem merchantVolume_perm (h : events.Perm events') :
    merchantVolume m events = merchantVolume m events' :=
  ((h.filter _).map _).sum_eq

theorem Lists.perm {volumes : List (UUID × ℤ)} (h : Lists events volumes)
    (hperm : events.Perm events') : Lists events' volumes where
  nodup := h.nodup
  merchants := fun m => by
    simp only [h.merchants, hperm.mem_iff]
  volumes := fun p hp => (h.volumes p hp).trans (merchantVolume_perm hperm)

end Amounts

section Represents

variable {scores : Dict String ℤ} {events events' new : List RawEvent}
  {rows : List LeaderboardRow}

theorem Represents.nil : Represents ∅ [] := fun _ => rfl

theorem Represents.perm (h : Represents scores events)
    (hperm : events.Perm events') : Represents scores events' := by
  intro member
  have hamounts : (amountsOf member events).Perm (amountsOf member events') :=
    (hperm.filter _).map _
  rw [h member, hamounts.sum_eq]
  by_cases hnil : amountsOf member events = []
  · rw [hnil, List.nil_perm] at hamounts
    rw [if_pos hnil, if_pos hamounts]
  · have hne : amountsOf member events' ≠ [] := fun hnil' =>
      hnil (List.perm_nil.mp (hnil' ▸ hamounts))
    rw [if_neg hnil, if_neg hne]

/-- **Publishing keeps a set whole.** -/
theorem Represents.gained (h : Represents scores events)
    (hevents : Credits events) (hnew : Credits new)
    (hfits : Fits (events ++ new)) :
    Represents (gained scores new) (events ++ new) := by
  intro member
  rw [get?_gained, h member, amountsOf_append]
  by_cases hnil : amountsOf member new = []
  · rw [if_pos hnil, hnil, List.append_nil]
  · obtain ⟨e, -, rfl⟩ := exists_of_amountsOf hnil
    have hold := merchantVolume_nonneg (m := e.merchant_id) hevents
    have hadd := merchantVolume_nonneg (m := e.merchant_id) hnew
    have hsum := hfits e.merchant_id
    rw [merchantVolume_append] at hsum
    rw [if_neg hnil, if_neg (List.append_ne_nil_of_right_ne_nil _ hnil),
      List.sum_append, amountsOf_str, amountsOf_str,
      roundDouble_eq_self (n := merchantVolume e.merchant_id new) (by omega)]
    split
    · rename_i hnone
      have hzero : merchantVolume e.merchant_id events = 0 := by
        rw [← amountsOf_str, hnone]
        rfl
      rw [hzero, Option.getD_none, roundDouble_eq_self (by omega)]
    · rw [Option.getD_some, roundDouble_eq_self (by omega)]

/-- **A rebuild makes a set whole.** -/
theorem represents_boardOf
    (h : Lists events (rows.map LeaderboardRow.volume)) (hevents : Credits events)
    (hfits : Fits events) : Represents (boardOf rows) events := by
  have hids : (rows.map LeaderboardRow.volume).map Prod.fst =
      rows.map (·.merchant_id) := List.map_map ..
  have hnd : (rows.map (·.merchant_id)).Nodup := hids ▸ h.nodup
  intro member
  have hget : ∀ v, (boardOf rows).get? member = some v ↔
      ∃ row ∈ rows, row.merchant_id.str = member ∧
        merchantVolume row.merchant_id events = v := by
    intro v
    rw [Dict.get?_eq_some_iff, entries_boardOf hnd, List.mem_map]
    refine exists_congr fun row => and_congr_right fun hrow => ?_
    have hvolume : row.volume_cents = merchantVolume row.merchant_id events :=
      h.volumes row.volume (List.mem_map_of_mem hrow)
    have hnonneg := merchantVolume_nonneg (m := row.merchant_id) hevents
    have hle := hfits row.merchant_id
    rw [LeaderboardRow.member, Prod.mk.injEq, hvolume,
      roundDouble_eq_self (by omega)]
  by_cases hnil : amountsOf member events = []
  · rw [if_pos hnil]
    cases hsome : (boardOf rows).get? member with
    | none => rfl
    | some v =>
        obtain ⟨row, hrow, rfl, -⟩ := (hget v).mp hsome
        have hmem : row.merchant_id ∈ (rows.map LeaderboardRow.volume).map
            Prod.fst := hids ▸ List.mem_map_of_mem hrow
        obtain ⟨e, he, heq⟩ := (h.merchants row.merchant_id).mp hmem
        rw [← heq] at hnil
        exact absurd hnil (amountsOf_ne_nil he)
  · rw [if_neg hnil, hget]
    obtain ⟨e, he, rfl⟩ := exists_of_amountsOf hnil
    have hmem := (h.merchants e.merchant_id).mpr ⟨e, he, rfl⟩
    rw [hids] at hmem
    obtain ⟨row, hrow, heq⟩ := List.mem_map.mp hmem
    exact ⟨row, hrow, by rw [heq], by rw [heq, amountsOf_str]⟩

/-- **What a whole set holds** are rows that list the payments. -/
theorem Represents.exists_rows (h : Represents scores events)
    (hevents : Credits events) (hfits : Fits events) :
    ∃ rows : List LeaderboardRow,
      Redis.ranked scores = rows.map LeaderboardRow.member ∧
      (∀ row ∈ rows, roundDouble row.volume_cents = row.volume_cents) ∧
      Lists events (rows.map LeaderboardRow.volume) := by
  have hperm : (Redis.ranked scores).Perm scores.entries :=
    List.perm_insertionSort _ _
  -- every member is a merchant with a payment, its score that volume
  have hpair : ∀ p ∈ Redis.ranked scores, ∃ e ∈ events,
      p = (e.merchant_id.str, merchantVolume e.merchant_id events) := by
    intro p hp
    have hget := Dict.get?_eq_some_iff.mpr (hperm.subset hp)
    rw [h p.1] at hget
    split at hget
    · cases hget
    · rename_i hne
      obtain ⟨e, he, heq⟩ := exists_of_amountsOf hne
      refine ⟨e, he, Prod.ext heq.symm ?_⟩
      rw [← Option.some.inj hget, ← heq, amountsOf_str]
  -- the row the member and its score would come from
  let rowOf : String × ℤ → LeaderboardRow := fun p =>
    ⟨(UUID.ofStr? p.1).getD 0, p.2, 0⟩
  have hexact : ∀ e ∈ events, roundDouble (merchantVolume e.merchant_id events) =
      merchantVolume e.merchant_id events := fun e _ => by
    have hnonneg := merchantVolume_nonneg (m := e.merchant_id) hevents
    have hle := hfits e.merchant_id
    exact roundDouble_eq_self (by omega)
  have hrow : ∀ p ∈ Redis.ranked scores, ∃ e ∈ events,
      (rowOf p).volume = (e.merchant_id, merchantVolume e.merchant_id events) ∧
      (rowOf p).member = p := by
    intro p hp
    obtain ⟨e, he, rfl⟩ := hpair p hp
    refine ⟨e, he, ?_⟩
    simp only [rowOf, LeaderboardRow.volume, LeaderboardRow.member,
      UUID.ofStr?_str, Option.getD_some, hexact e he, and_self]
  have hmember : ((Redis.ranked scores).map rowOf).map LeaderboardRow.member =
      Redis.ranked scores := by
    rw [List.map_map]
    refine (List.map_congr_left fun p hp => ?_).trans (List.map_id _)
    obtain ⟨e, -, -, hp'⟩ := hrow p hp
    exact hp'
  refine ⟨(Redis.ranked scores).map rowOf, hmember.symm, ?_, ?_, fun m => ?_, ?_⟩
  · refine List.forall_mem_map.mpr fun p hp => ?_
    obtain ⟨e, he, hvolume, -⟩ := hrow p hp
    rw [show (rowOf p).volume_cents = merchantVolume e.merchant_id events from
      congrArg Prod.snd hvolume]
    exact hexact e he
  · have hkeys : ((Redis.ranked scores).map Prod.fst).Nodup :=
      (hperm.map _).nodup_iff.mpr scores.nodup_keys
    rw [← hmember, List.map_map] at hkeys
    rw [List.map_map]
    refine List.Nodup.of_map UUID.str ?_
    rw [List.map_map]
    exact hkeys
  · rw [List.map_map, List.map_map, List.mem_map]
    constructor
    · rintro ⟨p, hp, rfl⟩
      obtain ⟨e, he, hvolume, -⟩ := hrow p hp
      exact ⟨e, he, (congrArg Prod.fst hvolume).symm⟩
    · rintro ⟨e, he, rfl⟩
      have hget := h e.merchant_id.str
      rw [if_neg (amountsOf_ne_nil he)] at hget
      have hmem := hperm.symm.subset (Dict.get?_eq_some_iff.mp hget)
      refine ⟨_, hmem, ?_⟩
      simp only [Function.comp_apply, rowOf, LeaderboardRow.volume,
        UUID.ofStr?_str, Option.getD_some]
  · refine List.forall_mem_map.mpr (List.forall_mem_map.mpr fun p hp => ?_)
    obtain ⟨e, -, hvolume, -⟩ := hrow p hp
    rw [hvolume]

end Represents

end AnalyticsPipeline
