import AnalyticsPipeline.Metatheory.Keyspace
import AnalyticsPipeline.Model.RollupWorker

/-!
# Leaderboards in Redis

One sorted set for each period, its members the texts of merchant ids. The
worker adds the confirmed amounts of a batch to the scores; a rebuild replaces
the set by the rows it is given.
-/

namespace AnalyticsPipeline

open Framework

/-- The scores of a period, if its key exists. -/
def Redis.board (r : Redis) (period : String) : Option (Dict String ℤ) :=
  match r.get? (leaderboardKey period) with
  | some ⟨.zset scores, _⟩ => some scores
  | _ => none

/-- Only sorted sets are kept at the keys of the leaderboards. -/
def Boards (r : Redis) : Prop :=
  ∀ period entry, r.get? (leaderboardKey period) = some entry →
    ∃ scores, entry.value = .zset scores

/-! ## Keys -/

theorem toList_leaderboardKey (period : String) :
    (leaderboardKey period).toList =
      "leaderboard:volume:".toList ++ period.toList := by
  have h : leaderboardKey period = "leaderboard:volume:" ++ period := rfl
  rw [h, String.toList_append]

theorem leaderboardKey_injective {p q : String}
    (h : leaderboardKey p = leaderboardKey q) : p = q := by
  have hchars := congrArg String.toList h
  rw [toList_leaderboardKey, toList_leaderboardKey] at hchars
  exact String.toList_inj.mp (List.append_cancel_left hchars)

/-- The key of no leaderboard begins with another letter. -/
theorem ne_leaderboardKey {key : String} (h : key.toList.head? ≠ some 'l')
    (period : String) : leaderboardKey period ≠ key := by
  rintro rfl
  rw [toList_leaderboardKey] at h
  exact h rfl

section Boards

variable {r r' : Redis} {period : String}

theorem Boards.scores? (h : Boards r) (period : String) :
    r.scores? (leaderboardKey period) = .ok ((r.board period).getD ∅) := by
  rw [Redis.scores?, Redis.board]
  cases hget : r.get? (leaderboardKey period) with
  | none => rfl
  | some entry =>
      obtain ⟨scores, hvalue⟩ := h period entry hget
      obtain ⟨value, ttl⟩ := entry
      cases hvalue
      rfl

theorem Boards.board_isSome (h : Boards r) (period : String) :
    (r.board period).isSome = (r.get? (leaderboardKey period)).isSome := by
  rw [Redis.board]
  cases hget : r.get? (leaderboardKey period) with
  | none => rfl
  | some entry =>
      obtain ⟨scores, hvalue⟩ := h period entry hget
      obtain ⟨value, ttl⟩ := entry
      cases hvalue
      rfl

theorem board_congr (h : r'.get? (leaderboardKey period) =
    r.get? (leaderboardKey period)) : r'.board period = r.board period := by
  rw [Redis.board, Redis.board, h]

end Boards

/-! ## Pipelines on one sorted set -/

/-- Commands that change the scores of one sorted set, element by element. -/
structure Scoring {β : Type} (key : String) (op : β → RedisOp)
    (f : β → Dict String ℤ → Dict String ℤ) : Prop where
  run : ∀ (r : Redis) b, r.run (op b) =
    (r.scores? key).map fun scores => r.putScores key (f b scores)

/-- What a pipeline leaves at the key it is about. -/
structure Scored (key : String) (r r' : Redis) (scores : Dict String ℤ) :
    Prop where
  scores? : r'.scores? key = .ok scores
  others : ∀ k, k ≠ key → r'.get? k = r.get? k

theorem runAll_scoring {β : Type} {key : String} {op : β → RedisOp}
    {f : β → Dict String ℤ → Dict String ℤ} (hop : Scoring key op f)
    (rest : List RedisOp) : ∀ (xs : List β) {r : Redis}
    {scores : Dict String ℤ}, r.scores? key = .ok scores →
    ∃ r', r.runAll (xs.map op ++ rest) = r'.runAll rest ∧
      Scored key r r' (xs.foldl (fun scores b => f b scores) scores) ∧
      (xs ≠ [] ∨ (r.get? key).isSome = true → (r'.get? key).isSome = true)
  | [], r, scores, h => by
      refine ⟨r, rfl, ⟨h, fun _ _ => rfl⟩, fun hsome => ?_⟩
      exact hsome.resolve_left fun hne => hne rfl
  | b :: xs, r, scores, h => by
      have hrun : r.run (op b) = .ok (r.putScores key (f b scores)) := by
        rw [hop.run, h]
        rfl
      have hput : (r.putScores key (f b scores)).get? key =
          some ⟨.zset (f b scores), r.ttl? key⟩ := by
        rw [Redis.putScores, Dict.get?_set, if_pos rfl]
      have hscores : (r.putScores key (f b scores)).scores? key =
          .ok (f b scores) := by
        rw [Redis.scores?, hput]
      obtain ⟨r', hall, hscored, hsome⟩ := runAll_scoring hop rest xs hscores
      refine ⟨r', ?_, ⟨hscored.scores?, fun k hk => ?_⟩, fun _ => ?_⟩
      · rw [List.map_cons, List.cons_append, Redis.runAll, hrun]
        exact hall
      · rw [hscored.others k hk, Redis.putScores, Dict.get?_set, if_neg hk]
      · exact hsome (.inr (by rw [hput]; rfl))

theorem zset_of_scores? {key : String} {r : Redis} {scores : Dict String ℤ}
    {entry : RedisEntry} (h : r.scores? key = .ok scores)
    (hget : r.get? key = some entry) : entry.value = .zset scores := by
  obtain ⟨value, ttl⟩ := entry
  rw [Redis.scores?, hget] at h
  cases value with
  | zset _ => rw [Except.ok.inj h]
  | document _ => cases h
  | timestamp _ => cases h

/-- `EXPIRE` on a sorted set. -/
theorem runAll_expire {key : String} {r : Redis} {scores : Dict String ℤ}
    (h : r.scores? key = .ok scores) (hsome : (r.get? key).isSome = true)
    (seconds : ℕ) :
    (r.runAll [.expire key seconds]).1 = .ok () ∧
      (r.runAll [.expire key seconds]).2.get? key =
        if seconds = 0 then none else some ⟨.zset scores, some seconds⟩ := by
  obtain ⟨⟨value, ttl⟩, hget⟩ := Option.isSome_iff_exists.mp hsome
  obtain rfl : value = .zset scores := zset_of_scores? h hget
  by_cases hs : seconds = 0
  · simp [Redis.runAll, Redis.run, hget, hs]
  · simp [Redis.runAll, Redis.run, hget, hs]

/-! ## Increments -/

/-- `ZINCRBY` of one member. -/
def increment (p : String × ℤ) (scores : Dict String ℤ) : Dict String ℤ :=
  scores.alter p.1 fun old => roundDouble (old.getD 0 + roundDouble p.2)

theorem scoring_increment (key : String) :
    Scoring key (fun p : String × ℤ => .zincrby key p.2 p.1) increment where
  run := fun _ _ => rfl

/-- The commands of one `leaderboard_increment_batch`. -/
def incrementOps (period : String) (incs : List (String × ℤ)) : List RedisOp :=
  (incs.map fun p => .zincrby (leaderboardKey period) p.2 p.1) ++
    [.expire (leaderboardKey period) (48 * 3600)]

theorem runAll_incrementOps {r : Redis} (hb : Boards r) {period : String}
    {incs : List (String × ℤ)} (hne : incs ≠ []) :
    (r.runAll (incrementOps period incs)).1 = .ok () ∧
      (r.runAll (incrementOps period incs)).2.get? (leaderboardKey period) =
        some ⟨.zset (incs.foldl (fun scores p => increment p scores)
          ((r.board period).getD ∅)), some (48 * 3600)⟩ ∧
      ∀ k, k ≠ leaderboardKey period →
        (r.runAll (incrementOps period incs)).2.get? k = r.get? k := by
  obtain ⟨r', hall, hscored, hsome⟩ := runAll_scoring
    (scoring_increment (leaderboardKey period))
    [.expire (leaderboardKey period) (48 * 3600)] incs (hb.scores? period)
  obtain ⟨hok, hget⟩ := runAll_expire hscored.scores? (hsome (.inl hne))
    (48 * 3600)
  rw [incrementOps, hall]
  refine ⟨hok, hget, fun k hk => ?_⟩
  rw [← hscored.others k hk]
  refine runAll_get?_of_ne fun op hop => ?_
  rw [List.mem_singleton.mp hop]
  exact Ne.symm hk

/-! ## Rebuilds -/

/-- `ZADD` of one row. -/
def place (row : LeaderboardRow) (scores : Dict String ℤ) : Dict String ℤ :=
  scores.set row.merchant_id.str (roundDouble row.volume_cents)

theorem scoring_place (key : String) : Scoring key
    (fun row : LeaderboardRow => .zadd key row.merchant_id.str row.volume_cents)
    place where
  run := fun _ _ => rfl

/-- The sorted set of some rows. -/
def boardOf (rows : List LeaderboardRow) : Dict String ℤ :=
  rows.foldl (fun scores row => place row scores) ∅

/-- The commands of `leaderboard_rebuild`. -/
def rebuildOps (period : String) (ttl : ℕ) (rows : List LeaderboardRow) :
    List RedisOp :=
  [.delete (leaderboardKey period)] ++
    (rows.map fun e => .zadd (leaderboardKey period) e.merchant_id.str
      e.volume_cents) ++
    [.expire (leaderboardKey period) ttl]

theorem runAll_rebuildOps {r : Redis} {period : String} {ttl : ℕ}
    {rows : List LeaderboardRow} (hne : rows ≠ []) :
    (r.runAll (rebuildOps period ttl rows)).1 = .ok () ∧
      (r.runAll (rebuildOps period ttl rows)).2.get? (leaderboardKey period) =
        (if ttl = 0 then none else some ⟨.zset (boardOf rows), some ttl⟩) ∧
      ∀ k, k ≠ leaderboardKey period →
        (r.runAll (rebuildOps period ttl rows)).2.get? k = r.get? k := by
  have hempty : Redis.scores? (r.erase (leaderboardKey period))
      (leaderboardKey period) = .ok ∅ := by
    rw [Redis.scores?, Dict.get?_erase, if_pos rfl]
  obtain ⟨r', hall, hscored, hsome⟩ := runAll_scoring
    (scoring_place (leaderboardKey period))
    [.expire (leaderboardKey period) ttl] rows hempty
  obtain ⟨hok, hget⟩ := runAll_expire hscored.scores? (hsome (.inl hne)) ttl
  have hops : r.runAll (rebuildOps period ttl rows) =
      r'.runAll [.expire (leaderboardKey period) ttl] := hall
  rw [hops]
  refine ⟨hok, hget, fun k hk => ?_⟩
  rw [runAll_get?_of_ne, hscored.others k hk, Dict.get?_erase, if_neg hk]
  intro op hop
  rw [List.mem_singleton.mp hop]
  exact Ne.symm hk

/-! ## The increments of a batch -/

/-- The confirmed payments of a period. -/
def confirmedIn (period : String) (events : List RawEvent) : List RawEvent :=
  events.filter fun e =>
    e.event_type = .paymentConfirmed ∧ periodKey (bucketTs e) = period

/-- The amounts of a merchant, given by its text. -/
def amountsOf (member : String) (events : List RawEvent) : List ℤ :=
  (events.filter fun e => e.merchant_id.str = member).map (·.amount_cents)

/-- The volumes of merchants, as the inner dictionaries of
`period_increments` accumulate them. -/
def volumes (events : List RawEvent) : Dict String ℤ :=
  events.foldl (fun acc e => acc.alter e.merchant_id.str
    fun volume => volume.getD 0 + e.amount_cents) ∅

theorem foldl_sum (f : RawEvent → ℤ) : ∀ (events : List RawEvent) (n : ℤ),
    events.foldl (fun old e => some (old.getD 0 + f e)) (some n) =
      some (n + (events.map f).sum)
  | [], n => by simp
  | e :: events, n => by
      rw [List.foldl_cons, Option.getD_some, foldl_sum f events, List.map_cons,
        List.sum_cons, add_assoc]

theorem get?_volumes (events : List RawEvent) (member : String) :
    (volumes events).get? member =
      if amountsOf member events = [] then none
      else some (amountsOf member events).sum := by
  rw [volumes, Dict.get?_foldl_alter (fun e : RawEvent => e.merchant_id.str)
    fun e volume => volume.getD 0 + e.amount_cents, amountsOf]
  cases events.filter fun e => e.merchant_id.str = member with
  | nil => rfl
  | cons e es =>
      rw [List.foldl_cons, foldl_sum fun e : RawEvent => e.amount_cents]
      simp

theorem volumes_ne_nil {events : List RawEvent} (h : events ≠ []) :
    (volumes events).entries ≠ [] := by
  intro hnil
  obtain ⟨e, he⟩ := List.exists_mem_of_ne_nil _ h
  have hget : (volumes events).get? e.merchant_id.str = none := by
    rw [Dict.get?, hnil]
    rfl
  have hmem : e ∈ events.filter fun e' =>
      e'.merchant_id.str = e.merchant_id.str :=
    List.mem_filter.mpr ⟨he, by simp⟩
  rw [get?_volumes, if_neg] at hget
  · cases hget
  · intro hnone
    rw [amountsOf, List.map_eq_nil_iff] at hnone
    rw [hnone] at hmem
    cases hmem

theorem foldl_volumes : ∀ (events : List RawEvent) (acc : Dict String ℤ),
    events.foldl (fun old e => some ((old.getD ∅).alter e.merchant_id.str
        fun volume => volume.getD 0 + e.amount_cents)) (some acc) =
      some (events.foldl (fun acc e => acc.alter e.merchant_id.str
        fun volume => volume.getD 0 + e.amount_cents) acc)
  | [], _ => rfl
  | _ :: events, _ => foldl_volumes events _

theorem get?_periodIncrements (events : List RawEvent) (period : String) :
    (RollupWorker.periodIncrements events).get? period =
      if confirmedIn period events = [] then none
      else some (volumes (confirmedIn period events)) := by
  have hconfirmed : ((events.filter (·.event_type = .paymentConfirmed)).filter
      fun e => periodKey (bucketTs e) = period) = confirmedIn period events := by
    rw [List.filter_filter, confirmedIn]
    refine List.filter_congr fun e _ => ?_
    rw [Bool.and_comm, Bool.decide_and]
  rw [RollupWorker.periodIncrements,
    Dict.get?_foldl_alter (fun e : RawEvent => periodKey (bucketTs e))
      fun (e : RawEvent) (merchants : Option (Dict String ℤ)) =>
        (merchants.getD ∅).alter e.merchant_id.str
          fun volume => volume.getD 0 + e.amount_cents, hconfirmed]
  cases confirmedIn period events with
  | nil => rfl
  | cons e es =>
      rw [if_neg (List.cons_ne_nil e es), List.foldl_cons, foldl_volumes]
      rfl

/-- The increments of a period are the volumes of its payments, and there are
some. -/
theorem of_mem_periodIncrements {events : List RawEvent}
    {q : String × Dict String ℤ}
    (hq : q ∈ (RollupWorker.periodIncrements events).entries) :
    confirmedIn q.1 events ≠ [] ∧ q.2 = volumes (confirmedIn q.1 events) := by
  have hget := Dict.get?_eq_some_iff.mpr hq
  rw [get?_periodIncrements] at hget
  split at hget
  · cases hget
  · rename_i hne
    exact ⟨hne, (Option.some.inj hget).symm⟩

theorem entries_ne_nil_of_mem {events : List RawEvent}
    {q : String × Dict String ℤ}
    (hq : q ∈ (RollupWorker.periodIncrements events).entries) :
    q.2.entries ≠ [] := by
  obtain ⟨hne, hvolumes⟩ := of_mem_periodIncrements hq
  rw [hvolumes]
  exact volumes_ne_nil hne

end AnalyticsPipeline
