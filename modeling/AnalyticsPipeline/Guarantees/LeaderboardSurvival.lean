import AnalyticsPipeline.Guarantees.LeaderboardReaders
import AnalyticsPipeline.Guarantees.LeaderboardScores
import AnalyticsPipeline.Metatheory.WholeBoards

/-!
# Leaderboards that are lost

Redis may drop a leaderboard at any time; the next reader rebuilds it. When a
batch comes first, its increments make the key anew with the payments of the
batch alone, and readers take that for the whole leaderboard. As long as no
batch does, every answer is whole.
-/

namespace AnalyticsPipeline

open Framework Relation

/-- What may happen: the turns of the workers and of ingestion, a request for
the leaderboard of a month with room for all merchants, a key that is dropped. -/
inductive Move (worker : Settings → Prop) (w w' : World) : Prop where
  | turn : Turn worker w w' → Move worker w w'
  | read {i : ℕ} {settings : Settings} {top_n : Option ℕ}
      {u start stop : DateTime} {x : Except PyError LeaderboardResponse} :
      MonthBounds u.year u.month start stop →
      w.db.rankedCount start stop < pageSize settings top_n →
      Eval (M := services) noFailure i
        (leaderboardRequest settings (some (periodKey u)) top_n) w x w' →
      Move worker w w'
  | evict {key : String} : w.handle (.evict key) = some w' → Move worker w w'

/-- No confirmed payment of the period is processed while its sorted set is
missing, unless it is among the first ones. -/
def AddsIn (period : String) (w w' : World) : Prop :=
  w.redis.board period = none → confirmedIn period w.db.markedEvents ≠ [] →
    (confirmedIn period w'.db.markedEvents).length =
      (confirmedIn period w.db.markedEvents).length

/-- No confirmed payment of a period is processed while the sorted set of the
period is missing, unless it is among the first ones. -/
def AddsWhereStored (w w' : World) : Prop :=
  ∀ period, w.redis.board period = none →
    confirmedIn period w.db.markedEvents ≠ [] →
    (confirmedIn period w'.db.markedEvents).length =
      (confirmedIn period w.db.markedEvents).length

/-- No confirmed payment is dated on the first day of a month. -/
def NoFirstDays (events : List RawEvent) : Prop :=
  ∀ e ∈ events, e.event_type = .paymentConfirmed → (bucketTs e).day ≠ 1

/-- The state between two moves, whatever the sorted sets hold. -/
structure Settled (consumer_id : String) (w : World) : Prop where
  quiescent : Quiescent w
  consumer : ∀ m ∈ w.db.processed_rollup_events, m.consumer_id = consumer_id
  boards : Boards w.redis

/-- The sorted set of the period is missing or whole. -/
def WholeIn (period : String) (w : World) : Prop :=
  Exact w.db.markedEvents → NoFirstDays w.db.markedEvents →
    w.redis.board period = none ∨ ∃ scores,
      w.redis.board period = some scores ∧
        Represents scores (confirmedIn period w.db.markedEvents)

/-- The state between two moves: a sorted set is missing or whole. -/
structure Survives (consumer_id : String) (w : World) : Prop where
  quiescent : Quiescent w
  consumer : ∀ m ∈ w.db.processed_rollup_events, m.consumer_id = consumer_id
  boards : Boards w.redis
  whole : Exact w.db.markedEvents → NoFirstDays w.db.markedEvents →
    ∀ period, w.redis.board period = none ∨ ∃ scores,
      w.redis.board period = some scores ∧
        Represents scores (confirmedIn period w.db.markedEvents)

section Events

variable {events new : List RawEvent} {u start stop : DateTime}

/-- Without first days the bounds of a month select its payments. -/
theorem NoFirstDays.covered_eq (h : NoFirstDays events)
    (hbounds : MonthBounds u.year u.month start stop) :
    covered start stop events = confirmedIn (periodKey u) events := by
  refine List.filter_congr fun e he => decide_eq_decide.mpr ?_
  have hbetween := hbounds.between_iff (t := bucketTs e) u.month_range.2
  rw [periodKey_eq_iff, and_comm]
  refine and_congr_right fun hconfirmed => ?_
  rw [show dayBucket (bucketTs e) = (bucketTs e).truncDay from rfl, hbetween]
  refine or_iff_left fun hstop => ?_
  exact h e he hconfirmed ((congrArg DateTime.day hstop).trans hbounds.stop_day)

theorem Exact.fits (h : Exact events) (period : String) :
    Fits (confirmedIn period events) :=
  fun m => confirmedVolume_eq period m events ▸ h period m

theorem Credits.confirmedIn (h : Credits events) (period : String) :
    Credits (confirmedIn period events) :=
  fun e he => h e (List.mem_of_mem_filter he)

theorem confirmedIn_append (period : String) (events new : List RawEvent) :
    confirmedIn period (events ++ new) =
      confirmedIn period events ++ confirmedIn period new :=
  List.filter_append ..

end Events

section Moves

variable {consumer_id : String} {w w' : World} {i : ℕ} {settings : Settings}

theorem Boards.exists_board {r : Redis} (h : Boards r) {period : String}
    (hsome : r.get? (leaderboardKey period) ≠ none) :
    ∃ scores, r.board period = some scores := by
  rw [← Option.isSome_iff_exists, h.board_isSome]
  exact Option.isSome_iff_ne_none.mpr hsome

theorem board_eq_none {r : Redis} {period : String}
    (h : r.get? (leaderboardKey period) = none) : r.board period = none := by
  rw [Redis.board, h]

theorem get?_erase_or (r : Redis) (key k : String) :
    Dict.get? (r.erase key) k = none ∨ Dict.get? (r.erase key) k = r.get? k := by
  rw [Dict.get?_erase]
  split
  · exact .inl rfl
  · exact .inr rfl

theorem Settled.credits (h : Settled consumer_id w) :
    Credits w.db.markedEvents :=
  fun e he => h.quiescent.credits e (markedEvents_subset _ he)

/-- Every sorted set stays as it is or is dropped. -/
theorem Settled.of_kept (h : Settled consumer_id w) (hq : Quiescent w')
    (hprocessed : ∀ m ∈ w'.db.processed_rollup_events, m.consumer_id = consumer_id)
    (hkeys : ∀ period, w'.redis.get? (leaderboardKey period) = none ∨
      w'.redis.get? (leaderboardKey period) =
        w.redis.get? (leaderboardKey period)) : Settled consumer_id w' where
  quiescent := hq
  consumer := hprocessed
  boards := by
    intro period entry hentry
    rcases hkeys period with hnone | hsame
    · rw [hnone] at hentry
      cases hentry
    · exact h.boards period entry (hsame ▸ hentry)

theorem WholeIn.of_kept {period : String} (h : WholeIn period w)
    (hmarked : w'.db.markedEvents = w.db.markedEvents)
    (hkey : w'.redis.get? (leaderboardKey period) = none ∨
      w'.redis.get? (leaderboardKey period) =
        w.redis.get? (leaderboardKey period)) : WholeIn period w' := by
  rw [WholeIn, hmarked]
  intro hexact hdays
  rcases hkey with hnone | hsame
  · exact .inl (board_eq_none hnone)
  · rw [board_congr hsame]
    exact h hexact hdays

/-- What becomes of a sorted set when new events are processed: nothing, if none
of them counts for the period; else it is missing, or all of them are added, and
they are the first ones if nothing was stored. -/
inductive Added (period : String) (new : List RawEvent) (w w' : World) :
    Prop where
  | nothing : confirmedIn period new = [] →
      w'.redis.board period = w.redis.board period → Added period new w w'
  | missing : w'.redis.board period = none → Added period new w w'
  | all : (w.redis.board period = none →
        confirmedIn period w.db.markedEvents = []) →
      w'.redis.board period = some (gained ((w.redis.board period).getD ∅)
        (confirmedIn period new)) → Added period new w w'

theorem WholeIn.added {period : String} {new : List RawEvent}
    (hw : WholeIn period w)
    (hmarked : w'.db.markedEvents.Perm (w.db.markedEvents ++ new))
    (hcredits : Credits w'.db.markedEvents) (hadded : Added period new w w') :
    WholeIn period w' := by
  intro hexact hdays
  obtain ⟨hevents, hnew⟩ := List.forall_mem_append.mp
    (show Credits (w.db.markedEvents ++ new) from
      fun e he => hcredits e (hmarked.symm.subset he))
  have hexact' : Exact (w.db.markedEvents ++ new) := fun period m =>
    confirmedVolume_perm hmarked ▸ hexact period m
  have hold := hw (hexact'.of_append hnew)
    fun e he => hdays e (hmarked.symm.subset (List.mem_append_left _ he))
  have hconfirmed := (hmarked.filter fun e =>
    e.event_type = .paymentConfirmed ∧ periodKey (bucketTs e) = period).symm
  change (confirmedIn period (w.db.markedEvents ++ new)).Perm
    (confirmedIn period w'.db.markedEvents) at hconfirmed
  rw [confirmedIn_append] at hconfirmed
  cases hadded with
  | nothing hnone hsame =>
      rw [hsame]
      refine hold.imp_right ?_
      rintro ⟨scores, hscores, hwhole⟩
      rw [hnone, List.append_nil] at hconfirmed
      exact ⟨scores, hscores, hwhole.perm hconfirmed⟩
  | missing hmissing => exact .inl hmissing
  | all hfirst hgained =>
      have hbefore : Represents ((w.redis.board period).getD ∅)
          (confirmedIn period w.db.markedEvents) := by
        rcases hold with hmissing | ⟨scores, hscores, hwhole⟩
        · -- the new payments come first, so there was nothing to represent
          rw [hmissing, hfirst hmissing]
          exact .nil
        · rw [hscores]
          exact hwhole
      have hboth := hbefore.gained (Credits.confirmedIn hevents period)
        (Credits.confirmedIn hnew period)
        (confirmedIn_append .. ▸ hexact'.fits period)
      exact .inr ⟨_, hgained, hboth.perm hconfirmed⟩

/-- When nothing is stored, the new payments are the first ones. -/
theorem AddsIn.first {period : String} {new : List RawEvent}
    (h : AddsIn period w w')
    (hmarked : w'.db.markedEvents.Perm (w.db.markedEvents ++ new))
    (hnew : confirmedIn period new ≠ []) (hmissing : w.redis.board period = none) :
    confirmedIn period w.db.markedEvents = [] := by
  by_contra hne
  have hlength := (hmarked.filter fun e =>
    e.event_type = .paymentConfirmed ∧ periodKey (bucketTs e) = period).length_eq
  change (confirmedIn period w'.db.markedEvents).length =
    (confirmedIn period (w.db.markedEvents ++ new)).length at hlength
  rw [h hmissing hne, confirmedIn_append, List.length_append] at hlength
  exact hnew (List.length_eq_zero_iff.mp (by omega))

section Batch

variable {x : Except PyError ℕ} (h : Settled consumer_id w)
  (he : Eval (M := services) noFailure i (RollupWorker.processBatch settings)
    w x w')

include h he

theorem Settled.batch (hworker : settings.worker_id = consumer_id) :
    Settled consumer_id w' := by
  obtain ⟨_, hvoid⟩ := he.void
  obtain ⟨hq, hnewly⟩ := h.quiescent.service
    (@ServiceProgram.processBatch (·.worker_id = consumer_id) settings hworker) hvoid
  obtain ⟨new, r, hmarked, hpub, hkeys⟩ := h.quiescent.processBatch h.boards he
  refine ⟨hq, fun m hm => ?_, fun period entry hentry => ?_⟩
  · rcases hnewly m hm with hm | ⟨s, hs, hm⟩
    · exact h.consumer m hm
    · exact hm.trans hs
  · exact h.boards.publish hpub period entry
      (hkeys _ (heartbeatKey_ne settings period) ▸ hentry)

theorem WholeIn.batch {period : String} (hw : WholeIn period w)
    (hcredits : Credits w'.db.markedEvents) (hadds : AddsIn period w w') :
    WholeIn period w' := by
  obtain ⟨new, r, hmarked, hpub, hkeys⟩ := h.quiescent.processBatch h.boards he
  have hboard := board_congr (hkeys _ (heartbeatKey_ne settings period))
  refine hw.added hmarked hcredits ?_
  by_cases hnone : confirmedIn period new = []
  · refine .nothing hnone (hboard.trans (board_congr (hpub.others _ ?_)))
    exact fun p hp hkey => hp (leaderboardKey_injective hkey ▸ hnone)
  · refine .all (hadds.first hmarked hnone) ?_
    rw [hboard, Redis.board, hpub.boards period hnone]

end Batch

theorem Quiescent.of_tables (h : Quiescent w) (hdb : w'.db = w.db)
    (hidle : ∀ j, w'.txs.get? j = none) (hissued : w'.issued = w.issued) :
    Quiescent w' where
  coherent := by
    refine ⟨fun {i} {j} {tx} {tx'} _ hi => ?_, fun {i} {tx} hi => ?_, ?_⟩
    · rw [hidle i] at hi
      cases hi
    · rw [hidle i] at hi
      cases hi
    · rw [hdb, hissued]
      exact h.coherent.raw_issued
  deduplicated := hdb ▸ h.deduplicated
  aggregated := hdb ▸ h.aggregated
  credits := hdb ▸ h.credits
  idle := hidle

section Request

variable {top_n : Option ℕ} {u start stop : DateTime}
  {x : Except PyError LeaderboardResponse} (h : Settled consumer_id w)
  (hbounds : MonthBounds u.year u.month start stop)
  (hroom : w.db.rankedCount start stop < pageSize settings top_n)
  (he : Eval (M := services) noFailure i
    (leaderboardRequest settings (some (periodKey u)) top_n) w x w')

include h hbounds hroom he

/-- A request answers from the sorted set and keeps it, or answers with the rows
of the month and stores them. -/
theorem Settled.read : Settled consumer_id w' ∧ w'.db = w.db ∧
    ((w'.redis = w.redis ∧ ∀ a, x = .ok a → ∃ scores,
        w.redis.board (periodKey u) = some scores ∧ .ok (a.entries, a.source) =
          hotAnswer scores (pageSize settings top_n)) ∨
      ∃ a rows, x = .ok a ∧ a.entries = QueryService.rollupEntries rows ∧
        Lists (covered start stop w.db.markedEvents)
          (rows.map LeaderboardRow.volume) ∧
        Rebuilt settings (periodKey u) rows w.redis w'.redis) := by
  -- a missing key is rebuilt from the day rows, another one is served
  by_cases hget : w.redis.get? (leaderboardKey (periodKey u)) = none
  · obtain ⟨hdb, hissued, hnone, hx⟩ := eval_leaderboard_cold
      (parsePeriod_periodKey u) hbounds (h.quiescent.idle i) hget he
    have hq := h.quiescent.of_tables hdb
      (idle_of_eval h.quiescent.idle he hnone) hissued
    have hprocessed : ∀ m ∈ w'.db.processed_rollup_events,
        m.consumer_id = consumer_id := hdb ▸ h.consumer
    cases x with
    | error e =>
        exact ⟨h.of_kept hq hprocessed fun period => .inr (by rw [hx.2]), hdb,
          .inl ⟨hx.2, fun a ha => nomatch ha⟩⟩
    | ok a =>
        obtain ⟨rows, hrows, hentries, hrebuilt⟩ := hx
        -- the request asks for more rows than there are
        have htake : rows.take (pageSize settings top_n) = rows :=
          List.take_of_length_le (hrows.length ▸ hroom.le)
        rw [htake] at hentries hrebuilt
        refine ⟨⟨hq, hprocessed, fun period entry hentry => ?_⟩, hdb,
          .inr ⟨a, rows, rfl, (Prod.mk.inj hentries).1,
            h.quiescent.aggregated.rolled.lists hrows, hrebuilt⟩⟩
        by_cases hperiod : period = periodKey u
        · subst hperiod
          rw [hrebuilt.key] at hentry
          split at hentry <;> cases hentry
          exact ⟨_, rfl⟩
        · rw [hrebuilt.others _ (fun hkey =>
            hperiod (leaderboardKey_injective hkey))
            (ne_leaderboardKey (by decide) period)] at hentry
          exact h.boards period entry hentry
  · obtain ⟨scores, hscores⟩ := h.boards.exists_board hget
    obtain ⟨hdb, hissued, hnone, hredis, hx⟩ := eval_leaderboard_hot
      (parsePeriod_periodKey u) hbounds (h.quiescent.idle i) (by omega) hscores he
    have hq := h.quiescent.of_tables hdb
      (idle_of_eval h.quiescent.idle he hnone) hissued
    refine ⟨h.of_kept hq (hdb ▸ h.consumer) fun period => .inr (by rw [hredis]),
      hdb, .inl ⟨hredis, fun a ha => ⟨scores, hscores, ?_⟩⟩⟩
    rw [← hx, ha]
    rfl

theorem WholeIn.read {period : String} (hw : WholeIn period w) :
    WholeIn period w' := by
  obtain ⟨-, hdb, ⟨hredis, -⟩ | ⟨a, rows, -, -, hlists, hrebuilt⟩⟩ :=
    h.read hbounds hroom he
  · exact hw.of_kept (by rw [hdb]) (.inr (by rw [hredis]))
  · intro hexact hdays
    rw [hdb] at hexact hdays ⊢
    by_cases hperiod : period = periodKey u
    · subst hperiod
      rw [hdays.covered_eq hbounds] at hlists
      have hwhole := represents_boardOf hlists
        (h.credits.confirmedIn (periodKey u)) (hexact.fits (periodKey u))
      rw [Redis.board, hrebuilt.key]
      by_cases hempty : rows = [] ∨ settings.leaderboard_rebuild_ttl = 0
      · rw [if_pos hempty]
        exact .inl rfl
      · rw [if_neg hempty]
        exact .inr ⟨_, rfl, hwhole⟩
    · rw [board_congr (hrebuilt.others _ (fun hkey =>
        hperiod (leaderboardKey_injective hkey))
        (ne_leaderboardKey (by decide) period))]
      exact hw hexact hdays

/-- **The answer** lists the payments of the month. -/
theorem WholeIn.answer (hw : WholeIn (periodKey u) w) {a : LeaderboardResponse}
    (ha : x = .ok a) (hexact : Exact w.db.markedEvents)
    (hdays : NoFirstDays w.db.markedEvents) :
    Lists (confirmedIn (periodKey u) w.db.markedEvents)
      (a.entries.map LeaderboardEntry.volume) := by
  obtain ⟨-, -, ⟨-, hx⟩ | ⟨a', rows, ha', hentries, hlists, -⟩⟩ :=
    h.read hbounds hroom he
  · obtain ⟨scores, hscores, hx⟩ := hx a ha
    have hwhole : Represents scores
        (confirmedIn (periodKey u) w.db.markedEvents) := by
      rcases hw hexact hdays with hmissing | ⟨_, hs, hwhole⟩
      · rw [hscores] at hmissing
        cases hmissing
      · rw [hscores] at hs
        cases hs
        exact hwhole
    obtain ⟨rows, hranked, hscore, hlists⟩ := hwhole.exists_rows
      (h.credits.confirmedIn (periodKey u)) (hexact.fits (periodKey u))
    have hlength : rows.length = w.db.rankedCount start stop := by
      have hids : ((rows.map LeaderboardRow.volume).map Prod.fst).Perm
          (w.db.rankedMerchants start stop) := by
        refine (List.perm_ext_iff_of_nodup hlists.nodup
          (List.nodup_dedup _)).mpr fun m => ?_
        rw [hlists.merchants, ← hdays.covered_eq hbounds]
        exact (h.quiescent.aggregated.rolled.mem_rankedMerchants m).symm
      have hids' := hids.length_eq
      rwa [List.length_map, List.length_map] at hids'
    rw [hotAnswer, hranked, ← List.map_take,
      List.take_of_length_le (by omega), redisEntries_map] at hx
    rw [(Prod.mk.inj (Except.ok.inj hx)).1, servedEntries_volume hscore]
    exact hlists
  · obtain rfl : a' = a := Except.ok.inj (ha'.symm.trans ha)
    rw [hentries, rollupEntries_volume, ← hdays.covered_eq hbounds]
    exact hlists

end Request

section Run

variable {worker : Settings → Prop}
  (hworker : ∀ settings, worker settings → settings.worker_id = consumer_id)

include hworker

theorem Settled.move (h : Settled consumer_id w) (hm : Move worker w w') :
    Settled consumer_id w' := by
  cases hm with
  | turn ht =>
      cases ht with
      | ingest hp he =>
          obtain ⟨hmarked, hkeys⟩ := h.quiescent.ingest hp he
          obtain ⟨hq, hnewly⟩ := @Quiescent.service _ _ _ _
            (fun _ => False) _ _ h.quiescent hp.service he
          refine h.of_kept hq (fun m hm => ?_) fun period => .inr
            (hkeys _ (ne_leaderboardKey (by decide) period))
          exact h.consumer m ((hnewly m hm).resolve_right fun ⟨_, hno, _⟩ => hno)
      | batch hs he => exact h.batch he (hworker _ hs)
      | deleteOffset he =>
          simp only [World.handle] at he
          split at he
          · cases he
          · cases he
            exact h.of_kept (h.quiescent.deleteOffset _) h.consumer
              fun _ => .inr rfl
  | read hbounds hroom he => exact (h.read hbounds hroom he).1
  | @evict key he =>
      cases he
      exact h.of_kept (h.quiescent.withRedis _) h.consumer fun period =>
        get?_erase_or _ _ _

theorem WholeIn.move {period : String} (h : Settled consumer_id w)
    (hw : WholeIn period w) (hm : Move worker w w')
    (hadds : AddsIn period w w') : WholeIn period w' := by
  have h' := h.move hworker hm
  cases hm with
  | turn ht =>
      cases ht with
      | ingest hp he =>
          obtain ⟨hmarked, hkeys⟩ := h.quiescent.ingest hp he
          exact hw.of_kept hmarked
            (.inr (hkeys _ (ne_leaderboardKey (by decide) period)))
      | batch hs he => exact hw.batch h he h'.credits hadds
      | deleteOffset he =>
          simp only [World.handle] at he
          split at he
          · cases he
          · cases he
            exact hw.of_kept rfl (.inr rfl)
  | read hbounds hroom he => exact hw.read h hbounds hroom he
  | @evict key he =>
      cases he
      exact hw.of_kept rfl (get?_erase_or _ _ _)

end Run

theorem Survives.settled (h : Survives consumer_id w) : Settled consumer_id w :=
  ⟨h.quiescent, h.consumer, h.boards⟩

theorem Survives.wholeIn (h : Survives consumer_id w) (period : String) :
    WholeIn period w := fun hexact hdays => h.whole hexact hdays period

theorem Settled.survives (h : Settled consumer_id w)
    (hw : ∀ period, WholeIn period w) : Survives consumer_id w where
  quiescent := h.quiescent
  consumer := h.consumer
  boards := h.boards
  whole := fun hexact hdays period => hw period hexact hdays

theorem Survives.move {worker : Settings → Prop} (h : Survives consumer_id w)
    (hworker : ∀ settings, worker settings → settings.worker_id = consumer_id)
    (hm : Move worker w w') (hadds : AddsWhereStored w w') :
    Survives consumer_id w' :=
  (h.settled.move hworker hm).survives fun period =>
    (h.wholeIn period).move hworker h.settled hm (hadds period)

theorem settled_start (merchants : List Merchant) :
    Settled consumer_id (World.start merchants) where
  quiescent := quiescent_start merchants
  consumer := fun _ hm => nomatch hm
  boards := fun _ _ hget => nomatch hget

theorem survives_start (merchants : List Merchant) :
    Survives consumer_id (World.start merchants) :=
  (settled_start merchants).survives fun _ _ _ => .inl rfl

/-- From a settled state on, answers about a month whose sorted set is missing
or whole list its processed payments. -/
theorem WholeIn.lists_processed {u start stop : DateTime} {top_n : Option ℕ}
    {a : LeaderboardResponse} (h : Settled consumer_id w)
    (hw : WholeIn (periodKey u) w) (hexact : ∀ period m, w.db.volume period m ≤ 2 ^ 53)
    (hdays : NoFirstDays w.db.raw_events)
    (hbounds : MonthBounds u.year u.month start stop)
    (hroom : w.db.rankedCount start stop < pageSize settings top_n)
    (he : Eval (M := services) noFailure i
      (leaderboardRequest settings (some (periodKey u)) top_n) w (.ok a) w') :
    Lists (confirmedIn (periodKey u) w.db.processed)
      (a.entries.map LeaderboardEntry.volume) := by
  have hagg := h.quiescent.aggregated
  have hmarked := hw.answer h hbounds hroom he rfl
    (fun period m => hagg.volume period m ▸ hexact period m)
    fun e he => hdays e (markedEvents_subset _ he)
  have honce := marked_once_of_same_consumer hagg h.consumer
  exact hmarked.perm ((markedEvents_perm h.quiescent.deduplicated.ids
    honce).filter _)

end Moves

/-- **Leaderboards survive eviction** as long as batches add to what is stored:
after any moves of one consumer, while the volumes fit a score, a request lists
the merchants and volumes of all confirmed payments processed in the month. -/
theorem leaderboard_survives_eviction (merchants : List Merchant)
    {consumer_id : String} {w w' : World}
    (hrun : ReflTransGen (fun v v' =>
      Move (·.worker_id = consumer_id) v v' ∧ AddsWhereStored v v')
      (World.start merchants) w)
    (hexact : ∀ period m, w.db.volume period m ≤ 2 ^ 53)
    (hdays : NoFirstDays w.db.raw_events) {i : ℕ} {settings : Settings}
    {top_n : Option ℕ} {u start stop : DateTime} {a : LeaderboardResponse}
    (hbounds : MonthBounds u.year u.month start stop)
    (hroom : w.db.rankedCount start stop < pageSize settings top_n)
    (he : Eval (M := services) noFailure i
      (leaderboardRequest settings (some (periodKey u)) top_n) w (.ok a) w') :
    Lists (confirmedIn (periodKey u) w.db.processed)
      (a.entries.map LeaderboardEntry.volume) := by
  have hw : Survives consumer_id w := by
    clear hexact hdays hroom he
    induction hrun with
    | refl => exact survives_start merchants
    | tail _ hstep ih => exact ih.move (fun _ h => h) hstep.1 hstep.2
  exact (hw.wholeIn _).lists_processed hw.settled hexact hdays hbounds hroom he

/-! ## One eviction -/

theorem monthBounds_may :
    MonthBounds (Sample.instant 0).year (Sample.instant 0).month firstOfMay
      firstOfJune :=
  periodBounds_periodKey.mp periodBounds_may

/-- The sorted set of a processed payment is dropped. -/
def evictedRun : Option World :=
  trackedRun.bind fun w => w.handle (.evict "leaderboard:volume:2024-05")

/-- A second payment is processed next. -/
def partialRun : Option World :=
  evictedRun.bind fun w =>
    (evalWith (M := services) (fun _ _ => true) 0 (Sample.ingestChoices 5 2)
      (ingestEventRequest (Sample.confirmed 'b' 100) >>= fun _ => pure ())
      w).bind fun r =>
    (evalWith (M := services) (Call.lets false) 1
      (Sample.batchChoices 6 [Sample.row (Sample.confirmed 'a' 250) 1 3,
        Sample.row (Sample.confirmed 'b' 100) 2 5] 1)
      (RollupWorker.processBatch (Sample.worker "w")) r.2).map Prod.snd

/-- Nothing is added while the sorted set is missing, up to the eviction. -/
theorem evictedRun_moves {w : World} (hw : evictedRun = some w) :
    ReflTransGen (fun v v' => Move (·.worker_id = "w") v v' ∧
      AddsWhereStored v v') (World.start Sample.merchants) w := by
  obtain ⟨w₂, hrun, hevict⟩ := Option.bind_eq_some_iff.mp hw
  obtain ⟨⟨x₁, w₁⟩, h₁, hrest⟩ := Option.bind_eq_some_iff.mp hrun
  obtain ⟨⟨x₂, w₂⟩, h₂, rfl⟩ := Option.map_eq_some_iff.mp hrest
  have hnone : (evalWith (M := services) (fun _ _ => true) 0
      (Sample.ingestChoices 3 1)
      (ingestEventRequest (Sample.confirmed 'a' 250) >>= fun _ => pure ())
      (World.start Sample.merchants)).map (fun r => r.2.db.markedEvents) =
        some [] := by decide +kernel
  rw [h₁, Option.map_some, Option.some.injEq] at hnone
  change w₁.db.markedEvents = [] at hnone
  have hingest : Move (·.worker_id = "w") (World.start Sample.merchants) w₁ :=
    .turn (.ingest (.event (Sample.confirmed 'a' 250))
      (eval_of_evalWith (fun _ _ _ => trivial) h₁))
  have hbatch : Move (·.worker_id = "w") w₁ w₂ :=
    .turn (.batch rfl (eval_of_evalWith (fun _ _ => notifying_of_lets) h₂))
  have hfirst : AddsWhereStored w₁ w₂ := by
    intro period _ hne
    rw [hnone] at hne
    exact absurd rfl hne
  cases hevict
  exact ((ReflTransGen.single ⟨hingest, fun period _ hne => absurd rfl hne⟩).tail
    ⟨hbatch, hfirst⟩).tail ⟨@Move.evict _ _ _ "leaderboard:volume:2024-05" rfl,
      fun _ _ _ => rfl⟩

theorem leaderboard_survives_eviction_once : ∃ w w' a,
    ReflTransGen (fun v v' => Move (·.worker_id = "w") v v' ∧
      AddsWhereStored v v') (World.start Sample.merchants) w ∧
    w.redis.get? "leaderboard:volume:2024-05" = none ∧
    Eval (M := services) noFailure 2
      (leaderboardRequest {} (some "2024-05") none) w (.ok a) w' ∧
    a.entries.map LeaderboardEntry.volume = [(7, 250)] := by
  have hrun : evictedRun.map (fun w => (w.db.raw_events, w.db.processed,
      (w.db.rollup .day).entries)) =
      some ([Sample.row (Sample.confirmed 'a' 250) 1 3],
        [Sample.row (Sample.confirmed 'a' 250) 1 3],
        [(⟨7, (Sample.instant 0).truncDay, .paymentConfirmed⟩,
        ⟨1, 250, some 250, some 250⟩)]) := by decide +kernel
  have hkeys : evictedRun.map (fun w =>
      ((w.redis.get? "leaderboard:volume:2024-05").isNone,
        (w.redis.get? rebuildsKey).isNone, (w.txs.get? 2).isNone)) =
      some (true, true, true) := by decide +kernel
  obtain ⟨w, hw, htables⟩ := Option.map_eq_some_iff.mp hrun
  rw [hw, Option.map_some, Option.some.injEq, Prod.mk.injEq, Prod.mk.injEq,
    Option.isNone_iff_eq_none, Option.isNone_iff_eq_none,
    Option.isNone_iff_eq_none] at hkeys
  obtain ⟨hcold, hrebuilds, hidle⟩ := hkeys
  obtain ⟨hraw, hprocessed, hrows⟩ : w.db.raw_events = _ ∧ w.db.processed = _ ∧
      (w.db.rollup .day).entries = _ :=
    ⟨congrArg Prod.fst htables, congrArg (·.2.1) htables,
      congrArg (·.2.2) htables⟩
  have hcounts : CountsAt rebuildsKey w.redis := by
    intro entry hentry
    rw [hrebuilds] at hentry
    cases hentry
  obtain ⟨a, w', he⟩ := @exists_eval_leaderboard_cold _ _ {}
    "2024-05" none _ _ _ _ (by decide) monthBounds_may hidle hcold
    hcounts
  refine ⟨w, w', a, evictedRun_moves hw, hcold, he, ?_⟩
  have hlists := leaderboard_survives_eviction Sample.merchants
    (evictedRun_moves hw) (fun period m => ?_) ?_ monthBounds_may ?_ he
  · rw [hprocessed] at hlists
    exact hlists.singleton
  · exact Db.volume_le hrows (by decide) (by decide) period m
  · rw [hraw, NoFirstDays]
    decide
  · refine (Db.rankedCount_le _ _ _).trans_lt ?_
    rw [hrows]
    decide

/-- What is stored is served. -/
theorem exists_eval_stored {w : World} {scores : Dict String ℤ}
    {entries : List LeaderboardEntry} {source : String}
    (hidle : w.txs.get? 2 = none) (hhot : w.redis.board "2024-05" = some scores)
    (hanswer : hotAnswer scores (pageSize {} none) = .ok (entries, source)) :
    ∃ a w', Eval (M := services) noFailure 2
      (leaderboardRequest {} (some "2024-05") none) w (.ok a) w' ∧
      a.entries = entries := by
  obtain ⟨x, w', he⟩ := exists_eval_waitless (i := 2) false
    (within_leaderboardRequest {} (some "2024-05") none) w
  obtain ⟨-, -, -, -, hx⟩ := eval_leaderboard_hot (by decide) monthBounds_may
    hidle (by decide) hhot he
  rw [hanswer] at hx
  cases x with
  | error e => cases hx
  | ok a => exact ⟨a, w', he, (Prod.mk.inj (Except.ok.inj hx)).1⟩

/-- A wrong volume. -/
theorem not_lists {events : List RawEvent} {m : UUID} {v : ℤ}
    (h : merchantVolume m events ≠ v) : ¬ Lists events [(m, v)] :=
  fun hlists => h (hlists.volumes _ (List.mem_singleton_self _)).symm

/-- **A batch after an eviction** leaves a leaderboard of its own payments. -/
theorem partial_leaderboard_served : ∃ w w' a,
    ReflTransGen (Move (·.worker_id = "w")) (World.start Sample.merchants) w ∧
    (∀ period m, w.db.volume period m ≤ 2 ^ 53) ∧ NoFirstDays w.db.raw_events ∧
    w.db.rankedCount firstOfMay firstOfJune < pageSize {} none ∧
    Eval (M := services) noFailure 2
      (leaderboardRequest {} (some "2024-05") none) w (.ok a) w' ∧
    a.entries.map LeaderboardEntry.volume = [(7, 100)] ∧
    merchantVolume 7 (confirmedIn "2024-05" w.db.processed) = 350 ∧
    ¬ Lists (confirmedIn "2024-05" w.db.processed)
      (a.entries.map LeaderboardEntry.volume) := by
  have hrun : partialRun.map (fun w => (w.db.raw_events, w.db.processed,
      (w.db.rollup .day).entries)) =
      some ([Sample.row (Sample.confirmed 'a' 250) 1 3,
          Sample.row (Sample.confirmed 'b' 100) 2 5],
        [Sample.row (Sample.confirmed 'a' 250) 1 3,
          Sample.row (Sample.confirmed 'b' 100) 2 5],
        [(⟨7, (Sample.instant 0).truncDay, .paymentConfirmed⟩,
        ⟨2, 350, some 100, some 250⟩)]) := by decide +kernel
  have hkeys : partialRun.map (fun w =>
      ((w.redis.board "2024-05").map (·.entries), (w.txs.get? 2).isNone)) =
      some (some [("00000000-0000-0000-0000-000000000007", 100)], true) := by
    decide +kernel
  obtain ⟨w, hw, htables⟩ := Option.map_eq_some_iff.mp hrun
  rw [hw, Option.map_some, Option.some.injEq, Prod.mk.injEq,
    Option.map_eq_some_iff, Option.isNone_iff_eq_none] at hkeys
  obtain ⟨⟨scores, hhot, hscores⟩, hidle⟩ := hkeys
  obtain ⟨hraw, hprocessed, hrows⟩ : w.db.raw_events = _ ∧ w.db.processed = _ ∧
      (w.db.rollup .day).entries = _ :=
    ⟨congrArg Prod.fst htables, congrArg (·.2.1) htables,
      congrArg (·.2.2) htables⟩
  -- the sorted set has come back with the second payment alone
  obtain ⟨a, w', he, hentries⟩ := @exists_eval_stored w scores
    [⟨1, 7, none, 100, none⟩] "redis" hidle hhot (by
      rw [hotAnswer, Redis.ranked, hscores]
      decide)
  have hvolumes : a.entries.map LeaderboardEntry.volume = [(7, 100)] := by
    rw [hentries]
    rfl
  have hvolume : merchantVolume 7 (confirmedIn "2024-05" w.db.processed) =
      350 := by
    rw [hprocessed]
    decide
  obtain ⟨w₀, hevicted, hrest⟩ := Option.bind_eq_some_iff.mp hw
  obtain ⟨⟨x₁, w₁⟩, h₁, hrest⟩ := Option.bind_eq_some_iff.mp hrest
  obtain ⟨⟨x₂, w₂⟩, h₂, rfl⟩ := Option.map_eq_some_iff.mp hrest
  have hbefore : ReflTransGen (Move (·.worker_id = "w"))
      (World.start Sample.merchants) w₀ :=
    (evictedRun_moves hevicted).lift id fun _ _ h => h.1
  -- an eviction, then one more payment and its batch
  have hmoves : ReflTransGen (Move (·.worker_id = "w"))
      (World.start Sample.merchants) w₂ :=
    (hbefore.tail (.turn (.ingest (.event (Sample.confirmed 'b' 100))
      (eval_of_evalWith (fun _ _ _ => trivial) h₁)))).tail
      (.turn (.batch rfl (eval_of_evalWith (fun _ _ => notifying_of_lets) h₂)))
  refine ⟨w₂, w', a, hmoves, fun period m => ?_, ?_, ?_, he, hvolumes, hvolume,
    hvolumes ▸ not_lists (hvolume ▸ by decide)⟩
  · exact Db.volume_le hrows (by decide) (by decide) period m
  · rw [hraw, NoFirstDays]
    decide
  · refine (Db.rankedCount_le _ _ _).trans_lt ?_
    rw [hrows]
    decide

end AnalyticsPipeline
