import AnalyticsPipeline.Guarantees.LeaderboardSurvival
import AnalyticsPipeline.Metatheory.CommandTraces

/-!
# Leaderboards that miss an update

The increments of a batch come after its transaction. If Redis fails or the
worker crashes before they are all run, nothing offers the events to Redis
again. As long as the key lives, only what was run is served; a key that is
missing is rebuilt from the day rows.
-/

namespace AnalyticsPipeline

open Framework Relation

/-- A batch that has committed and is stopped somewhere after that, by a call to
Redis that raises or by a crash: `new` are the events it has processed, `made`
the calls it made since. -/
inductive Unfinished (worker : Settings → Prop) (new : List RawEvent)
    (made : List (Call × Choice)) (w : World) : World → Prop where
  | ended {i : ℕ} {settings : Settings} {page : List RawEvent}
      {x : Except PyError Unit} {w₁ w' : World} :
      worker settings →
      Eval (M := services) (fun _ _ => True) i
        (sessionScope (RollupWorker.batchTransaction settings)) w
        (.ok (some (page, new))) w₁ →
      Halts (M := services) (fun _ _ => True) i
        (RollupWorker.publish settings new) w₁ made (some x) w' →
      Unfinished worker new made w w'
  | crashed {i : ℕ} {settings : Settings} {page : List RawEvent}
      {w₁ w₂ : World} :
      worker settings →
      Eval (M := services) (fun _ _ => True) i
        (sessionScope (RollupWorker.batchTransaction settings)) w
        (.ok (some (page, new))) w₁ →
      Halts (M := services) (fun _ _ => True) i
        (RollupWorker.publish settings new) w₁ made none w₂ →
      Unfinished worker new made w (services.crash i w₂)

/-- What may happen: the moves of an undisturbed service, and batches that are
stopped. -/
inductive Incident (worker : Settings → Prop) (w w' : World) : Prop where
  | move : Move worker w w' → Incident worker w w'
  | stopped {new : List RawEvent} {made : List (Call × Choice)} :
      Unfinished worker new made w w' → Incident worker w w'

/-- A batch that brings payments of the period has either run none of their
commands while nothing was stored, or all their increments, and then they are
the first payments unless something was stored. -/
def Spares (period : String) (new : List RawEvent) (made : List (Call × Choice))
    (w : World) : Prop :=
  confirmedIn period new = [] ∨
    (ranOn (leaderboardKey period) made = [] ∧ w.redis.board period = none) ∨
    ((volumes (confirmedIn period new)).entries.length ≤
        (ranOn (leaderboardKey period) made).length ∧
      (w.redis.board period = none → confirmedIn period w.db.markedEvents = []))

/-- What may happen for the leaderboard of the period to stay whole. -/
inductive Mends (worker : Settings → Prop) (period : String) (w w' : World) :
    Prop where
  | move : Move worker w w' → AddsIn period w w' → Mends worker period w w'
  | stopped {new : List RawEvent} {made : List (Call × Choice)} :
      Unfinished worker new made w w' → Spares period new made w →
      Mends worker period w w'

section Batches

variable {consumer_id : String} {w w' : World} {i : ℕ} {settings : Settings}
  {worker : Settings → Prop} {page new : List RawEvent}
  {made : List (Call × Choice)}

/-- The transaction of a batch, by itself. -/
theorem Quiescent.batchScope {ok : Call → Choice → Prop} (h : Quiescent w)
    (he : Eval (M := services) ok i
      (sessionScope (RollupWorker.batchTransaction settings)) w
      (.ok (some (page, new))) w') :
    Quiescent w' ∧ w'.redis = w.redis ∧
      w'.db.markedEvents.Perm (w.db.markedEvents ++ new) ∧
      ∀ m ∈ w'.db.processed_rollup_events,
        m ∈ w.db.processed_rollup_events ∨ m.consumer_id = settings.worker_id := by
  obtain ⟨hcoherent, hnone, hout, hredis⟩ :=
    eval_batchScope_ok h.coherent (h.idle i) he
  obtain ⟨hd, hagg, hstored, hmarked, hnewly⟩ :=
    hout.settles h.deduplicated h.aggregated
  exact ⟨⟨hcoherent, hd, hagg, hstored ▸ h.credits, idle_of_eval h.idle he hnone⟩, hredis,
    hmarked, hnewly⟩

/-- What is left when publishing is stopped. -/
theorem Quiescent.halted {ok : Call → Choice → Prop} (h : Quiescent w)
    {x : Option (Except PyError Unit)}
    (he : Halts (M := services) ok i (RollupWorker.publish settings new) w made x
      w') :
    Quiescent w' ∧ w'.db = w.db ∧
      ∀ period, ranOn (leaderboardKey period) made <+: incrementsIn period new ∧
        w'.redis.get? (leaderboardKey period) =
          (w.redis.runAll (ranOn (leaderboardKey period) made)).2.get?
            (leaderboardKey period) := by
  have hran := throughout_publish settings new made x w' he
  have hget := halts_get? he
  obtain ⟨redis, rfl⟩ := halts_quietProgram (within_publish settings new) rfl he
  exact ⟨h.withRedis redis, rfl, fun period => ⟨hran period, hget _⟩⟩

/-- **What a batch that is stopped leaves**: its events are processed, and some
first commands for each period have been run. -/
theorem Unfinished.outcome (h : Quiescent w)
    (hu : Unfinished worker new made w w') :
    Quiescent w' ∧ w'.db.markedEvents.Perm (w.db.markedEvents ++ new) ∧
      (∀ m ∈ w'.db.processed_rollup_events,
        m ∈ w.db.processed_rollup_events ∨
          ∃ settings, worker settings ∧ m.consumer_id = settings.worker_id) ∧
      ∀ period, ranOn (leaderboardKey period) made <+: incrementsIn period new ∧
        w'.redis.get? (leaderboardKey period) =
          (w.redis.runAll (ranOn (leaderboardKey period) made)).2.get?
            (leaderboardKey period) := by
  cases hu with
  | ended hs he hpub =>
      obtain ⟨hq, hredis, hmarked, hnewly⟩ := h.batchScope he
      obtain ⟨hq', hdb, hkeys⟩ := hq.halted hpub
      rw [hredis] at hkeys
      rw [hdb]
      exact ⟨hq', hmarked, fun m hm => (hnewly m hm).imp_right fun hm =>
        ⟨_, hs, hm⟩, hkeys⟩
  | @crashed i _ _ _ w₂ hs he hpub =>
      obtain ⟨hq, hredis, hmarked, hnewly⟩ := h.batchScope he
      obtain ⟨hq', hdb, hkeys⟩ := hq.halted hpub
      rw [hredis] at hkeys
      have hcrash : (services.crash i w₂ : World).db = w₂.db := rfl
      rw [hcrash, hdb]
      refine ⟨hq'.of_tables rfl (fun j => ?_) rfl, hmarked, fun m hm =>
        (hnewly m hm).imp_right fun hm => ⟨_, hs, hm⟩, hkeys⟩
      change (w₂.dropTx i).txs.get? j = none
      rw [World.get?_dropTx, hq'.idle j, ite_self]

/-- What becomes of the sorted set of a period. -/
theorem Unfinished.added (h : Settled consumer_id w)
    (hu : Unfinished worker new made w w') {period : String}
    (hspares : Spares period new made w) : Added period new w w' := by
  obtain ⟨-, -, -, hkeys⟩ := hu.outcome h.quiescent
  obtain ⟨hran, hget⟩ := hkeys period
  have hsame : ranOn (leaderboardKey period) made = [] →
      w'.redis.board period = w.redis.board period := by
    intro hnil
    rw [hnil] at hget
    exact board_congr hget
  rw [incrementsIn] at hran
  rcases hspares with hnone | ⟨hnil, hmissing⟩ | ⟨hall, hfirst⟩
  · rw [if_pos hnone, List.prefix_nil] at hran
    exact .nothing hnone (hsame hran)
  · exact .missing ((hsame hnil).trans hmissing)
  · by_cases hnone : confirmedIn period new = []
    · rw [if_pos hnone, List.prefix_nil] at hran
      exact .nothing hnone (hsame hran)
    · rw [if_neg hnone] at hran
      refine .all hfirst ((board_congr hget).trans ?_)
      exact (runAll_first h.boards (volumes_ne_nil hnone) hran).2 hall

theorem Settled.stopped (h : Settled consumer_id w)
    (hworker : ∀ settings, worker settings → settings.worker_id = consumer_id)
    (hu : Unfinished worker new made w w') : Settled consumer_id w' := by
  obtain ⟨hq, -, hnewly, hkeys⟩ := hu.outcome h.quiescent
  refine ⟨hq, fun m hm => ?_, fun period entry hentry => ?_⟩
  · rcases hnewly m hm with hm | ⟨settings, hs, hm⟩
    · exact h.consumer m hm
    · exact hm.trans (hworker settings hs)
  · obtain ⟨hran, hget⟩ := hkeys period
    rw [hget] at hentry
    rw [incrementsIn] at hran
    by_cases hnone : confirmedIn period new = []
    · rw [if_pos hnone, List.prefix_nil] at hran
      rw [hran] at hentry
      exact h.boards period entry hentry
    · rw [if_neg hnone] at hran
      exact (runAll_first h.boards (volumes_ne_nil hnone) hran).1 entry hentry

/-- Whatever happens, the state stays settled. -/
theorem Settled.incident (h : Settled consumer_id w)
    (hworker : ∀ settings, worker settings → settings.worker_id = consumer_id)
    (hi : Incident worker w w') : Settled consumer_id w' := by
  cases hi with
  | move hm => exact h.move hworker hm
  | stopped hu => exact h.stopped hworker hu

theorem Settled.mends (h : Settled consumer_id w) {period : String}
    (hw : WholeIn period w)
    (hworker : ∀ settings, worker settings → settings.worker_id = consumer_id)
    (hm : Mends worker period w w') :
    Settled consumer_id w' ∧ WholeIn period w' := by
  cases hm with
  | move hm hadds =>
      exact ⟨h.move hworker hm, hw.move hworker h hm hadds⟩
  | stopped hu hspares =>
      have h' := h.stopped hworker hu
      obtain ⟨-, hmarked, -, -⟩ := hu.outcome h.quiescent
      exact ⟨h', hw.added hmarked h'.credits (hu.added h hspares)⟩

end Batches

/-- **A leaderboard heals when its key is lost**: whatever has happened before,
from a state without the key on and as long as no batch takes the key for whole
that it leaves, or finds, without some payments of the period, a request with
room for all merchants lists the confirmed payments processed in the period. -/
theorem leaderboard_heals (merchants : List Merchant) {consumer_id : String}
    {u : DateTime} {w₀ w w' : World}
    (hpast : ReflTransGen (Incident (·.worker_id = consumer_id))
      (World.start merchants) w₀)
    (hmissing : w₀.redis.board (periodKey u) = none)
    (hrun : ReflTransGen (Mends (·.worker_id = consumer_id) (periodKey u)) w₀ w)
    (hexact : ∀ period m, w.db.volume period m ≤ 2 ^ 53)
    (hdays : NoFirstDays w.db.raw_events) {i : ℕ} {settings : Settings}
    {top_n : Option ℕ} {start stop : DateTime} {a : LeaderboardResponse}
    (hbounds : MonthBounds u.year u.month start stop)
    (hroom : w.db.rankedCount start stop < pageSize settings top_n)
    (he : Eval (M := services) noFailure i
      (leaderboardRequest settings (some (periodKey u)) top_n) w (.ok a) w') :
    Lists (confirmedIn (periodKey u) w.db.processed)
      (a.entries.map LeaderboardEntry.volume) := by
  have h₀ : Settled consumer_id w₀ := by
    clear hmissing hrun
    induction hpast with
    | refl => exact settled_start merchants
    | tail _ hstep ih => exact ih.incident (fun _ h => h) hstep
  have hw : Settled consumer_id w ∧ WholeIn (periodKey u) w := by
    clear hexact hdays hroom he
    induction hrun with
    | refl => exact ⟨h₀, fun _ _ => .inl hmissing⟩
    | tail _ hstep ih => exact ih.1.mends ih.2 (fun _ h => h) hstep
  exact hw.2.lists_processed hw.1 hexact hdays hbounds hroom he

/-! ## One lost update -/

/-- A second payment is ingested, and the transaction of its batch committed. -/
def committedAfter (w : World) : Option (World × List RawEvent × World) :=
  (evalWith (M := services) (fun _ _ => true) 0 (Sample.ingestChoices 5 2)
    (ingestEventRequest (Sample.confirmed 'b' 100) >>= fun _ => pure ())
    w).bind fun r =>
  (evalWith (M := services) (fun _ _ => true) 1
    ([.clock (Sample.instant 6), .auto, .rows [
      Sample.row (Sample.confirmed 'a' 250) 1 3,
      Sample.row (Sample.confirmed 'b' 100) 2 5]] ++ List.replicate 7 .auto)
    (sessionScope (RollupWorker.batchTransaction (Sample.worker "w")))
    r.2).bind fun r' =>
  match r'.1 with
  | .ok (some p) => some (r.2, p.2, r'.2)
  | _ => none

theorem committedAfter_steps {w w₁ w₂ : World} {new : List RawEvent}
    (h : committedAfter w = some (w₁, new, w₂)) :
    Turn (·.worker_id = "w") w w₁ ∧ ∃ page, Eval (M := services)
      (fun _ _ => True) 1
      (sessionScope (RollupWorker.batchTransaction (Sample.worker "w"))) w₁
      (.ok (some (page, new))) w₂ := by
  obtain ⟨⟨x₁, v₁⟩, h₁, hrest⟩ := Option.bind_eq_some_iff.mp h
  obtain ⟨⟨x₂, v₂⟩, h₂, hrest⟩ := Option.bind_eq_some_iff.mp hrest
  cases x₂ with
  | error e => cases hrest
  | ok y =>
      cases y with
      | none => cases hrest
      | some p =>
          cases hrest
          exact ⟨.ingest (.event (Sample.confirmed 'b' 100))
            (eval_of_evalWith (fun _ _ _ => trivial) h₁), p.1,
            eval_of_evalWith (fun _ _ _ => trivial) h₂⟩

/-- The sorted set is dropped before the second payment. -/
def unstoredRun : Option (World × World × List RawEvent × World) :=
  evictedRun.bind fun w => (committedAfter w).map fun r => (w, r)

theorem leaderboard_heals_once : ∃ w₀ w₁ new w w' a,
    ReflTransGen (Incident (·.worker_id = "w")) (World.start Sample.merchants)
      w₀ ∧
    ReflTransGen (Mends (·.worker_id = "w") "2024-05") w₀ w₁ ∧
    Unfinished (·.worker_id = "w") new [] w₁ w ∧
    Eval (M := services) noFailure 2
      (leaderboardRequest {} (some "2024-05") none) w (.ok a) w' ∧
    a.entries.map LeaderboardEntry.volume = [(7, 350)] := by
  have hrun : unstoredRun.map (fun r =>
      (r.2.2.2.db.raw_events, r.2.2.2.db.processed,
        (r.2.2.2.db.rollup .day).entries)) =
      some ([Sample.row (Sample.confirmed 'a' 250) 1 3,
          Sample.row (Sample.confirmed 'b' 100) 2 5],
        [Sample.row (Sample.confirmed 'a' 250) 1 3,
          Sample.row (Sample.confirmed 'b' 100) 2 5],
        [(⟨7, (Sample.instant 0).truncDay, .paymentConfirmed⟩,
        ⟨2, 350, some 100, some 250⟩)]) := by decide +kernel
  have hkeys : unstoredRun.map (fun r =>
      ((r.1.redis.get? "leaderboard:volume:2024-05").isNone,
        (r.2.1.redis.get? "leaderboard:volume:2024-05").isNone,
        (r.2.2.2.redis.get? "leaderboard:volume:2024-05").isNone,
        (r.2.2.2.redis.get? rebuildsKey).isNone,
        ((r.2.2.2.dropTx 1).txs.get? 2).isNone)) =
      some (true, true, true, true, true) := by decide +kernel
  have hmarked : unstoredRun.map (fun r =>
      (r.1.db.markedEvents, r.2.1.db.markedEvents)) =
      some ([Sample.row (Sample.confirmed 'a' 250) 1 3],
        [Sample.row (Sample.confirmed 'a' 250) 1 3]) := by decide +kernel
  obtain ⟨⟨w₀, w₁, new, w₂⟩, hr, htables⟩ := Option.map_eq_some_iff.mp hrun
  rw [hr, Option.map_some, Option.some.injEq, Prod.mk.injEq] at hmarked
  simp only [hr, Option.map_some, Option.some.injEq, Prod.mk.injEq,
    Option.isNone_iff_eq_none] at hkeys
  obtain ⟨hmissing₀, hmissing₁, hcold, hrebuilds, hidle⟩ := hkeys
  obtain ⟨hraw, hprocessed, hrows⟩ : w₂.db.raw_events = _ ∧
      w₂.db.processed = _ ∧ (w₂.db.rollup .day).entries = _ :=
    ⟨congrArg Prod.fst htables, congrArg (·.2.1) htables,
      congrArg (·.2.2) htables⟩
  obtain ⟨v, hevicted, hrest⟩ := Option.bind_eq_some_iff.mp hr
  obtain ⟨r, hcommitted, heq⟩ := Option.map_eq_some_iff.mp hrest
  cases heq
  obtain ⟨hingest, page, hbatch⟩ := committedAfter_steps hcommitted
  -- the way to the state in which the batch crashes
  have hpast : ReflTransGen (Incident (·.worker_id = "w"))
      (World.start Sample.merchants) w₀ :=
    (evictedRun_moves hevicted).lift id fun _ _ h => .move h.1
  have hmends : ReflTransGen (Mends (·.worker_id = "w") "2024-05") w₀ w₁ :=
    .single (.move (.turn hingest) fun _ _ => by rw [hmarked.1, hmarked.2])
  -- the crash comes before the first call to Redis
  have hcrash : Unfinished (·.worker_id = "w") new [] w₁ (services.crash 1 w₂) :=
    .crashed rfl hbatch .stop
  have hcounts : CountsAt rebuildsKey w₂.redis := by
    intro entry hentry
    rw [hrebuilds] at hentry
    cases hentry
  -- the key is still missing, so the request asks the tables
  obtain ⟨a, w', he⟩ := @exists_eval_leaderboard_cold _ (w₂.dropTx 1) {}
    "2024-05" none _ _ _ _ (by decide) monthBounds_may hidle hcold hcounts
  refine ⟨w₀, w₁, new, _, w', a, hpast, hmends, hcrash, he, ?_⟩
  have hmissing : w₀.redis.board (periodKey (Sample.instant 0)) = none :=
    @board_eq_none _ "2024-05" hmissing₀
  have hlists := leaderboard_heals Sample.merchants hpast hmissing
    (hmends.tail (.stopped hcrash (.inr (.inl ⟨rfl, @board_eq_none _ "2024-05" hmissing₁⟩))))
    (fun period m => ?_) ?_ monthBounds_may ?_ he
  · have hdropped : (services.crash 1 w₂ : World).db.processed =
        w₂.db.processed := rfl
    rw [hdropped, hprocessed] at hlists
    exact hlists.of_merchant (by decide) (by decide)
  · change w₂.db.volume period m ≤ 2 ^ 53
    exact Db.volume_le hrows (by decide) (by decide) period m
  · change NoFirstDays w₂.db.raw_events
    rw [hraw, NoFirstDays]
    decide
  · change w₂.db.rankedCount _ _ < _
    refine (Db.rankedCount_le _ _ _).trans_lt ?_
    rw [hrows]
    decide

/-- The first payment is served, and the second one's call to Redis fails before
its first command. -/
def staleRun : Option (World × List RawEvent × World × World) :=
  trackedRun.bind fun w => (committedAfter w).bind fun r =>
  (evalWith (M := services) (fun _ _ => true) 1
    [.fail 0, .clock (Sample.instant 6), .auto]
    (RollupWorker.publish (Sample.worker "w") r.2.1) r.2.2).map fun r' =>
  (w, r.2.1, r.1, r'.2)

/-- **An update that Redis missed** is missing from a key that lives. -/
theorem lost_update_served : ∃ w₀ new made w w' a,
    ReflTransGen (Move (·.worker_id = "w")) (World.start Sample.merchants) w₀ ∧
    (w₀.redis.board "2024-05").isSome = true ∧
    Unfinished (·.worker_id = "w") new made w₀ w ∧
    (∀ period m, w.db.volume period m ≤ 2 ^ 53) ∧ NoFirstDays w.db.raw_events ∧
    w.db.rankedCount firstOfMay firstOfJune < pageSize {} none ∧
    Eval (M := services) noFailure 2
      (leaderboardRequest {} (some "2024-05") none) w (.ok a) w' ∧
    a.entries.map LeaderboardEntry.volume = [(7, 250)] ∧
    merchantVolume 7 (confirmedIn "2024-05" w.db.processed) = 350 ∧
    ¬ Lists (confirmedIn "2024-05" w.db.processed)
      (a.entries.map LeaderboardEntry.volume) := by
  have hrun : staleRun.map (fun r =>
      (r.2.2.2.db.raw_events, r.2.2.2.db.processed,
        (r.2.2.2.db.rollup .day).entries)) =
      some ([Sample.row (Sample.confirmed 'a' 250) 1 3,
          Sample.row (Sample.confirmed 'b' 100) 2 5],
        [Sample.row (Sample.confirmed 'a' 250) 1 3,
          Sample.row (Sample.confirmed 'b' 100) 2 5],
        [(⟨7, (Sample.instant 0).truncDay, .paymentConfirmed⟩,
        ⟨2, 350, some 100, some 250⟩)]) := by decide +kernel
  have hkeys : staleRun.map (fun r =>
      ((r.2.2.1.redis.board "2024-05").isSome,
        (r.2.2.2.redis.board "2024-05").map (·.entries),
        (r.2.2.2.txs.get? 2).isNone)) =
      some (true, some [("00000000-0000-0000-0000-000000000007", 250)], true) := by
    decide +kernel
  obtain ⟨r, hr, htables⟩ := Option.map_eq_some_iff.mp hrun
  obtain ⟨v, htracked, hrest⟩ := Option.bind_eq_some_iff.mp hr
  obtain ⟨⟨w₀, new, w₁⟩, hcommitted, hrest⟩ := Option.bind_eq_some_iff.mp hrest
  obtain ⟨⟨x, w⟩, hpublish, heq⟩ := Option.map_eq_some_iff.mp hrest
  cases heq
  simp only [hr, Option.map_some, Option.some.injEq, Prod.mk.injEq,
    Option.map_eq_some_iff, Option.isNone_iff_eq_none] at hkeys
  obtain ⟨hlive, ⟨scores, hhot, hscores⟩, hidle⟩ := hkeys
  obtain ⟨hraw, hprocessed, hrows⟩ : w.db.raw_events = _ ∧
      w.db.processed = _ ∧ (w.db.rollup .day).entries = _ :=
    ⟨congrArg Prod.fst htables, congrArg (·.2.1) htables,
      congrArg (·.2.2) htables⟩
  -- the stale sorted set is there, so it is served
  obtain ⟨a, w', he, hentries⟩ := @exists_eval_stored w scores
    [⟨1, 7, none, 250, none⟩] "redis" hidle hhot (by
      rw [hotAnswer, Redis.ranked, hscores]
      decide)
  have hvolumes : a.entries.map LeaderboardEntry.volume = [(7, 250)] := by
    rw [hentries]
    rfl
  have hvolume : merchantVolume 7 (confirmedIn "2024-05" w.db.processed) =
      350 := by
    rw [hprocessed]
    decide
  obtain ⟨hingest, page, hbatch⟩ := committedAfter_steps hcommitted
  -- the batch ran to its end; it was the pipeline that failed
  have hpub : Eval (M := services) (fun _ _ => True) 1
      (RollupWorker.publish (Sample.worker "w") new) w₁ x w :=
    eval_of_evalWith (fun _ _ _ => trivial) hpublish
  obtain ⟨made, hmade⟩ := hpub.halts
  have hpast : ReflTransGen (Move (·.worker_id = "w"))
      (World.start Sample.merchants) w₀ :=
    ((trackedRun_turns htracked).lift id fun _ _ h => .turn h).tail (.turn hingest)
  refine ⟨w₀, new, made, w, w', a, hpast, hlive, .ended rfl hbatch hmade,
    fun period m => ?_, ?_, ?_, he, hvolumes, hvolume,
    hvolumes ▸ not_lists (hvolume ▸ by decide)⟩
  · exact Db.volume_le hrows (by decide) (by decide) period m
  · rw [hraw, NoFirstDays]
    decide
  · refine (Db.rankedCount_le _ _ _).trans_lt ?_
    rw [hrows]
    decide

end AnalyticsPipeline
