import AnalyticsPipeline.Framework.Conflict
import AnalyticsPipeline.Metatheory.Leaderboard
import AnalyticsPipeline.Metatheory.Quiescence
import AnalyticsPipeline.Metatheory.SolitaryQuery

/-!
# Leaderboards alone

What publishing a batch and reading a leaderboard do to Redis when nothing else
runs and Redis answers every command.
-/

namespace AnalyticsPipeline

open Framework

/-! ## Publishing -/

/-- The scores after the increments of some payments. -/
def gained (scores : Dict String ℤ) (events : List RawEvent) : Dict String ℤ :=
  (volumes events).entries.foldl (fun scores p => increment p scores) scores

theorem get?_gained (scores : Dict String ℤ) (events : List RawEvent)
    (member : String) :
    (gained scores events).get? member =
      if amountsOf member events = [] then scores.get? member
      else some (roundDouble ((scores.get? member).getD 0 +
        roundDouble (amountsOf member events).sum)) := by
  have hvolume := get?_volumes events member
  rw [gained]
  unfold increment
  rw [Dict.get?_foldl_alter (Prod.fst : String × ℤ → String)
    fun p old => roundDouble (old.getD 0 + roundDouble p.2)]
  split at hvolume
  · rename_i hnil
    have hnone : ((volumes events).entries.filter fun p => p.1 = member) = [] := by
      refine List.filter_eq_nil_iff.mpr fun p hp => ?_
      rw [decide_eq_true_eq]
      rintro rfl
      exact Dict.get?_eq_none_iff.mp hvolume (List.mem_map_of_mem hp)
    rw [hnone, if_pos hnil]
    rfl
  · rename_i hne
    have hone := @filter_key_eq _ _ _ Prod.fst _ _ (volumes events).nodup_keys
      (Dict.get?_eq_some_iff.mp hvolume)
    rw [hone, if_neg hne]
    rfl

/-- What increments of several periods leave. -/
structure Incremented (l : List (String × Dict String ℤ)) (r r' : Redis) :
    Prop where
  others : ∀ key, (∀ q ∈ l, key ≠ leaderboardKey q.1) →
    r'.get? key = r.get? key
  boards : ∀ q ∈ l, r'.get? (leaderboardKey q.1) =
    some ⟨.zset (q.2.entries.foldl (fun scores p => increment p scores)
      ((r.board q.1).getD ∅)), some (48 * 3600)⟩

/-- What publishing the new events of a batch leaves. -/
structure Published (events : List RawEvent) (r r' : Redis) : Prop where
  others : ∀ key, (∀ p, confirmedIn p events ≠ [] → key ≠ leaderboardKey p) →
    r'.get? key = r.get? key
  boards : ∀ p, confirmedIn p events ≠ [] → r'.get? (leaderboardKey p) =
    some ⟨.zset (gained ((r.board p).getD ∅) (confirmedIn p events)),
      some (48 * 3600)⟩

section Publishing

variable {i : ℕ} {h : History} {r r' : Redis} {d : Dict UUID ℕ}
  {t : Option Tx} {w : World} {fails : Bool} {settings : Settings}
  {events : List RawEvent}

theorem Boards.of_increments (hb : Boards r) {period : String}
    {scores : Dict String ℤ} {ttl : Option ℕ}
    (hget : r'.get? (leaderboardKey period) = some ⟨.zset scores, ttl⟩)
    (hothers : ∀ k, k ≠ leaderboardKey period → r'.get? k = r.get? k) :
    Boards r' := by
  intro p entry hentry
  by_cases hp : p = period
  · subst hp
    rw [hget] at hentry
    cases hentry
    exact ⟨scores, rfl⟩
  · rw [hothers _ fun hkey => hp (leaderboardKey_injective hkey)] at hentry
    exact hb p entry hentry

theorem after_incrementAll : ∀ {l : List (String × Dict String ℤ)} {r : Redis}
    {w : World}, (l.map Prod.fst).Nodup → (∀ q ∈ l, q.2.entries ≠ []) →
    Boards r → At i h r d t w →
    After (notifying fails) (M := services) i
      (l.forM fun q => RedisRepository.leaderboardIncrementBatch q.1 q.2)
      (fun x w' => x = .ok () ∧ ∃ r', At i h r' d t w' ∧ Incremented l r r') w
  | [], r, w, _, _, _, hat => after_ret
      ⟨rfl, r, hat, fun _ _ => rfl, fun _ hq => absurd hq List.not_mem_nil⟩
  | q :: l, r, w, hnd, hne, hb, hat => by
      obtain ⟨hq, hnd⟩ := List.nodup_cons.mp hnd
      obtain ⟨hok, hget, hothers⟩ := @runAll_incrementOps _ hb
        q.1 _ (hne q List.mem_cons_self)
      refine after_bind ?_
      dsimp only
      rw [RedisRepository.leaderboardIncrementBatch,
        if_neg (hne q List.mem_cons_self)]
      refine after_write hat fun w₁ hat₁ => ?_
      change At i h (r.runAll (incrementOps q.1 q.2.entries)).2 d t w₁ at hat₁
      have hres : (r.runAll ((q.2.entries.map fun p =>
          .zincrby (leaderboardKey q.1) p.2 p.1) ++
            [.expire (leaderboardKey q.1) (48 * 3600)])).1 = .ok () := hok
      rw [hres]
      refine After.mono ?_ (after_incrementAll hnd
        (fun q' hq' => hne q' (.tail q hq')) (hb.of_increments hget hothers) hat₁)
      rintro x w₂ ⟨hx, r₂, hat₂, hinc⟩
      have hkeys : ∀ q' ∈ l, leaderboardKey q'.1 ≠ leaderboardKey q.1 := by
        intro q' hq' hkey
        exact hq (leaderboardKey_injective hkey ▸ List.mem_map_of_mem hq')
      refine ⟨hx, r₂, hat₂, fun key hkey => ?_, fun q' hq' => ?_⟩
      · rw [hinc.others key fun q' hq' => hkey q' (.tail q hq'),
          hothers key (hkey q List.mem_cons_self)]
      · rcases List.mem_cons.mp hq' with rfl | hq'
        · rw [hinc.others _ fun q'' hq'' => Ne.symm (hkeys q'' hq''), hget]
        · rw [hinc.boards q' hq', board_congr (hothers _ (hkeys q' hq'))]

theorem published_of_incremented
    (h : Incremented (RollupWorker.periodIncrements events).entries r r') :
    Published events r r' where
  others := fun key hkey => h.others key fun q hq => by
    exact hkey q.1 (of_mem_periodIncrements hq).1
  boards := fun p hp => by
    have hget := get?_periodIncrements events p
    rw [if_neg hp] at hget
    exact h.boards (p, volumes (confirmedIn p events))
      (Dict.get?_eq_some_iff.mp hget)

theorem after_updateLeaderboard (hb : Boards r) (hat : At i h r d t w) :
    After (notifying fails) (M := services) i
      (RollupWorker.updateLeaderboard events)
      (fun x w' => x = .ok () ∧ ∃ r', At i h r' d t w' ∧ Published events r r')
      w := by
  refine after_tryCatch (After.mono ?_ (after_incrementAll
    (RollupWorker.periodIncrements events).nodup_keys ?_ hb hat))
  · rintro x w₁ ⟨rfl, r₁, hat₁, hinc⟩
    exact ⟨rfl, r₁, hat₁, published_of_incremented hinc⟩
  · exact fun q hq => entries_ne_nil_of_mem hq

/-- Nothing to publish. -/
theorem Published.nil (r : Redis) : Published [] r r :=
  ⟨fun _ _ => rfl, fun _ hne => absurd rfl hne⟩

def heartbeatKey (settings : Settings) : String :=
  s!"worker:heartbeat:{settings.worker_id}"

theorem heartbeatKey_ne (settings : Settings) (period : String) :
    leaderboardKey period ≠ heartbeatKey settings := by
  refine ne_leaderboardKey (fun hhead => ?_) period
  exact absurd ((head?_heartbeat settings.worker_id).symm.trans hhead) (by decide)

theorem after_heartbeat (hat : At i h r d t w) :
    After (notifying fails) (M := services) i
      (RedisRepository.setWorkerHeartbeat settings.worker_id)
      (fun x w' => x = .ok () ∧ ∃ r', At i h r' d t w' ∧
        ∀ key, key ≠ heartbeatKey settings → r'.get? key = r.get? key) w := by
  refine after_now fun now => after_write hat fun w₁ hat₁ => ?_
  have hset := @runAll_set r (heartbeatKey settings) (.timestamp now) 60
  rw [if_neg (by decide)] at hset
  change At i h (r.runAll [.set (heartbeatKey settings) (.timestamp now) 60]).2
    d t w₁ at hat₁
  change (r.runAll [.set (heartbeatKey settings) (.timestamp now) 60]).1.mapError
    PyError.redis = .ok () ∧ _
  rw [hset] at hat₁ ⊢
  refine ⟨rfl, _, hat₁, fun key hkey => ?_⟩
  rw [Dict.get?_set, if_neg hkey]

theorem after_publish (hb : Boards r) (hat : At i h r d t w) :
    After (notifying fails) (M := services) i
      (RollupWorker.publish settings events)
      (fun x w' => x = .ok () ∧ ∃ r₁ r', At i h r' d t w' ∧
        Published events r r₁ ∧
        ∀ key, key ≠ heartbeatKey settings → r'.get? key = r₁.get? key) w := by
  rw [RollupWorker.publish]
  split
  · refine after_bind (After.mono ?_ (after_updateLeaderboard hb hat))
    rintro x w₁ ⟨rfl, r₁, hat₁, hpub⟩
    refine After.mono ?_ (after_heartbeat hat₁)
    rintro x w₂ ⟨rfl, r₂, hat₂, hothers⟩
    exact ⟨rfl, r₁, r₂, hat₂, hpub, hothers⟩
  · rename_i hnil
    rw [not_not] at hnil
    refine After.mono ?_ (after_heartbeat hat)
    rintro x w₁ ⟨rfl, r₁, hat₁, hothers⟩
    exact ⟨rfl, r, r₁, hat₁, hnil ▸ Published.nil r, hothers⟩

end Publishing

/-! ## A batch and its leaderboards -/

section Batch

variable {i : ℕ} {w w' : World} {settings : Settings} {page new : List RawEvent}

/-- What the transaction of a batch does to tables in order. -/
theorem BatchOutcome.settles {h h' : History} (hd : Deduplicated h.db)
    (hagg : Aggregated h.db)
    (hout : BatchOutcome settings h (some (page, new)) h') :
    Deduplicated h'.db ∧ Aggregated h'.db ∧
      h'.db.raw_events = h.db.raw_events ∧
      h'.db.markedEvents.Perm (h.db.markedEvents ++ new) ∧
      ∀ m ∈ h'.db.processed_rollup_events,
        m ∈ h.db.processed_rollup_events ∨ m.consumer_id = settings.worker_id := by
  cases hout with
  | @page f _ ws hf _ hbatch =>
      obtain ⟨ids, hmarks, -⟩ := hbatch.marks
      refine ⟨hbatch.deduplicates hd, hagg.batch (h := h.fetch f) hd hbatch,
        hbatch.raw_events, Aggregated.markedEvents_batch (h := h.fetch f) hd hbatch,
        fun m hm => ?_⟩
      have hprocessed : m ∈ (ws.overlay h.db).processed_rollup_events := hm
      rw [Db.overlay_processed, hmarks.written, List.mem_append] at hprocessed
      refine hprocessed.imp_right fun hm => ?_
      obtain ⟨u, -, rfl⟩ := List.mem_map.mp hm
      rfl

/-- **A batch alone** marks its new events and publishes them. -/
theorem Quiescent.processBatch {x : Except PyError ℕ} (h : Quiescent w)
    (hb : Boards w.redis)
    (he : Eval (M := services) noFailure i (RollupWorker.processBatch settings) w
      x w') :
    ∃ new r, w'.db.markedEvents.Perm (w.db.markedEvents ++ new) ∧
      Published new w.redis r ∧
      ∀ key, key ≠ heartbeatKey settings → w'.redis.get? key = r.get? key := by
  have hnothing : ∀ {v : World}, v.db = w.db → v.redis = w.redis →
      ∃ new r, v.db.markedEvents.Perm (w.db.markedEvents ++ new) ∧
        Published new w.redis r ∧
        ∀ key, key ≠ heartbeatKey settings → v.redis.get? key = r.get? key := by
    intro v hdb hredis
    refine ⟨[], w.redis, ?_, .nil _, fun _ _ => hredis ▸ rfl⟩
    rw [hdb, List.append_nil]
  rcases eval_bind_iff.mp he with ⟨y, w₁, h₁, h₂⟩ | ⟨e, h₁, -⟩
  · obtain ⟨-, hnone, hout, hredis⟩ :=
      eval_batchScope_ok h.coherent (h.idle i) h₁
    cases y with
    | none =>
        obtain ⟨-, rfl⟩ := eval_ret_iff.mp h₂
        refine hnothing ?_ hredis
        generalize w'.toHistory = g at hout
        cases hout
        rfl
    | some p =>
        have hat : At i w₁.toHistory w.redis w₁.issued none w₁ :=
          ⟨rfl, hredis, rfl, hnone⟩
        obtain ⟨-, -, -, hmarked, -⟩ :=
          BatchOutcome.settles h.deduplicated h.aggregated hout
        have hafter : After noFailure (M := services) i (do
            RollupWorker.publish settings p.2
            pure p.1.length) (fun _ v => ∃ r, v.toHistory = w₁.toHistory ∧
              Published p.2 w.redis r ∧ ∀ key, key ≠ heartbeatKey settings →
                v.redis.get? key = r.get? key) w₁ := by
          refine after_bind (After.mono ?_ (after_publish hb hat))
          rintro _ v ⟨rfl, r₁, r', hat', hpub, hothers⟩
          exact after_ret ⟨r₁, hat'.history, hpub, hat'.redis ▸ hothers⟩
        obtain ⟨r, hhistory, hpub, hothers⟩ := hafter _ _ h₂
        refine ⟨p.2, r, ?_, hpub, hothers⟩
        rw [hhistory]
        exact hmarked
  · obtain ⟨-, -, hpost⟩ := eval_batchScope h.coherent (h.idle i) h₁
    obtain ⟨⟨hh, hr⟩, -⟩ := hpost
    exact hnothing (congrArg History.db hh) hr

end Batch

end AnalyticsPipeline
