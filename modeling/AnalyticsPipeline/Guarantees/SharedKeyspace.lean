import AnalyticsPipeline.Guarantees.ExactlyOnce
import AnalyticsPipeline.Metatheory.CommandTraces
import AnalyticsPipeline.Metatheory.LeaderboardReads
import AnalyticsPipeline.Metatheory.RebuildRace
import AnalyticsPipeline.Metatheory.RedisKinds

/-!
# The shared keyspace

Requests, batches and the nightly job share one Redis. Whatever they do, however
Redis fails them and whichever keys it drops, no command ever meets a value of
the wrong kind; and so long as no increments break off halfway, every key but
one counter expires.
-/

namespace AnalyticsPipeline

open Framework

/-- The whole system; `ok` says which steps Redis and the sessions take. -/
def wholeSystem (ok : World → ℕ → Call → Choice → Prop) : ServicePolicy where
  call := ok
  crash := fun _ _ => True
  spawn := fun _ p => SystemProgram (fun _ => True) True p
  env := fun _ _ => True

/-- The call is answered that the value at its key is of the wrong kind. -/
def Mistyped : (c : Call) → c.Res → Prop
  | .redisGet _, x => x = .error .wrongType
  | .redisExists _, x => x = .error .wrongType
  | .redisRange _ _ _, x => x = .error .wrongType
  | .redisWrite _ _, x => x = .error .wrongType
  | _, _ => False

section Steps

variable {R : Redis → Prop} {stmt : Stmt → Prop}

/-- Among the calls, only pipelines, whole or broken off, concern Redis. -/
theorem redis_of_exec
    (hwrite : ∀ {r : Redis} {transaction ops}, Pipeline transaction ops → R r →
      R (r.runAll ops).2)
    {i : ℕ} {c : Call} {ch : Choice} {x : c.Res} {w w' : World}
    (hbroken : ∀ {transaction ops n}, Pipeline transaction ops →
      c = .redisWrite transaction ops → ch = .fail n →
      R (w.redis.runBroken transaction n ops))
    (hc : Served stmt c) (hw : R w.redis)
    (he : World.exec i c ch w = some (x, w')) : R w'.redis := by
  have hother (hne : ∀ transaction ops, c ≠ .redisWrite transaction ops) :
      R w'.redis := by
    rw [World.exec_redis hne he]
    exact hw
  cases hc with
  | @write transaction ops hops =>
      cases ch <;> simp only [World.exec, reduceCtorEq, Option.some.injEq,
        Prod.mk.injEq] at he
      · exact he.2 ▸ hwrite hops hw
      · exact he.2 ▸ hbroken hops rfl rfl
  | _ => exact hother (by simp)

theorem redis_of_handle (hevict : ∀ {r : Redis} {key}, R r → R (Dict.erase r key))
    {w w' : World} {e : WorldEvent} (hw : R w.redis)
    (he : w.handle e = some w') : R w'.redis := by
  cases e with
  | deleteOffset consumer =>
      simp only [World.handle] at he
      split at he
      · cases he
      · cases he
        exact hw
  | evict key =>
      cases he
      exact hevict hw

end Steps

/-! ## Kinds -/

theorem typed_of_exec {stmt : Stmt → Prop} {i : ℕ} {c : Call} {ch : Choice}
    {x : c.Res} {w w' : World} (hc : Served stmt c) (hw : w.redis.Typed)
    (he : World.exec i c ch w = some (x, w')) : w'.redis.Typed :=
  redis_of_exec (R := Redis.Typed) (fun hops hr => (hr.runAll hops.fits).1)
    (fun hops _ _ => hw.runBroken hops.fits _ _) hc hw he

theorem kept_typed (ok : World → ℕ → Call → Choice → Prop) :
    Kept (wholeSystem ok) (Served fun _ => True)
      (fun w : World => w.redis.Typed) where
  spawn := fun h => h.only (fun _ _ => trivial) fun _ _ => trivial
  call := fun hc _ hw he => typed_of_exec hc hw he
  crash := fun h => h
  env := fun _ hw he => redis_of_handle (R := Redis.Typed) (fun hr => hr.erase _) hw he

theorem CacheKey.document {key : String} (h : CacheKey key) {r : Redis}
    (hr : r.Typed) : ∃ d, r.getDocument key = .ok d := by
  unfold Redis.getDocument
  split
  · exact ⟨_, rfl⟩
  · rename_i scores ttl hget
    have hfits := hr _ _ hget
    cases h with
    | metrics m start stop g =>
        rw [keyKind_metrics] at hfits
        obtain ⟨_, hvalue⟩ := hfits
        cases hvalue
    | sparkline m window =>
        rw [keyKind_sparkline] at hfits
        obtain ⟨_, hvalue⟩ := hfits
        cases hvalue
  · exact ⟨_, rfl⟩
  · exact ⟨_, rfl⟩

theorem not_mistyped {stmt : Stmt → Prop} {i : ℕ} {c : Call} {ch : Choice}
    {x : c.Res} {w w' : World} (hc : Served stmt c) (hw : w.redis.Typed)
    (he : World.exec i c ch w = some (x, w')) : ¬ Mistyped c x := by
  cases hc with
  | get hkey =>
      obtain ⟨d, hd⟩ := hkey.document hw
      cases ch <;> simp only [World.exec, reduceCtorEq, Option.some.injEq,
        Prod.mk.injEq] at he
      · rw [Mistyped, ← he.1, hd]
        simp
      · rw [Mistyped, ← he.1]
        simp
  | live period =>
      cases ch <;> simp only [World.exec, reduceCtorEq, Option.some.injEq,
        Prod.mk.injEq] at he
      all_goals
        rw [Mistyped, ← he.1]
        simp
  | range period start stop =>
      obtain ⟨scores, hscores, -⟩ := hw.scores (keyKind_leaderboard period)
      cases ch <;> simp only [World.exec, reduceCtorEq, Option.some.injEq,
        Prod.mk.injEq] at he
      · rw [Mistyped, ← he.1, Redis.zrevrange, hscores]
        simp [Except.map]
      · rw [Mistyped, ← he.1]
        simp
  | write hops =>
      cases ch <;> simp only [World.exec, reduceCtorEq, Option.some.injEq,
        Prod.mk.injEq] at he
      · rw [Mistyped, ← he.1]
        rcases (hw.runAll hops.fits).2 with h | h <;> simp [h]
      · rw [Mistyped, ← he.1]
        simp
  | _ => exact id

/-- **The keyspace stays typed**: in every run of requests, batches and
compactions, through crashes, lost connections, pipelines broken off at any
command and evictions, every key holds a value of the kind its text tells, and
no session can be answered that a value is of the wrong kind. -/
theorem keyspace_stays_typed {w : World} (hw : w.redis.Typed)
    {c : Config services PyError}
    (hc : Reach (wholeSystem fun _ _ _ _ => True) (Config.idle w) c) :
    Redis.Typed (World.redis c.world) ∧
      ∀ i s k ch x w', c.session i = .call s k →
        World.exec i s ch c.world = some (x, w') → ¬ Mistyped s x := by
  obtain ⟨htyped, hall⟩ := (kept_typed _).reach_idle hw hc
  refine ⟨htyped, fun i s k ch x w' hp he => ?_⟩
  have hi := hall i
  rw [hp] at hi
  exact not_mistyped hi.of_call.1 htyped he

/-- The run of one event, two workers and a replay is one of the whole
system. -/
theorem wholeSystem_replayed {ok : World → ℕ → Call → Choice → Prop}
    {ok' : World → ℕ → Call → Choice → Bool}
    (hok : ∀ w i s ch, ok' w i s ch = true → ok w i s ch)
    {c : Config services PyError}
    (hc : (Config.idle (World.start Sample.merchants)).replay? ok' replayedRun =
      some c) :
    Reach (wholeSystem ok) (Config.idle (World.start Sample.merchants)) c := by
  refine reach_of_replay? hok ?_ hc
  simp only [replayedRun, List.forall_mem_append, Sample.admits_ingest,
    Sample.admits_fetch, List.forall_mem_singleton]
  exact ⟨⟨⟨.service (.ingestEvent _), ⟨.service (.processBatch _ trivial),
    Sample.admits_store⟩, Sample.admits_close⟩, fun _ => trivial⟩,
    ⟨.service (.processBatch _ trivial), Sample.admits_skip⟩,
    Sample.admits_close⟩

theorem keyspace_stays_typed_replayed : ∃ c : Config services PyError,
    (c.world.redis.get? "metrics:ingestion_rate").isSome = true ∧
      Redis.Typed (World.redis c.world) := by
  have hrun : ((Config.idle (World.start Sample.merchants)).replay?
      (fun _ _ _ _ => true) replayedRun).map (fun c =>
        (c.world.redis.get? "metrics:ingestion_rate").isSome) = some true := by
    decide +kernel
  obtain ⟨c, hc, hset⟩ := Option.map_eq_some_iff.mp hrun
  have hreach : Reach (wholeSystem fun _ _ _ _ => True) _ c :=
    wholeSystem_replayed (fun _ _ _ _ _ => trivial) hc
  exact ⟨c, hset, (keyspace_stays_typed typed_empty hreach).1⟩

/-! ## Times to live -/

/-- Every key has a time to live, but for the counter of rebuilds, which has
none. -/
def Redis.Expiring (r : Redis) : Prop :=
  ∀ key entry, r.get? key = some entry →
    (entry.ttl = none ↔ key = rebuildsKey)

section Expiring

variable {r r' : Redis} {key : String}

theorem Redis.Expiring.set (h : r.Expiring) {entry : RedisEntry}
    (hentry : entry.ttl = none ↔ key = rebuildsKey) :
    Redis.Expiring (Dict.set r key entry) := by
  intro k e hget
  rw [Dict.get?_set] at hget
  split at hget
  · rename_i hk
    cases hget
    rw [hk]
    exact hentry
  · exact h k e hget

theorem Redis.Expiring.erase (h : r.Expiring) (key : String) :
    Redis.Expiring (Dict.erase r key) := by
  intro k e hget
  rw [Dict.get?_erase] at hget
  split at hget
  · cases hget
  · exact h k e hget

/-- Commands on one key that end by setting its time to live. -/
theorem Redis.Expiring.runAll_expire (h : r.Expiring) {ops : List RedisOp}
    (hops : ∀ op ∈ ops, op.key = key) (hkey : key ≠ rebuildsKey) (seconds : ℕ) :
    (r.runAll (ops ++ [.expire key seconds])).2.Expiring := by
  have hothers : ∀ k, k ≠ key →
      (r.runAll (ops ++ [.expire key seconds])).2.get? k = r.get? k := by
    intro k hk
    refine runAll_get?_of_ne fun op hop => ?_
    rcases List.mem_append.mp hop with hop | hop
    · rw [hops op hop]
      exact Ne.symm hk
    · rw [List.mem_singleton.mp hop]
      exact Ne.symm hk
  intro k entry hget
  by_cases hk : k = key
  · -- the last command has set the time to live, or dropped the key
    subst hk
    rw [runAll_append] at hget
    simp only [Redis.runAll, Redis.run] at hget
    revert hget
    cases hmid : (r.runAll ops).2.get? k with
    | none => simp [hmid]
    | some e =>
        by_cases hs : seconds = 0
        · simp [hs]
        · intro hget
          simp [hs] at hget
          rw [← hget]
          simp [hkey]
  · rw [hothers k hk] at hget
    exact h k entry hget

theorem Redis.Expiring.store (h : r.Expiring) (hkey : key ≠ rebuildsKey)
    (value : RedisValue) (ex : ℕ) :
    (r.runAll [.set key value ex]).2.Expiring := by
  rw [runAll_set]
  split
  · exact h
  · exact h.set ⟨fun hnone => absurd hnone (by simp), fun heq => absurd heq hkey⟩

/-- Counting keeps the time to live, and a new counter has none. -/
theorem Redis.Expiring.runAll_rebuilds (h : r.Expiring) :
    (r.runAll [.incrby rebuildsKey 1]).2.Expiring := by
  have hrun : r.run (.incrby rebuildsKey 1) = .error .wrongType ∨
      ∃ n, r.run (.incrby rebuildsKey 1) =
        .ok (Dict.set r rebuildsKey ⟨.document (.number n), none⟩) := by
    rw [Redis.run]
    split
    · exact .inr ⟨1, rfl⟩
    · rename_i n ttl hget
      obtain rfl : ttl = none := (h _ _ hget).mpr rfl
      exact .inr ⟨n + 1, rfl⟩
    · exact .inl rfl
  rcases hrun with hrun | ⟨n, hrun⟩ <;> rw [Redis.runAll, hrun]
  · exact h
  · exact h.set ⟨fun _ => rfl, fun _ => rfl⟩

theorem ne_rebuildsKey_of_kind (h : keyKind key ≠ .counter) :
    key ≠ rebuildsKey := by
  rintro rfl
  exact h (keyKind_counter (by decide))

/-- **Each pipeline**, run to its end, leaves its key with a time to live. -/
theorem Pipeline.expires {transaction : Bool} {ops : List RedisOp}
    (h : Pipeline transaction ops) (hr : r.Expiring) :
    (r.runAll ops).2.Expiring := by
  have hcount : ∀ {key : String} {n : ℤ} {s : ℕ}, key ≠ rebuildsKey →
      (r.runAll [.incrby key n, .expire key s]).2.Expiring := by
    intro key n s hkey
    have hops : ∀ op ∈ [RedisOp.incrby key n], op.key = key := by
      intro op hop
      rw [List.mem_singleton.mp hop]
      rfl
    exact hr.runAll_expire hops hkey s
  have hboard : ∀ period, leaderboardKey period ≠ rebuildsKey := fun period =>
    ne_rebuildsKey_of_kind (by simp [keyKind_leaderboard])
  cases h with
  | record count => exact hcount (by decide)
  | hit => exact hcount (by decide)
  | miss => exact hcount (by decide)
  | rebuilds => exact hr.runAll_rebuilds
  | increments period increments _ =>
      refine hr.runAll_expire (fun op hop => ?_) (hboard period) _
      obtain ⟨p, -, rfl⟩ := List.mem_map.mp hop
      rfl
  | rebuild period entries ttl =>
      refine hr.runAll_expire (fun op hop => ?_) (hboard period) ttl
      rcases List.mem_append.mp hop with hop | hop
      · rw [List.mem_singleton.mp hop]
        rfl
      · obtain ⟨e, -, rfl⟩ := List.mem_map.mp hop
        rfl
  | heartbeat worker_id now =>
      exact hr.store
        (ne_rebuildsKey_of_kind (by simp [keyKind_heartbeat])) _ _
  | metrics m start stop g response ttl =>
      exact hr.store
        (ne_rebuildsKey_of_kind (by simp [keyKind_metrics])) _ _
  | sparkline m window data ttl =>
      exact hr.store
        (ne_rebuildsKey_of_kind (by simp [keyKind_sparkline])) _ _

/-- Outside transactions a connection breaks before a pipeline or after it. -/
def wholePipelines (_ : World) (_ : ℕ) : Call → Choice → Prop
  | .redisWrite false ops, .fail n => n = 0 ∨ ops.length ≤ n
  | _, _ => True

theorem kept_expiring : Kept (wholeSystem wholePipelines)
    (Served fun _ => True) (fun w : World => w.redis.Expiring) where
  spawn := fun h => h.only (fun _ _ => trivial) fun _ _ => trivial
  call := by
    intro i c ch x w w' hc hok hw he
    refine redis_of_exec (R := Redis.Expiring) (fun hops hr => hops.expires hr)
      (fun {transaction} {ops} {n} hops hcall hch => ?_) hc hw he
    subst hcall hch
    cases transaction with
    | true =>
        rw [Redis.runBroken, if_pos rfl]
        split
        · exact hw
        · exact hops.expires hw
    | false =>
        rw [Redis.runBroken, if_neg Bool.false_ne_true]
        have hcut : n = 0 ∨ ops.length ≤ n := hok
        rcases hcut with rfl | hn
        · exact hw
        · rw [List.take_of_length_le hn]
          exact hops.expires hw
  crash := fun h => h
  env := fun _ hw he =>
    redis_of_handle (R := Redis.Expiring) (fun hr => hr.erase _) hw he

/-- **Keys expire**: so long as a lost connection cuts no pipeline outside a
transaction in two, every key of every reachable keyspace has a time to live,
except for the counter of rebuilds, which never has one. -/
theorem every_key_expires {w : World} (hw : w.redis.Expiring)
    {c : Config services PyError}
    (hc : Reach (wholeSystem wholePipelines) (Config.idle w) c) :
    ∀ key entry, c.world.redis.get? key = some entry →
      (entry.ttl = none ↔ key = rebuildsKey) :=
  (kept_expiring.reach_idle hw hc).1

def unbroken (_ : World) (_ : ℕ) (_ : Call) : Choice → Bool
  | .fail _ => false
  | _ => true

theorem every_key_expires_replayed : ∃ (c : Config services PyError)
    (entry : RedisEntry), c.world.redis.get? "worker:heartbeat:w" = some entry ∧
      (entry.ttl = none ↔ "worker:heartbeat:w" = rebuildsKey) := by
  have hrun : ((Config.idle (World.start Sample.merchants)).replay? unbroken
      replayedRun).map (fun c =>
        (c.world.redis.get? "worker:heartbeat:w").isSome) = some true := by
    decide +kernel
  obtain ⟨c, hc, hset⟩ := Option.map_eq_some_iff.mp hrun
  obtain ⟨entry, hentry⟩ := Option.isSome_iff_exists.mp hset
  have hwhole : ∀ w i s ch, unbroken w i s ch = true → wholePipelines w i s ch := by
    intro w i s ch h
    cases ch with
    | fail n => cases h
    | _ => cases s <;> simp [wholePipelines]
  have hreach : Reach (wholeSystem wholePipelines) _ c := wholeSystem_replayed hwhole hc
  have hempty : Redis.Expiring ∅ := fun _ _ h => by cases h
  exact ⟨c, entry, hentry, every_key_expires hempty hreach _ entry hentry⟩

end Expiring

end AnalyticsPipeline
