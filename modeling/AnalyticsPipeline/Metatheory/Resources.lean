import AnalyticsPipeline.Metatheory.Keyspace
import AnalyticsPipeline.Metatheory.SolitaryRun

/-!
# What the programs use

A cost on calls that charges identifiers only (`Metered`) charges a request as
many as it has events and a batch of the worker none. Two costs are of interest:
the identifiers drawn, which must last, and the Redis commands that could make
the ingestion counter something else than a number, which there are none of.
-/

namespace AnalyticsPipeline

open Framework

/-! ## Metered programs -/

/-- The statement stores no negative amount. -/
def Stmt.credits : Stmt → Bool
  | insertRawEvents values => values.all (0 ≤ ·.amount_cents)
  | _ => true

/-- The two phases of a compaction. -/
def Stmt.compacts : Stmt → Bool
  | aggregateHours _ _ | overwriteDayRow _ => true
  | _ => false

/-- A statement the services may execute. -/
def Stmt.serves (s : Stmt) : Bool := s.credits && !s.compacts

/-- A statement ingestion executes. -/
def Stmt.ingests (s : Stmt) : Bool :=
  match s with
  | insertRawEvents _ => s.credits
  | selectMerchantIds _ | insertIdempotency _ | selectIdempotency _
  | selectRawEventsById _ | selectRawEventsByKeys _ | pgNotify _ => true
  | _ => false

theorem Stmt.serves_of_ingests {s : Stmt} (h : s.ingests = true) :
    s.serves = true := by
  cases s <;> simp_all [ingests, serves, compacts, credits]

/-- Of what ingestion calls, only identifiers cost, `u` each. -/
structure IngestCosts (cost : Call → ℕ) (u : ℕ) : Prop where
  begin : cost .begin = 0
  statement : ∀ s, s.ingests = true → cost (.sql s) = 0
  commit : ∀ answers, cost (.commit answers) = 0
  rollback : cost .rollback = 0
  uuid4 : cost .uuid4 = u
  now : cost .now = 0
  record : ∀ n, cost (.redisWrite true [.incrby "metrics:ingestion_rate" n,
    .expire "metrics:ingestion_rate" 2]) = 0

/-- The same, and no statement of the services costs anything. -/
structure IngestMetered (cost : Call → ℕ) (u : ℕ) : Prop
    extends IngestCosts cost u where
  sql : ∀ s, s.serves = true → cost (.sql s) = 0
  statement := fun s hs => sql s (Stmt.serves_of_ingests hs)

/-- Only identifiers cost, the worker's calls included. -/
structure Metered (cost : Call → ℕ) (u : ℕ) : Prop
    extends IngestMetered cost u where
  increments : ∀ period (increments : List (String × ℤ)),
    cost (.redisWrite false ((increments.map fun p =>
      .zincrby (leaderboardKey period) p.2 p.1) ++
        [.expire (leaderboardKey period) (48 * 3600)])) = 0
  heartbeat : ∀ (worker_id : String) (now : DateTime),
    cost (.redisWrite false
      [.set s!"worker:heartbeat:{worker_id}" (.timestamp now) 60]) = 0

section Metered

variable {cost : Call → ℕ} {u : ℕ} {α : Type}

theorem within_redisResult {β : Type} (x : Except RedisError β) :
    Prog.Within cost 0 (redisResult x) := by
  cases x <;> exact .ret

theorem within_write {transaction : Bool} {ops : List RedisOp}
    (hc : cost (.redisWrite transaction ops) = 0) :
    Prog.Within cost 0 (RedisRepository.write transaction ops) :=
  .free hc fun x => within_redisResult x

theorem within_one {β : Type} (l : List β) : Prog.Within cost 0 (one l) := by
  match l with
  | [] => exact .ret
  | [_] => exact .ret
  | _ :: _ :: _ => exact .ret

theorem within_execute {s : Stmt} (hc : cost (.sql s) = 0) :
    Prog.Within cost 0 (execute s) := by
  refine .free hc fun x => ?_
  cases x <;> exact .ret

theorem within_sessionScope (hbegin : cost .begin = 0)
    (hrollback : cost .rollback = 0) {body : Service α} {n : ℕ}
    (h : Prog.Within cost n body) : Prog.Within cost n (sessionScope body) := by
  refine .free hbegin fun _ => ?_
  have hleave : ∀ r : Except PyError α, Prog.Within cost 0
      (.call .rollback fun _ => .ret r : Service α) := fun r =>
    .free hrollback fun _ => .ret
  exact (h.tryCatch fun e => hleave (.error e)).bind fun x => hleave (.ok x)

theorem within_getDb (hbegin : cost .begin = 0) (hrollback : cost .rollback = 0)
    (hcommit : ∀ answers, cost (.commit answers) = 0) {body : Service α}
    {answers : α → Answers} {n : ℕ} (h : Prog.Within cost n body) :
    Prog.Within cost n (getDb answers body) := by
  refine within_sessionScope hbegin hrollback (Prog.Within.tryCatch (m := n)
    (n := 0) (Prog.Within.bind (m := n) (n := 0) h fun x => ?_) fun e => ?_)
  · rw [perform_bind]
    exact .free (hcommit _) fun _ => .ret
  · rw [perform_bind]
    exact .free hrollback fun _ => .ret

theorem within_batchUpsert (hsql : ∀ s, s.serves = true → cost (.sql s) = 0)
    (g : RollupGranularity) (agg : AggMap) :
    Prog.Within cost 0 (RollupRepository.batchUpsert g agg) := by
  rw [RollupRepository.batchUpsert]
  split
  · exact .ret
  · exact within_execute (hsql _ rfl)

/-- Of statements that cost nothing a batch makes a transaction that costs one
commit. -/
theorem within_batchTransaction
    (hsql : ∀ s, s.serves = true → cost (.sql s) = 0) (settings : Settings) :
    Prog.Within cost (cost (.commit []))
      (RollupWorker.batchTransaction settings) := by
  have hfree : ∀ {γ δ : Type} {n : ℕ} {p : Service γ} {f : γ → Service δ},
      Prog.Within cost 0 p → (∀ x, Prog.Within cost n (f x)) →
      Prog.Within cost n (p >>= f) := by
    intro γ δ n p f hp hf
    have hbind := Prog.Within.bind hp hf
    rwa [Nat.zero_add] at hbind
  refine hfree (within_execute (hsql _ rfl)) fun offset => ?_
  refine hfree (within_execute (hsql _ rfl)) fun events => ?_
  dsimp only
  split
  · exact .ret
  · refine hfree (within_execute (hsql _ rfl)) fun ids => hfree ?_ fun _ => ?_
    · rw [RollupWorker.upsertDeltas]
      split
      · exact .ret
      · exact hfree (within_batchUpsert hsql _ _) fun _ =>
          hfree (within_batchUpsert hsql _ _) fun _ =>
            within_batchUpsert hsql _ _
    · refine hfree (within_execute (hsql _ rfl)) fun _ => ?_
      rw [perform_bind, ← Nat.zero_add (cost (.commit []))]
      exact .call fun _ => .ret

namespace IngestCosts

variable (hm : IngestCosts cost u)

include hm

theorem execute {s : Stmt} (hs : s.ingests = true) :
    Prog.Within cost 0 (execute s) :=
  within_execute (hm.statement s hs)

theorem sessionScope {body : Service α} {n : ℕ}
    (h : Prog.Within cost n body) : Prog.Within cost n (sessionScope body) :=
  within_sessionScope hm.begin hm.rollback h

theorem draw {f : UUID → Service α} {n : ℕ}
    (hf : ∀ id, Prog.Within cost n (f id)) :
    Prog.Within cost (n + u) (perform .uuid4 >>= f) := by
  rw [perform_bind, ← hm.uuid4]
  exact .call hf

theorem clock {f : DateTime → Service α} {n : ℕ}
    (hf : ∀ t, Prog.Within cost n (f t)) :
    Prog.Within cost n (perform .now >>= f) := by
  rw [perform_bind]
  exact .free hm.now hf

theorem getDb {body : Service α} {answers : α → Answers} {n : ℕ}
    (h : Prog.Within cost n body) : Prog.Within cost n (getDb answers body) :=
  within_getDb hm.begin hm.rollback hm.commit h

/-! ### Ingestion -/

theorem recordIngestion (n : ℕ) :
    Prog.Within cost 0 (RedisRepository.recordIngestion n) :=
  within_write (hm.record n)

theorem notifyBestEffort (id : UUID) :
    Prog.Within cost 0 (notifyBestEffort id) :=
  Prog.Within.tryCatch (m := 0) (n := 0) (hm.execute rfl) fun _ => .ret

theorem insertEvent (event : EventIngest) (occurred_at : DateTime) :
    Prog.Within cost (0 + u) (EventRepository.insertEvent event occurred_at) := by
  refine hm.draw fun id => ?_
  refine Prog.Within.bind (m := 0) (n := 0) (hm.execute rfl) fun claimed => ?_
  split
  · refine Prog.Within.bind (m := 0) (n := 0) ?_ fun _ => .ret
    refine Prog.Within.bind (m := 0) (n := 0) (hm.execute rfl) fun rows => ?_
    refine Prog.Within.bind (m := 0) (n := 0) (within_one _) fun row => ?_
    exact Prog.Within.bind (m := 0) (n := 0) (hm.execute rfl) fun rows =>
      within_one _
  · have hingests : (Stmt.insertRawEvents
        [event.rawValues id occurred_at]).ingests = true := by
      simp [Stmt.ingests, Stmt.credits, EventIngest.rawValues,
        event.amount_nonneg]
    refine Prog.Within.bind (m := 0) (n := 0) (hm.execute hingests) fun rows => ?_
    exact Prog.Within.bind (m := 0) (n := 0) (within_one _) fun _ => .ret

theorem ingestEvent (event : EventIngest) :
    Prog.Within cost (0 + u) (IngestionService.ingestEvent event) := by
  rw [← Nat.zero_add (0 + u), IngestionService.ingestEvent]
  refine Prog.Within.bind (m := 0) (n := 0 + u) ?_ fun found => ?_
  · exact Prog.Within.bind (m := 0) (n := 0) (hm.execute rfl) fun _ => .ret
  · split
    · refine hm.clock fun occurred_at => ?_
      refine Prog.Within.bind (m := 0 + u) (n := 0) (hm.insertEvent _ _)
        fun inserted => ?_
      dsimp only
      split
      · exact .ret
      · refine Prog.Within.bind (m := 0) (n := 0) (hm.notifyBestEffort _)
          fun _ => ?_
        exact Prog.Within.bind (m := 0) (n := 0) (hm.recordIngestion _)
          fun _ => .ret
    · exact .ret

theorem ingestEventRequest (payload : EventIngest) :
    Prog.Within cost (0 + u) (ingestEventRequest payload) :=
  hm.getDb (hm.ingestEvent payload)

theorem eventIdMap (events : List EventIngest) (map : Dict String UUID) :
    Prog.Within cost (events.length * u)
      (EventRepository.eventIdMap events map) := by
  induction events generalizing map with
  | nil => exact .ret
  | cons e events ih =>
      rw [EventRepository.eventIdMap, List.length_cons, Nat.succ_mul]
      exact hm.draw fun id => ih _

theorem insertBatch (events : List EventIngest) (occurred_at : DateTime) :
    Prog.Within cost (events.length * u + 0)
      (EventRepository.insertBatch events occurred_at) := by
  refine (hm.eventIdMap events ∅).bind fun map => ?_
  refine Prog.Within.bind (m := 0) (n := 0) (hm.execute rfl) fun claimed => ?_
  dsimp only
  split
  · exact .ret
  · refine Prog.Within.bind (m := 0) (n := 0) (hm.execute ?_) fun _ => .ret
    refine List.all_eq_true.mpr fun v hv => decide_eq_true ?_
    obtain ⟨e, -, -, u, -, rfl⟩ := mem_rawValuesOf.mp hv
    exact e.amount_nonneg

theorem announce (rows : List RawEvent) :
    Prog.Within cost 0 (IngestionService.announce rows) := by
  rw [IngestionService.announce]
  split
  · exact .ret
  · exact Prog.Within.bind (m := 0) (n := 0) (hm.recordIngestion _)
      fun _ => hm.notifyBestEffort _

theorem storeBatch (events : List EventIngest) :
    Prog.Within cost (events.length * u + 0)
      (IngestionService.storeBatch events) := by
  refine hm.clock fun occurred_at => ?_
  refine Prog.Within.bind (m := events.length * u) (n := 0)
    (hm.insertBatch events occurred_at) fun inserted => ?_
  refine Prog.Within.bind (m := 0) (n := 0) (hm.announce _) fun _ => ?_
  refine Prog.Within.bind (m := 0) (n := 0) ?_ fun _ => .ret
  refine Prog.Within.bind (m := 0) (n := 0) ?_ fun _ => .ret
  rw [EventRepository.getByIdempotencyKeys]
  split
  · exact .ret
  · exact Prog.Within.bind (m := 0) (n := 0) (hm.execute rfl) fun _ => .ret

theorem ingestBatch (events : List EventIngest) :
    Prog.Within cost (0 + (events.length * u + 0))
      (IngestionService.ingestBatch events) := by
  refine Prog.Within.bind ?_ fun missing => ?_
  · rw [EventRepository.missingMerchantIds]
    split
    · exact .ret
    · exact Prog.Within.bind (m := 0) (n := 0) (hm.execute rfl) fun _ => .ret
  · split
    · exact .ret
    · exact hm.storeBatch events

theorem ingestBatchRequest (payload : BatchEventIngest) :
    Prog.Within cost (0 + (payload.events.length * u + 0))
      (ingestBatchRequest payload) :=
  hm.getDb (hm.ingestBatch payload.events)

end IngestCosts

theorem IngestMetered.execute (hm : IngestMetered cost u) {s : Stmt}
    (hs : s.serves = true) : Prog.Within cost 0 (execute s) :=
  within_execute (hm.sql s hs)

namespace Metered

variable (hm : Metered cost u)

include hm

/-! ### The worker -/

theorem batchTransaction (settings : Settings) :
    Prog.Within cost 0 (RollupWorker.batchTransaction settings) :=
  hm.commit [] ▸ within_batchTransaction hm.sql settings

theorem updateLeaderboard (events : List RawEvent) :
    Prog.Within cost 0 (RollupWorker.updateLeaderboard events) := by
  refine Prog.Within.tryCatch (m := 0) (n := 0) ?_ fun _ => .ret
  generalize (RollupWorker.periodIncrements events).entries = l
  induction l with
  | nil => exact .ret
  | cons p l ih =>
      refine Prog.Within.bind (m := 0) (n := 0) ?_ fun _ => ih
      unfold RedisRepository.leaderboardIncrementBatch
      dsimp only
      split
      · exact .ret
      · exact within_write (hm.increments p.1 p.2.entries)

theorem processBatch (settings : Settings) :
    Prog.Within cost 0 (RollupWorker.processBatch settings) := by
  refine Prog.Within.bind (m := 0) (n := 0)
    (hm.sessionScope (hm.batchTransaction settings)) fun batch => ?_
  have hbeat : Prog.Within cost 0
      (RedisRepository.setWorkerHeartbeat settings.worker_id) :=
    hm.clock fun t => within_write (hm.heartbeat _ t)
  cases batch with
  | none => exact .ret
  | some p =>
      refine Prog.Within.bind (m := 0) (n := 0) ?_ fun _ => .ret
      rw [RollupWorker.publish]
      split
      · exact Prog.Within.bind (m := 0) (n := 0) (hm.updateLeaderboard p.2)
          fun _ => hbeat
      · exact hbeat

end Metered

end Metered

/-- Without a price on identifiers the programs of the services are free. -/
theorem Metered.serviceProgram {cost : Call → ℕ} (hm : Metered cost 0)
    {worker : Settings → Prop} {p : Service Unit}
    (hp : ServiceProgram worker p) : Prog.Within cost 0 p := by
  cases hp with
  | processBatch settings _ =>
      exact Prog.Within.bind (m := 0) (n := 0) (hm.processBatch settings)
        fun _ => .ret
  | ingestEvent payload =>
      exact Prog.Within.bind (m := 0) (n := 0) (hm.ingestEventRequest payload)
        fun _ => .ret
  | ingestBatch payload =>
      exact Prog.Within.bind (m := 0) (n := 0) (hm.ingestBatchRequest payload)
        fun _ => .ret

/-- Drawing identifiers is all that draws. -/
theorem metered_draws : Metered Call.draws 1 where
  begin := rfl
  sql := fun _ _ => rfl
  commit := fun _ => rfl
  rollback := rfl
  uuid4 := rfl
  now := rfl
  record := fun _ => rfl
  increments := fun _ _ => rfl
  heartbeat := fun _ _ => rfl

/-! ## The ingestion counter -/

/-- The ingestion counter is a counter. -/
def Counts (r : Redis) : Prop :=
  ∀ entry, r.get? "metrics:ingestion_rate" = some entry →
    ∃ n, entry.value = .document (.number n)

/-- The command does not put something else in place of the counter. -/
def RedisOp.keepsCount : RedisOp → Bool
  | .set key _ _ => key ≠ "metrics:ingestion_rate"
  | .zincrby key _ _ => key ≠ "metrics:ingestion_rate"
  | .zadd key _ _ => key ≠ "metrics:ingestion_rate"
  | _ => true

def Call.miscounts : Call → ℕ
  | .redisWrite _ ops => if ops.all RedisOp.keepsCount then 0 else 1
  | _ => 0

section Counter

variable {r r' : Redis}

theorem Counts.of_get? (h : Counts r)
    (hget : r'.get? "metrics:ingestion_rate" = r.get? "metrics:ingestion_rate") :
    Counts r' := fun entry he => h entry (hget ▸ he)

theorem Counts.erase (h : Counts r) (key : String) : Counts (r.erase key) := by
  intro entry he
  rw [Dict.get?_erase] at he
  split at he
  · cases he
  · exact h entry he

theorem Counts.putScores (h : Counts r) {key : String}
    (hkey : key ≠ "metrics:ingestion_rate") (scores : Dict String ℤ) :
    Counts (r.putScores key scores) :=
  h.of_get? (by simp [Redis.putScores, hkey.symm])

theorem Counts.run {op : RedisOp} (h : Counts r) (hop : op.keepsCount = true)
    (hrun : r.run op = .ok r') : Counts r' := by
  cases op with
  | set key value ex =>
      have hkey : key ≠ "metrics:ingestion_rate" := of_decide_eq_true hop
      simp only [Redis.run] at hrun
      split at hrun
      · cases hrun
      · cases hrun
        exact h.of_get? (by simp [hkey.symm])
  | delete key =>
      cases hrun
      exact h.erase key
  | incrby key amount =>
      -- a counter is only ever set to a number
      have hset : ∀ n ttl, Counts (r.set key ⟨.document (.number n), ttl⟩) := by
        intro n ttl entry he
        rw [Dict.get?_set] at he
        split at he
        · cases he
          exact ⟨n, rfl⟩
        · exact h entry he
      simp only [Redis.run] at hrun
      split at hrun
      · cases hrun
        exact hset _ _
      · cases hrun
        exact hset _ _
      · cases hrun
  | expire key seconds =>
      simp only [Redis.run] at hrun
      split at hrun
      · cases hrun
        exact h
      · rename_i e hget
        split at hrun
        · cases hrun
          exact h.erase key
        · cases hrun
          intro entry he
          rw [Dict.get?_set] at he
          split at he
          · rename_i hkey
            cases he
            exact h e (hkey ▸ hget)
          · exact h entry he
  | zincrby key amount member =>
      obtain ⟨scores, -, rfl⟩ := exists_of_map_ok hrun
      exact h.putScores (of_decide_eq_true hop) _
  | zadd key member score =>
      obtain ⟨scores, -, rfl⟩ := exists_of_map_ok hrun
      exact h.putScores (of_decide_eq_true hop) _

theorem Counts.runAll {ops : List RedisOp} (h : Counts r)
    (hops : ops.all RedisOp.keepsCount = true) : Counts (r.runAll ops).2 := by
  induction ops generalizing r with
  | nil => exact h
  | cons op ops ih =>
      rw [List.all_cons, Bool.and_eq_true] at hops
      rw [Redis.runAll]
      split
      · rename_i r' hrun
        exact ih (h.run hops.1 hrun) hops.2
      · exact ih h hops.2

/-- Counting an ingestion leaves a counter. -/
theorem Counts.record {r : Redis} (h : Counts r) (n : ℤ) :
    (r.runAll [.incrby "metrics:ingestion_rate" n,
      .expire "metrics:ingestion_rate" 2]).1 = .ok () ∧
    Counts (r.runAll [.incrby "metrics:ingestion_rate" n,
      .expire "metrics:ingestion_rate" 2]).2 :=
  CountsAt.record h n 2

theorem not_counts_record {r : Redis} (h : ¬ Counts r) (n : ℤ) :
    ∃ e, (r.runAll [.incrby "metrics:ingestion_rate" n,
      .expire "metrics:ingestion_rate" 2]).1 = .error e := by
  refine ⟨.wrongType, ?_⟩
  rw [Redis.runAll, not_countsAt_incrby h]

theorem Counts.runBroken {transaction : Bool} {n : ℕ} {ops : List RedisOp}
    (h : Counts r) (hops : ops.all RedisOp.keepsCount = true) :
    Counts (r.runBroken transaction n ops) := by
  have htake : (ops.take n).all RedisOp.keepsCount = true :=
    List.all_eq_true.mpr fun op hop =>
      List.all_eq_true.mp hops op (List.mem_of_mem_take hop)
  rw [Redis.runBroken]
  split
  · split
    · exact h
    · exact h.runAll hops
  · exact h.runAll htake

/-- Only writes change Redis. -/
theorem exec_redis {i : ℕ} {c : Call} {ch : Choice} {x : c.Res} {w w' : World}
    (hc : ∀ transaction ops, c ≠ .redisWrite transaction ops)
    (he : World.exec i c ch w = some (x, w')) : w'.redis = w.redis := by
  cases c with
  | sql s =>
      have he' : w.execSql i s ch = some (x, w') := by
        cases ch <;> exact he
      rcases World.execSql_eq_some he' with
        ⟨rfl, -, -⟩ | ⟨tx, -, -, -, ⟨e, -, -, rfl⟩ | ⟨y, ws, -, -, rfl⟩⟩
      · rfl
      · rfl
      · simp
  | commit answers =>
      cases ch <;> simp only [World.exec, reduceCtorEq, Option.some.injEq,
        Prod.mk.injEq, true_and, World.execCommit] at he
      subst he
      split
      · rfl
      · split <;> rfl
  | begin =>
      cases ch <;> simp only [World.exec, reduceCtorEq] at he
      split at he <;> cases he <;> rfl
  | uuid4 =>
      cases ch <;> simp only [World.exec, reduceCtorEq] at he
      split at he <;> cases he
      rfl
  | redisWrite transaction ops => exact absurd rfl (hc transaction ops)
  | _ =>
      cases ch <;> simp only [World.exec, reduceCtorEq, Option.some.injEq,
        Prod.mk.injEq] at he
      all_goals exact he.2 ▸ rfl

theorem Counts.exec {i : ℕ} {c : Call} {ch : Choice} {x : c.Res} {w w' : World}
    (hc : c.miscounts = 0) (h : Counts w.redis)
    (he : World.exec i c ch w = some (x, w')) : Counts w'.redis := by
  by_cases hwrite : ∃ transaction ops, c = .redisWrite transaction ops
  · obtain ⟨transaction, ops, rfl⟩ := hwrite
    have hops : ops.all RedisOp.keepsCount = true := by
      by_contra hno
      simp [Call.miscounts, hno] at hc
    cases ch <;> simp only [World.exec, reduceCtorEq, Option.some.injEq,
      Prod.mk.injEq] at he
    · exact he.2 ▸ h.runAll hops
    · exact he.2 ▸ h.runBroken hops
  · simp only [not_exists] at hwrite
    rwa [exec_redis hwrite he]

theorem miscounts_eq_zero {transaction : Bool} {ops : List RedisOp}
    (h : ∀ op ∈ ops, op.keepsCount = true) :
    Call.miscounts (.redisWrite transaction ops) = 0 := by
  rw [Call.miscounts, if_pos (List.all_eq_true.mpr h)]

theorem metered_miscounts : Metered Call.miscounts 0 where
  begin := rfl
  sql := fun _ _ => rfl
  commit := fun _ => rfl
  rollback := rfl
  uuid4 := rfl
  now := rfl
  record := fun _ => rfl
  increments := fun period increments => by
    have hkey : leaderboardKey period ≠ "metrics:ingestion_rate" := by
      intro h
      have hchars : ("leaderboard:volume:" ++ period).toList =
        "metrics:ingestion_rate".toList := congrArg String.toList h
      simp at hchars
    refine miscounts_eq_zero fun op hop => ?_
    rcases List.mem_append.mp hop with hop | hop
    · obtain ⟨p, -, rfl⟩ := List.mem_map.mp hop
      exact decide_eq_true hkey
    · rw [List.mem_singleton.mp hop]
      rfl
  heartbeat := fun worker_id now => by
    have hkey : s!"worker:heartbeat:{worker_id}" ≠ "metrics:ingestion_rate" := by
      intro h
      have hhead := congrArg (fun key => key.toList.head?) h
      rw [head?_heartbeat] at hhead
      exact absurd hhead (by decide)
    refine miscounts_eq_zero fun op hop => ?_
    rw [List.mem_singleton.mp hop]
    exact decide_eq_true hkey

/-- Whatever the services did before, the counter is one. -/
theorem reach_counts {worker : Settings → Prop} {pol : ServicePolicy}
    (hspawn : ∀ i p, pol.spawn i p → ServiceProgram worker p)
    {merchants : List Merchant} {c : Config services PyError}
    (hc : Reach pol (Config.idle (World.start merchants)) c) :
    Counts c.world.redis := by
  refine @reach_free _ _ _ services Call.miscounts _
    (fun w : World => Counts w.redis) ?_ ?_ ?_ ?_ _ ?_ _ hc
  · exact fun i p hp => metered_miscounts.serviceProgram (hspawn i p hp)
  · exact fun hcost hR he => hR.exec hcost he
  · exact fun hR => hR
  · rintro (_ | key) w w' hR he
    · simp only [World.handle] at he
      split at he <;> cases he
      exact hR
    · cases he
      exact hR.erase key
  · intro entry he
    simp [World.start] at he

end Counter

end AnalyticsPipeline
