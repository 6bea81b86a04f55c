import AnalyticsPipeline.Framework.Footprint
import AnalyticsPipeline.Metatheory.LeaderboardReads
import AnalyticsPipeline.Metatheory.Resources
import AnalyticsPipeline.Model.NightlyCompaction
import AnalyticsPipeline.Model.QueryService

/-!
# The calls of the services

All programs of the system draw on one list of calls: nine pipelines, two kinds
of cached documents, the statements of the repositories. An invariant that each
of them keeps is one of the system (`SystemProgram.only`).
-/

namespace AnalyticsPipeline

open Framework

/-! ## The list -/

/-- A member of a leaderboard is the text of a merchant's id. -/
def IsMember (member : String) : Prop := ∃ u : UUID, member = u.str

/-- The commands sent in one round trip; the flag tells a transaction. -/
inductive Pipeline : Bool → List RedisOp → Prop where
  | record (count : ℤ) : Pipeline true
      [.incrby "metrics:ingestion_rate" count, .expire "metrics:ingestion_rate" 2]
  | hit : Pipeline true
      [.incrby "metrics:cache_hits" 1, .expire "metrics:cache_hits" 3600]
  | miss : Pipeline true
      [.incrby "metrics:cache_misses" 1, .expire "metrics:cache_misses" 3600]
  | rebuilds : Pipeline false [.incrby "metrics:leaderboard_rebuilds" 1]
  | increments (period : String) (increments : List (String × ℤ)) :
      (∀ p ∈ increments, IsMember p.1) → Pipeline false
        ((increments.map fun p => .zincrby (leaderboardKey period) p.2 p.1) ++
          [.expire (leaderboardKey period) (48 * 3600)])
  | rebuild (period : String) (entries : List LeaderboardRow) (ttl : ℕ) :
      Pipeline true
        ([.delete (leaderboardKey period)] ++
          (entries.map fun e =>
            .zadd (leaderboardKey period) e.merchant_id.str e.volume_cents) ++
          [.expire (leaderboardKey period) ttl])
  | heartbeat (worker_id : String) (now : DateTime) : Pipeline false
      [.set s!"worker:heartbeat:{worker_id}" (.timestamp now) 60]
  | metrics (merchant_id : UUID) (start stop : AwareDateTime)
      (granularity : String) (response : MetricsResponse) (ttl : ℕ) :
      Pipeline false
        [.set (metricCacheKey merchant_id start stop granularity)
          (.document response.dump) ttl]
  | sparkline (merchant_id : UUID) (window_minutes : ℤ)
      (data : List BucketDataPoint) (ttl : ℕ) : Pipeline false
        [.set (sparklineCacheKey merchant_id window_minutes)
          (.document (.array (data.map BucketDataPoint.dump))) ttl]

inductive CacheKey : String → Prop where
  | metrics (merchant_id : UUID) (start stop : AwareDateTime)
      (granularity : String) :
      CacheKey (metricCacheKey merchant_id start stop granularity)
  | sparkline (merchant_id : UUID) (window_minutes : ℤ) :
      CacheKey (sparklineCacheKey merchant_id window_minutes)

/-- A call of the system, its statements being `stmt`. -/
inductive Served (stmt : Stmt → Prop) : Call → Prop where
  | begin : Served stmt .begin
  | sql {s : Stmt} : stmt s → Served stmt (.sql s)
  | commit (answers : Answers) : Served stmt (.commit answers)
  | rollback : Served stmt .rollback
  | uuid4 : Served stmt .uuid4
  | now : Served stmt .now
  | monotonic : Served stmt .monotonic
  | get {key : String} : CacheKey key → Served stmt (.redisGet key)
  | live (period : String) : Served stmt (.redisExists (leaderboardKey period))
  | range (period : String) (start : ℕ) (stop : ℤ) :
      Served stmt (.redisRange (leaderboardKey period) start stop)
  | write {transaction : Bool} {ops : List RedisOp} : Pipeline transaction ops →
      Served stmt (.redisWrite transaction ops)

/-- The statement lowers no count of a rollup row. -/
def Stmt.Grows : Stmt → Prop
  | upsertRollup _ values => ∀ v ∈ values, 0 ≤ v.2.count
  | upsertRollupRow _ _ count_delta _ => 0 ≤ count_delta
  | overwriteDayRow _ => False
  | _ => True

/-- The statement writes no events. -/
def Stmt.Silent : Stmt → Prop
  | insertIdempotency _ | insertRawEvents _ => False
  | _ => True

/-- A statement of the query service. -/
def Stmt.queries : Stmt → Bool
  | selectBuckets _ _ _ _ | selectOutcomes _ _ _ | selectSparkline _ _
  | selectLeaderboard _ _ _ | selectHistory _ _ => true
  | _ => false

theorem Stmt.grows_of_queries {s : Stmt} (h : s.queries = true) : s.Grows := by
  cases s <;> simp_all [Stmt.queries, Stmt.Grows]

theorem Stmt.silent_of_queries {s : Stmt} (h : s.queries = true) : s.Silent := by
  cases s <;> simp_all [Stmt.queries, Stmt.Silent]

theorem Served.mono {stmt stmt' : Stmt → Prop} (h : ∀ s, stmt s → stmt' s)
    {c : Call} (hc : Served stmt c) : Served stmt' c := by
  cases hc with
  | sql hs => exact .sql (h _ hs)
  | begin => exact .begin
  | commit answers => exact .commit answers
  | rollback => exact .rollback
  | uuid4 => exact .uuid4
  | now => exact .now
  | monotonic => exact .monotonic
  | get hkey => exact .get hkey
  | live period => exact .live period
  | range period start stop => exact .range period start stop
  | write hops => exact .write hops

/-! ## Its programs -/

/-- The programs of all sessions: requests, batches and, with leave to compact,
the nightly job. -/
inductive SystemProgram (worker : Settings → Prop) (compacts : Prop) :
    Service Unit → Prop where
  | service {p : Service Unit} : ServiceProgram worker p →
      SystemProgram worker compacts p
  | metrics (settings : Settings) (merchant_id : UUID)
      (start stop : AwareDateTime) : SystemProgram worker compacts
        (metricsRequest settings merchant_id start stop >>= fun _ => pure ())
  | sparkline (settings : Settings) (merchant_id : UUID) (window_minutes : ℤ) :
      SystemProgram worker compacts
        (sparklineRequest settings merchant_id window_minutes >>=
          fun _ => pure ())
  | leaderboard (settings : Settings) (period : Option String)
      (top_n : Option ℕ) : SystemProgram worker compacts
        (leaderboardRequest settings period top_n >>= fun _ => pure ())
  | history (period : String) (limit : ℕ) : SystemProgram worker compacts
      (leaderboardHistoryRequest period limit >>= fun _ => pure ())
  | compaction (target_date : DateTime) : compacts →
      SystemProgram worker compacts
        (NightlyCompaction.runCompaction target_date >>= fun _ => pure ())

section Only

variable {α β : Type} {P : Call → Prop} {stmt : Stmt → Prop}

open Prog (Only)

/-! ### Shapes -/

theorem only_execute {s : Stmt} (h : P (.sql s)) : Only P (execute s) := by
  rw [execute_eq]
  refine .call h fun x => ?_
  cases x <;> exact .ret

theorem only_redisResult (x : Except RedisError β) :
    Only P (redisResult x) := by
  cases x <;> exact .ret

theorem only_raising (x : Except PyError β) : Only P (raising x) := by
  cases x <;> exact .ret

theorem only_write {transaction : Bool} {ops : List RedisOp}
    (h : P (.redisWrite transaction ops)) :
    Only P (RedisRepository.write transaction ops) :=
  .call h fun x => only_redisResult x

theorem only_forM {f : β → Service Unit} :
    ∀ {l : List β}, (∀ b ∈ l, Only P (f b)) → Only P (l.forM f)
  | [], _ => .ret
  | b :: _, hf => (hf b List.mem_cons_self).bind fun _ =>
      only_forM fun b' hb' => hf b' (.tail b hb')

theorem only_mapM {f : β → Service α} (hf : ∀ b, Only P (f b)) :
    ∀ l : List β, Only P (l.mapM f)
  | [] => .ret
  | b :: l => by
      rw [List.mapM_cons]
      exact (hf b).bind fun _ => (only_mapM hf l).bind fun _ => .ret

theorem only_sessionScope (hbegin : P .begin) (hrollback : P .rollback)
    {body : Service α} (h : Only P body) : Only P (sessionScope body) := by
  have hleave : ∀ r : Except PyError α,
      Only P (.call .rollback fun _ => .ret r : Service α) :=
    fun r => .call hrollback fun _ => .ret
  refine .call hbegin fun _ => ?_
  exact (h.tryCatch fun e => hleave (.error e)).bind fun x => hleave (.ok x)

/-- A request within its session. -/
theorem only_request {body : Service α} {answers : α → Answers}
    (h : Only (Served stmt) body) : Only (Served stmt)
      (tryCatch (body >>= fun x => perform (.commit (answers x)) >>= fun _ => pure x)
        fun e => perform .rollback >>= fun _ => throw e) := by
  refine Only.tryCatch (h.bind fun x => ?_) fun e => ?_
  · exact .call (.commit _) fun _ => .ret
  · exact .call .rollback fun _ => .ret

theorem only_getDb {body : Service α} {answers : α → Answers}
    (h : Only (Served stmt) body) : Only (Served stmt) (getDb answers body) :=
  only_sessionScope .begin .rollback (only_request h)

/-! ### Ingestion -/

/-- Calls of the kind are free, all others are not. -/
noncomputable def price (P : Call → Prop) (c : Call) : ℕ :=
  open Classical in if P c then 0 else 1

theorem price_eq_zero_iff {c : Call} : price P c = 0 ↔ P c := by
  rw [price]
  split <;> simp_all

/-- A program that costs nothing makes only such calls. -/
theorem only_of_within {n : ℕ} {p : Service α} (hp : Prog.Within (price P) n p)
    (hn : n = 0) : Only P p := by
  induction hp with
  | ret => exact .ret
  | call _ ih =>
      obtain ⟨rfl, hc⟩ := Nat.add_eq_zero_iff.mp hn
      exact .call (price_eq_zero_iff.mp hc) fun x => ih x rfl

theorem ingestCosts_price (h : ∀ s : Stmt, s.ingests = true → stmt s) :
    IngestCosts (price (Served stmt)) 0 where
  begin := price_eq_zero_iff.mpr .begin
  statement := fun s hs => price_eq_zero_iff.mpr (.sql (h s hs))
  commit := fun answers => price_eq_zero_iff.mpr (.commit answers)
  rollback := price_eq_zero_iff.mpr .rollback
  uuid4 := price_eq_zero_iff.mpr .uuid4
  now := price_eq_zero_iff.mpr .now
  record := fun n => price_eq_zero_iff.mpr (.write (.record n))

theorem only_ingestEventRequest (h : ∀ s : Stmt, s.ingests = true → stmt s)
    (payload : EventIngest) :
    Only (Served stmt) (ingestEventRequest payload) :=
  only_of_within ((ingestCosts_price h).ingestEventRequest payload) rfl

theorem only_ingestBatchRequest (h : ∀ s : Stmt, s.ingests = true → stmt s)
    (payload : BatchEventIngest) :
    Only (Served stmt) (ingestBatchRequest payload) :=
  only_of_within ((ingestCosts_price h).ingestBatchRequest payload) (by simp)

theorem Stmt.grows_of_ingests {s : Stmt} (h : s.ingests = true) : s.Grows := by
  cases s <;> simp_all [Stmt.ingests, Stmt.Grows]

/-! ### The worker -/

theorem row_count_nonneg (g : RollupGranularity) (events : List RawEvent) :
    ∀ v ∈ (aggregateBy g events).values, 0 ≤ v.2.count := by
  intro v hv
  obtain ⟨⟨k, a⟩, hmem, rfl⟩ := List.mem_map.mp hv
  have hget := Dict.get?_eq_some_iff.mpr hmem
  have hrow := row_aggregateBy g k events
  rw [hget, Option.map_some] at hrow
  have hne : amountsAt g k events ≠ [] := by
    intro hnil
    rw [Summary.collect_eq_none_iff.mpr hnil] at hrow
    cases hrow
  rw [Summary.collect_of_ne_nil hne] at hrow
  show 0 ≤ a.row.count
  rw [Option.some.inj hrow, Summary.ofList_count]
  exact Int.natCast_nonneg _

theorem only_batchUpsert (g : RollupGranularity) (events : List RawEvent) :
    Only (Served Stmt.Grows)
      (RollupRepository.batchUpsert g (aggregateBy g events)) := by
  rw [RollupRepository.batchUpsert]
  split
  · exact .ret
  · exact only_execute (.sql (row_count_nonneg g events))

theorem only_upsertDeltas (events : List RawEvent) :
    Only (Served Stmt.Grows) (RollupWorker.upsertDeltas events) := by
  rw [RollupWorker.upsertDeltas]
  split
  · exact .ret
  · rw [aggregateBatch_eq]
    exact (only_batchUpsert .minute events).bind fun _ =>
      (only_batchUpsert .hour events).bind fun _ => only_batchUpsert .day events

theorem only_batchTransaction (settings : Settings) :
    Only (Served Stmt.Grows) (RollupWorker.batchTransaction settings) := by
  refine (only_execute (.sql trivial)).bind fun offset => ?_
  refine (only_execute (.sql trivial)).bind fun events => ?_
  dsimp only
  split
  · exact .ret
  · refine (only_execute (.sql trivial)).bind fun new_ids => ?_
    refine (only_upsertDeltas _).bind fun _ => ?_
    refine (only_execute (.sql trivial)).bind fun _ => ?_
    exact .call (.commit _) fun _ => .ret

theorem isMember_of_mem_volumes {events : List RawEvent} {q : String × ℤ}
    (hq : q ∈ (volumes events).entries) : IsMember q.1 := by
  have hget := Dict.get?_eq_some_iff.mpr hq
  rw [get?_volumes] at hget
  split at hget
  · cases hget
  · rename_i hne
    obtain ⟨e, he⟩ := List.exists_mem_of_ne_nil _ hne
    obtain ⟨e, he, -⟩ := List.mem_map.mp he
    exact ⟨e.merchant_id, (of_decide_eq_true (List.mem_filter.mp he).2).symm⟩

theorem only_updateLeaderboard (events : List RawEvent) :
    Only (Served stmt) (RollupWorker.updateLeaderboard events) := by
  refine Only.tryCatch (only_forM fun p hp => ?_) fun _ => .ret
  obtain ⟨-, hvolumes⟩ := of_mem_periodIncrements hp
  rw [RedisRepository.leaderboardIncrementBatch, hvolumes]
  split
  · exact .ret
  · exact only_write
      (.write (.increments p.1 _ fun q hq => isMember_of_mem_volumes hq))

theorem only_publish (settings : Settings) (events : List RawEvent) :
    Only (Served stmt) (RollupWorker.publish settings events) := by
  have hbeat : Only (Served stmt)
      (RedisRepository.setWorkerHeartbeat settings.worker_id) :=
    .call .now fun now => only_write (.write (.heartbeat settings.worker_id now))
  rw [RollupWorker.publish]
  split
  · exact (only_updateLeaderboard events).bind fun _ => hbeat
  · exact hbeat

theorem only_processBatch (settings : Settings) :
    Only (Served Stmt.Grows) (RollupWorker.processBatch settings) := by
  refine (only_sessionScope .begin .rollback
    (only_batchTransaction settings)).bind fun batch => ?_
  cases batch with
  | none => exact .ret
  | some p => exact (only_publish settings p.2).bind fun _ => .ret

/-! ### Queries -/

theorem only_latencyMs (t₀ : ℚ) :
    Only (Served stmt) (QueryService.latencyMs t₀) :=
  .call .monotonic fun _ => .ret

theorem only_cacheGet {key : String} (h : CacheKey key) :
    Only (Served stmt) (RedisRepository.cacheGet key) :=
  .call (.get h) fun x => only_redisResult x

theorem only_queryRows (h : ∀ s : Stmt, s.queries = true → stmt s)
    (g : RollupGranularity) (m : UUID)
    (start stop : AwareDateTime) :
    Only (Served stmt) (QueryService.queryRows g m start stop) := by
  cases g <;> exact only_execute (.sql (h _ rfl))

theorem only_computedMetrics (h : ∀ s : Stmt, s.queries = true → stmt s)
    (settings : Settings) (t₀ : ℚ) (m : UUID)
    (start stop : AwareDateTime) :
    Only (Served stmt)
      (QueryService.computedMetrics settings t₀ m start stop) := by
  rw [QueryService.computedMetrics]
  refine (only_write (.write .miss)).bind fun _ => ?_
  refine (only_queryRows h _ m start stop).bind fun rows => ?_
  refine Only.bind ((only_execute (.sql (h _ rfl))).bind fun _ => .ret)
    fun success_rate => ?_
  refine (only_latencyMs t₀).bind fun latency => ?_
  exact (only_write (.write (.metrics m start stop _ _ _))).bind fun _ => .ret

theorem only_getMerchantMetrics (h : ∀ s : Stmt, s.queries = true → stmt s)
    (settings : Settings) (m : UUID)
    (start stop : AwareDateTime) :
    Only (Served stmt)
      (QueryService.getMerchantMetrics settings m start stop) := by
  rw [QueryService.getMerchantMetrics]
  refine .call .monotonic fun t₀ => ?_
  refine (only_cacheGet (.metrics m start stop _)).bind fun cached => ?_
  split
  · refine (only_write (.write .hit)).bind fun _ => ?_
    exact (only_latencyMs t₀).bind fun latency => only_raising _
  · exact only_computedMetrics h settings t₀ m start stop

theorem only_getSparkline (h : ∀ s : Stmt, s.queries = true → stmt s)
    (settings : Settings) (m : UUID) (window : ℤ) :
    Only (Served stmt) (QueryService.getSparkline settings m window) := by
  rw [QueryService.getSparkline]
  refine (only_cacheGet (.sparkline m window)).bind fun cached => ?_
  split
  · refine (only_write (.write .hit)).bind fun _ => ?_
    exact (only_raising _).bind fun _ => .ret
  · refine (only_write (.write .miss)).bind fun _ => ?_
    refine (only_execute (.sql (h _ rfl))).bind fun rows => ?_
    exact (only_write (.write (.sparkline m window _ _))).bind fun _ => .ret

theorem only_leaderboardEntries (h : ∀ s : Stmt, s.queries = true → stmt s)
    (settings : Settings) (period_key : String)
    (period_start period_end : DateTime) (n : ℕ) :
    Only (Served stmt) (QueryService.leaderboardEntries settings
      period_key period_start period_end n) := by
  rw [QueryService.leaderboardEntries]
  refine Only.bind (.call (.live period_key) fun x => only_redisResult x)
    fun live => ?_
  split
  · refine Only.bind (.call (.range period_key 0 _) fun x => only_redisResult x)
      fun raw => ?_
    exact (only_raising _).bind fun _ => .ret
  · refine (only_write (.write .rebuilds)).bind fun _ => ?_
    refine (only_execute (.sql (h _ rfl))).bind fun rows => ?_
    split
    · exact .ret
    · exact (only_write (.write (.rebuild period_key rows _))).bind fun _ => .ret

theorem only_getLeaderboard (h : ∀ s : Stmt, s.queries = true → stmt s)
    (settings : Settings) (period : Option String)
    (top_n : Option ℕ) :
    Only (Served stmt)
      (QueryService.getLeaderboard settings period top_n) := by
  rw [getLeaderboard_eq, perform_bind]
  refine .call .now fun now => ?_
  split
  · exact .ret
  · exact (only_leaderboardEntries h settings _ _ _ _).bind fun _ => .ret

theorem only_getLeaderboardHistory (h : ∀ s : Stmt, s.queries = true → stmt s)
    (period : String) (limit : ℕ) :
    Only (Served stmt)
      (QueryService.getLeaderboardHistory QueryService.init period limit) := by
  have hraise : Only (Served stmt)
      (QueryService.getattr QueryService.init "_session") := by
    rw [QueryService.getattr]
    split <;> exact .ret
  rw [QueryService.getLeaderboardHistory]
  refine hraise.bind fun session => ?_
  refine Only.bind ?_ fun rows => ?_
  · cases session with
    | asyncSession => exact only_execute (.sql (h _ rfl))
    | rollupRepository => exact .ret
    | redisRepository => exact .ret
  · refine (only_mapM (fun p => ?_) _).bind fun snapshots => ?_
    · rw [QueryService.snapshotResponse]
      refine (only_raising _).bind fun period_end => ?_
      split
      · exact .ret
      · exact .call .now fun _ => .ret
    · split <;> exact .ret

/-! ### The nightly job -/

/-- The nightly job within its connection. -/
theorem runCompaction_scope (target_date : DateTime) :
    ∃ body, NightlyCompaction.runCompaction target_date = sessionScope body ∧
      Only (Served Stmt.Silent) body := by
  refine ⟨_, rfl, ?_⟩
  dsimp only
  split
  · exact .ret
  · refine Only.bind ?_ fun discrepancies => Only.bind ?_ fun count =>
      .call (.commit _) fun _ => .ret
    · refine (only_execute (.sql trivial)).bind fun rows => ?_
      refine Only.bind (only_forM fun _ _ => only_execute (.sql trivial))
        fun _ => ?_
      exact only_execute (.sql trivial)
    · refine (only_execute (.sql trivial)).bind fun rows => ?_
      refine Only.bind (only_forM fun row _ => ?_) fun _ => .ret
      exact .call .uuid4 fun id => only_execute (.sql trivial)

/-! ### All of them -/

/-- **The calls of the system.** Without compaction they only add. -/
theorem SystemProgram.only {worker : Settings → Prop} {compacts : Prop}
    (hstmt : ∀ s : Stmt, s.Grows → stmt s) (hall : compacts → ∀ s, stmt s)
    {p : Service Unit} (h : SystemProgram worker compacts p) :
    Only (Served stmt) p := by
  have hgrows : ∀ {α : Type} {q : Service α}, Only (Served Stmt.Grows) q →
      Only (Served stmt) (q >>= fun _ => pure ()) := fun hq =>
    (hq.mono fun _ => Served.mono hstmt).bind fun _ => .ret
  have hingests : ∀ s : Stmt, s.ingests = true → s.Grows :=
    fun _ => Stmt.grows_of_ingests
  have hqueries : ∀ s : Stmt, s.queries = true → s.Grows :=
    fun _ => Stmt.grows_of_queries
  cases h with
  | service hp =>
      cases hp with
      | processBatch settings _ => exact hgrows (only_processBatch settings)
      | ingestEvent payload => exact hgrows (only_ingestEventRequest hingests payload)
      | ingestBatch payload => exact hgrows (only_ingestBatchRequest hingests payload)
  | metrics settings m start stop =>
      exact hgrows (only_getDb (only_getMerchantMetrics hqueries settings m start stop))
  | sparkline settings m window =>
      exact hgrows (only_getDb (only_getSparkline hqueries settings m window))
  | leaderboard settings period top_n =>
      exact hgrows (only_getDb (only_getLeaderboard hqueries settings period top_n))
  | history period limit =>
      exact hgrows (only_getDb (only_getLeaderboardHistory hqueries period limit))
  | compaction date hc =>
      obtain ⟨body, hbody, honly⟩ := runCompaction_scope date
      have hserved : Only (Served stmt) body :=
        honly.mono fun _ => Served.mono fun s _ => hall hc s
      rw [hbody]
      exact (only_sessionScope .begin .rollback hserved).bind fun _ => .ret

/-- **Who writes events**: the services; all other sessions are silent. -/
theorem SystemProgram.service_or_silent {worker : Settings → Prop}
    {compacts : Prop} {p : Service Unit} (h : SystemProgram worker compacts p) :
    ServiceProgram worker p ∨ ∃ (α : Type) (body : Service α),
      p = (sessionScope body >>= fun _ => pure ()) ∧
        Only (Served Stmt.Silent) body := by
  have hqueries : ∀ s : Stmt, s.queries = true → s.Silent :=
    fun _ => Stmt.silent_of_queries
  cases h with
  | service hp => exact .inl hp
  | metrics settings m start stop =>
      exact .inr ⟨_, _, rfl,
        only_request (only_getMerchantMetrics hqueries settings m start stop)⟩
  | sparkline settings m window =>
      exact .inr ⟨_, _, rfl, only_request (only_getSparkline hqueries settings m window)⟩
  | leaderboard settings period top_n =>
      exact .inr ⟨_, _, rfl,
        only_request (only_getLeaderboard hqueries settings period top_n)⟩
  | history period limit =>
      exact .inr ⟨_, _, rfl,
        only_request (only_getLeaderboardHistory hqueries period limit)⟩
  | compaction date _ =>
      obtain ⟨body, hbody, honly⟩ := runCompaction_scope date
      exact .inr ⟨_, body, by rw [hbody], honly⟩

end Only

end AnalyticsPipeline
