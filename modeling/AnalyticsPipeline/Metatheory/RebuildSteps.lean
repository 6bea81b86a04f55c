import AnalyticsPipeline.Metatheory.LeaderboardReads

/-!
# What is left of a request and of a batch

The calls of a request that matter to a leaderboard, in the order in which they
come, and those of a batch once it has committed. Each predicate follows a
program call by call, so it can be asked of a session in the middle of its run.
-/

namespace AnalyticsPipeline

open Framework

/-- The command is about neither a leaderboard nor a metric. -/
def RedisOp.aside (op : RedisOp) : Bool :=
  op.key.toList.head? ≠ some 'l' ∧ op.key.toList.head? ≠ some 'm'

/-- Calls that could change a leaderboard or read one, or disturb the count of
rebuilds. -/
def Call.meddles (commit : ℕ) : Call → ℕ
  | .sql _ | .redisExists _ => 1
  | .commit _ => commit
  | .redisWrite _ ops => if ops.all RedisOp.aside then 0 else 1
  | _ => 0

/-- Where a request for a leaderboard is. -/
inductive Reading where
  | closed | fresh | missing | cold
  | loaded (rows : List LeaderboardRow)
  | finished

/-- What is left of a request, from each point on. -/
inductive Rereads (settings : Settings) (period : String) (start stop : DateTime)
    (n : ℕ) {α : Type} : Reading → Service α → Prop where
  | enter {k : Unit → Service α} :
      Rereads settings period start stop n .fresh (k ()) →
      Rereads settings period start stop n .closed (.call .begin k)
  | now {k : DateTime → Service α} :
      (∀ t, Rereads settings period start stop n .fresh (k t)) →
      Rereads settings period start stop n .fresh (.call .now k)
  | check {k : Except RedisError Bool → Service α} :
      Rereads settings period start stop n .finished (k (.ok true)) →
      Rereads settings period start stop n .missing (k (.ok false)) →
      Rereads settings period start stop n .fresh
        (.call (.redisExists (leaderboardKey period)) k)
  | count {k : Except RedisError Unit → Service α} :
      Rereads settings period start stop n .cold (k (.ok ())) →
      Rereads settings period start stop n .missing
        (.call (.redisWrite false [.incrby rebuildsKey 1]) k)
  | load {k : Except DbError (List LeaderboardRow) → Service α} :
      Rereads settings period start stop n .finished (k (.ok [])) →
      (∀ rows, rows ≠ [] →
        Rereads settings period start stop n (.loaded rows) (k (.ok rows))) →
      Rereads settings period start stop n .cold
        (.call (.sql (.selectLeaderboard start.micros stop.micros n)) k)
  | store {rows : List LeaderboardRow} {k : Except RedisError Unit → Service α} :
      Rereads settings period start stop n .finished (k (.ok ())) →
      Rereads settings period start stop n (.loaded rows)
        (.call (.redisWrite true
          (rebuildOps period settings.leaderboard_rebuild_ttl rows)) k)
  | finished {p : Service α} : Prog.Within (Call.meddles 0) 0 p →
      Rereads settings period start stop n .finished p

/-- What is left of a batch that has committed: the increments of some periods. -/
inductive Pushes {α : Type} :
    List (String × Dict String ℤ) → Service α → Prop where
  | push {q : String × Dict String ℤ} {l : List (String × Dict String ℤ)}
      {k : Except RedisError Unit → Service α} : Pushes l (k (.ok ())) →
      Pushes (q :: l) (.call (.redisWrite false (incrementOps q.1 q.2.entries)) k)
  | finished {p : Service α} : Prog.Within (Call.meddles 1) 0 p → Pushes [] p

section Rereads

variable {α β : Type} {settings : Settings} {period : String}
  {start stop : DateTime} {n : ℕ} {s : Reading} {p : Service α}

theorem Rereads.bind {f : α → Service β}
    (h : Rereads settings period start stop n s p)
    (hf : ∀ a, Prog.Within (Call.meddles 0) 0 (f a)) :
    Rereads settings period start stop n s (p >>= f) := by
  induction h with
  | enter _ ih => exact .enter ih
  | now _ ih => exact .now ih
  | check _ _ ih ih' => exact .check ih ih'
  | count _ ih => exact .count ih
  | load _ _ ih ih' => exact .load ih ih'
  | store _ ih => exact .store ih
  | finished hp => exact .finished (Prog.Within.bind (m := 0) (n := 0) hp hf)

theorem Rereads.tryCatch {handler : PyError → Service α}
    (h : Rereads settings period start stop n s p)
    (hh : ∀ e, Prog.Within (Call.meddles 0) 0 (handler e)) :
    Rereads settings period start stop n s (tryCatch p handler) := by
  induction h with
  | enter _ ih => exact .enter ih
  | now _ ih => exact .now ih
  | check _ _ ih ih' => exact .check ih ih'
  | count _ ih => exact .count ih
  | load _ _ ih ih' => exact .load ih ih'
  | store _ ih => exact .store ih
  | finished hp => exact .finished (Prog.Within.tryCatch (m := 0) (n := 0) hp hh)

theorem rereads_leaderboardEntries :
    Rereads settings period start stop n .fresh
      (QueryService.leaderboardEntries settings period start stop n) := by
  refine .check (.finished ?_) (.count (.load (.finished .ret) fun rows hrows => ?_))
  · change Prog.Within _ 0 (RedisRepository.leaderboardTopN period n >>= fun raw =>
      raising (QueryService.redisEntries raw) >>= fun entries =>
        pure (entries, "redis"))
    refine Prog.Within.bind (m := 0) (n := 0) (.free rfl within_redisResult)
      fun raw => Prog.Within.bind (m := 0) (n := 0) ?_ fun _ => .ret
    unfold raising
    split <;> exact .ret
  · have hstore : Rereads settings period start stop n (.loaded rows)
        (RedisRepository.leaderboardRebuild settings period rows) :=
      .store (.finished .ret)
    have hrest := hstore.bind fun _ => Prog.Within.ret
      (r := .ok (QueryService.rollupEntries rows, "rollup_day"))
    cases rows with
    | nil => exact absurd rfl hrows
    | cons row rows => exact hrest

theorem Rereads.getDb {answers : α → Answers}
    (h : Rereads settings period start stop n .fresh p) :
    Rereads settings period start stop n .closed (getDb answers p) := by
  have hrollback : ∀ r : Except PyError α, Prog.Within (Call.meddles 0) 0
      (.call .rollback fun _ => .ret r : Service α) :=
    fun r => .free rfl fun _ => .ret
  have hcommit : Rereads settings period start stop n .fresh
      (p >>= fun x => perform (.commit (answers x)) >>= fun _ => pure x) :=
    h.bind fun x => .free rfl fun _ => .ret
  rw [AnalyticsPipeline.getDb, sessionScope, perform_bind]
  exact .enter (((hcommit.tryCatch fun e => hrollback (.error e)).tryCatch
    fun e => hrollback (.error e)).bind fun x => hrollback (.ok x))

/-- **A request** goes through its points in order. -/
theorem rereads_leaderboardRequest {top_n : Option ℕ} {year month : ℕ}
    (hparse : parsePeriod period = some (year, month))
    (hbounds : MonthBounds year month start stop) :
    Rereads settings period start stop (pageSize settings top_n) .closed
      (leaderboardRequest settings (some period) top_n) := by
  have hbody : Rereads settings period start stop (pageSize settings top_n) .fresh
      (QueryService.getLeaderboard settings (some period) top_n) := by
    unfold QueryService.getLeaderboard
    rw [perform_bind]
    refine .now fun t => ?_
    simp only [filter_period hparse, hparse, Option.bind_some,
      periodBounds_eq_some_iff.mpr hbounds]
    exact rereads_leaderboardEntries.bind fun _ => .ret
  exact hbody.getDb

end Rereads

section Pushes

variable {α β : Type} {l : List (String × Dict String ℤ)} {p : Service α}

theorem Pushes.bind {f : α → Service β} (h : Pushes l p)
    (hf : ∀ a, Prog.Within (Call.meddles 1) 0 (f a)) : Pushes l (p >>= f) := by
  induction h with
  | push _ ih => exact .push ih
  | finished hp => exact .finished (Prog.Within.bind (m := 0) (n := 0) hp hf)

theorem Pushes.tryCatch {handler : PyError → Service α} (h : Pushes l p)
    (hh : ∀ e, Prog.Within (Call.meddles 1) 0 (handler e)) :
    Pushes l (tryCatch p handler) := by
  induction h with
  | push _ ih => exact .push ih
  | finished hp => exact .finished (Prog.Within.tryCatch (m := 0) (n := 0) hp hh)

theorem pushes_incrementAll : ∀ {l : List (String × Dict String ℤ)},
    (∀ q ∈ l, q.2.entries ≠ []) → Pushes l
      (l.forM fun q => RedisRepository.leaderboardIncrementBatch q.1 q.2)
  | [], _ => .finished .ret
  | q :: l, hne => by
      have hrest := pushes_incrementAll fun q' hq' => hne q' (.tail q hq')
      change Pushes _ (RedisRepository.leaderboardIncrementBatch q.1 q.2 >>=
        fun _ => _)
      rw [RedisRepository.leaderboardIncrementBatch,
        if_neg (hne q List.mem_cons_self)]
      exact .push hrest

theorem within_heartbeat (worker_id : String) : Prog.Within (Call.meddles 1) 0
    (RedisRepository.setWorkerHeartbeat worker_id) := by
  refine .free rfl fun now => within_write ?_
  rw [Call.meddles, if_pos]
  refine List.all_eq_true.mpr fun op hop => ?_
  rw [List.mem_singleton.mp hop, RedisOp.aside, RedisOp.key, head?_heartbeat]
  decide

/-- **After its commit** a batch adds its payments to the periods, once each. -/
theorem pushes_publish (settings : Settings) (new : List RawEvent) :
    Pushes (RollupWorker.periodIncrements new).entries
      (RollupWorker.publish settings new) := by
  unfold RollupWorker.publish
  split
  · refine Pushes.bind (Pushes.tryCatch (pushes_incrementAll ?_) fun _ => .ret)
      fun _ => within_heartbeat _
    exact fun q hq => entries_ne_nil_of_mem hq
  · rename_i hnew
    rw [not_not.mp hnew]
    exact .finished (within_heartbeat _)

end Pushes

/-- Commits, and what is written to Redis. -/
def Call.publishes : Call → ℕ
  | .commit _ => 1
  | .redisWrite _ _ => 2
  | _ => 0

/-- Up to its end the transaction of a batch commits once and leaves Redis
alone. -/
theorem within_batchScope (settings : Settings) :
    Prog.Within Call.publishes 1
      (sessionScope (RollupWorker.batchTransaction settings)) :=
  within_sessionScope rfl rfl (within_batchTransaction (fun _ _ => rfl) settings)

end AnalyticsPipeline
