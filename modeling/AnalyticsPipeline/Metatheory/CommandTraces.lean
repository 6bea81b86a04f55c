import AnalyticsPipeline.Framework.Halting
import AnalyticsPipeline.Metatheory.SolitaryLeaderboard

/-!
# The commands Redis ran

A pipeline whose connection breaks has run the commands before the break. So
wherever a run is stopped, Redis is where the commands that it ran have brought
it, and what is at a key depends on the commands on that key alone. Of the
increments of a batch, a worker that is stopped has sent some first ones for
each period.
-/

namespace AnalyticsPipeline

open Framework

/-- The commands of a call that Redis ran. -/
def Call.ran : Call → Choice → List RedisOp
  | .redisWrite _ ops, .auto => ops
  | .redisWrite transaction ops, .fail n =>
      if transaction then if n = 0 then [] else ops else ops.take n
  | _, _ => []

/-- The commands on a key that Redis ran for some calls. -/
def ranOn (key : String) (made : List (Call × Choice)) : List RedisOp :=
  (made.flatMap fun p => p.1.ran p.2).filter (·.key = key)

section Redis

variable {r r' : Redis} {key : String}

theorem runAll_append (r : Redis) (ops ops' : List RedisOp) :
    (r.runAll (ops ++ ops')).2 = ((r.runAll ops).2.runAll ops').2 := by
  induction ops generalizing r with
  | nil => rfl
  | cons op ops ih =>
      rw [List.cons_append, Redis.runAll, Redis.runAll]
      cases r.run op with
      | ok r₁ => exact ih r₁
      | error e => exact ih r

theorem scores?_congr (h : r.get? key = r'.get? key) :
    r.scores? key = r'.scores? key := by
  rw [Redis.scores?, Redis.scores?, h]

/-- What a command makes of its key depends on what is there. -/
theorem run_congr {op : RedisOp} (h : r.get? op.key = r'.get? op.key) :
    (r.run op).map (·.get? op.key) = (r'.run op).map (·.get? op.key) := by
  have hset : ∀ e, (r.set op.key e).get? op.key = (r'.set op.key e).get? op.key :=
    fun e => by rw [Dict.get?_set, Dict.get?_set, if_pos rfl, if_pos rfl]
  have herase : (r.erase op.key).get? op.key = (r'.erase op.key).get? op.key := by
    rw [Dict.get?_erase, Dict.get?_erase, if_pos rfl, if_pos rfl]
  have hscores := scores?_congr h
  have hput : ∀ scores, (r.putScores op.key scores).get? op.key =
      (r'.putScores op.key scores).get? op.key := fun scores => by
    rw [Redis.putScores, Redis.putScores, Redis.ttl?, Redis.ttl?, h, hset]
  cases op with
  | set k value ex =>
      simp only [Redis.run]
      split
      · rfl
      · exact congrArg Except.ok (hset _)
  | delete k => exact congrArg Except.ok herase
  | incrby k amount =>
      simp only [Redis.run]
      rw [show r.get? k = r'.get? k from h]
      split
      · exact congrArg Except.ok (hset _)
      · exact congrArg Except.ok (hset _)
      · rfl
  | expire k seconds =>
      simp only [Redis.run]
      rw [show r.get? k = r'.get? k from h]
      split
      · exact congrArg Except.ok h
      · split
        · exact congrArg Except.ok herase
        · exact congrArg Except.ok (hset _)
  | zincrby k amount member =>
      simp only [Redis.run]
      rw [show r.scores? k = r'.scores? k from hscores]
      cases r'.scores? k with
      | ok scores => exact congrArg Except.ok (hput _)
      | error e => rfl
  | zadd k member score =>
      simp only [Redis.run]
      rw [show r.scores? k = r'.scores? k from hscores]
      cases r'.scores? k with
      | ok scores => exact congrArg Except.ok (hput _)
      | error e => rfl

/-- What is at a key depends on the commands on it. -/
theorem runAll_filter (h : r.get? key = r'.get? key) (ops : List RedisOp) :
    (r.runAll ops).2.get? key =
      (r'.runAll (ops.filter (·.key = key))).2.get? key := by
  induction ops generalizing r r' with
  | nil => exact h
  | cons op ops ih =>
      by_cases hkey : op.key = key
      · subst hkey
        have hop := run_congr h
        rw [List.filter_cons_of_pos (by simp), Redis.runAll, Redis.runAll]
        cases hr : r.run op with
        | ok r₁ =>
            cases hr' : r'.run op with
            | ok r₁' =>
                rw [hr, hr'] at hop
                exact ih (Except.ok.inj hop)
            | error e =>
                rw [hr, hr'] at hop
                cases hop
        | error e =>
            cases hr' : r'.run op with
            | ok r₁' =>
                rw [hr, hr'] at hop
                cases hop
            | error e' => exact ih h
      · rw [List.filter_cons_of_neg (by simpa using hkey), Redis.runAll]
        cases hr : r.run op with
        | ok r₁ => exact ih ((run_get?_of_ne hkey hr).trans h)
        | error e => exact ih h

end Redis

/-! ## Runs -/

section Runs

variable {i : ℕ} {w w' : World} {α : Type} {ok : Call → Choice → Prop}

theorem exec_ran {c : Call} {ch : Choice} {x : c.Res}
    (he : World.exec i c ch w = some (x, w')) :
    w'.redis = (w.redis.runAll (c.ran ch)).2 := by
  by_cases hwrite : ∃ transaction ops, c = .redisWrite transaction ops
  · obtain ⟨transaction, ops, rfl⟩ := hwrite
    cases ch <;> simp only [World.exec, reduceCtorEq, Option.some.injEq,
      Prod.mk.injEq] at he
    · rw [← he.2, Call.ran]
    · rw [← he.2, Call.ran]
      change w.redis.runBroken _ _ _ = _
      rw [Redis.runBroken]
      split
      · split <;> rfl
      · rfl
  · simp only [not_exists] at hwrite
    rw [exec_redis hwrite he]
    cases c with
    | redisWrite transaction ops => exact absurd rfl (hwrite _ _)
    | _ => rfl

/-- **Redis holds what the commands it ran have left.** -/
theorem halts_redis {p : Service α} {made : List (Call × Choice)}
    {x : Option (Except PyError α)}
    (h : Halts (M := services) ok i p w made x w') :
    w'.redis = (w.redis.runAll (made.flatMap fun p => p.1.ran p.2)).2 := by
  refine h.rel (R := fun made (w w' : World) =>
    w'.redis = (w.redis.runAll (made.flatMap fun p => p.1.ran p.2)).2)
    (fun _ => rfl) ?_
  intro c ch x w w₁ w' made hexec ih
  rw [ih, exec_ran hexec, List.flatMap_cons, runAll_append]

theorem halts_get? {p : Service α} {made : List (Call × Choice)}
    {x : Option (Except PyError α)}
    (h : Halts (M := services) ok i p w made x w') (key : String) :
    w'.redis.get? key = (w.redis.runAll (ranOn key made)).2.get? key := by
  rw [halts_redis h]
  exact runAll_filter rfl _

/-- A program that keeps to Redis changes nothing else, wherever it is
stopped. -/
theorem halts_quietProgram {p : Service α} {n : ℕ}
    (hp : Prog.Within Call.loud n p) (hn : n = 0) {made : List (Call × Choice)}
    {x : Option (Except PyError α)}
    (h : Halts (M := services) ok i p w made x w') :
    ∃ redis, w' = { w with redis } := by
  refine h.free (R := fun v : World => ∃ redis, v = { w with redis }) ?_ hp hn
    ⟨w.redis, rfl⟩
  rintro c ch x _ v hc ⟨redis, rfl⟩ hexec
  have hquiet : c.quiet = true := by
    by_contra hquiet
    simp [Call.loud, hquiet] at hc
  obtain ⟨redis', rfl⟩ := exec_quiet hquiet hexec
  exact ⟨redis', rfl⟩

end Runs

/-! ## Publishing -/

section Traces

variable {i : ℕ} {w : World} {key : String} {ok : Call → Choice → Prop}

theorem ranOn_append (made made' : List (Call × Choice)) :
    ranOn key (made ++ made') = ranOn key made ++ ranOn key made' := by
  rw [ranOn, List.flatMap_append, List.filter_append]
  rfl

/-- A pipeline runs some of its first commands. -/
theorem ran_first (ops : List RedisOp) (ch : Choice) :
    Call.ran (.redisWrite false ops) ch <+: ops := by
  cases ch with
  | auto => exact List.prefix_rfl
  | fail n => exact List.take_prefix n ops
  | _ => exact List.nil_prefix

theorem ranOn_write_self {ops : List RedisOp} (hops : ∀ op ∈ ops, op.key = key)
    (ch : Choice) : ranOn key [(.redisWrite false ops, ch)] =
      Call.ran (.redisWrite false ops) ch := by
  rw [ranOn, List.flatMap_singleton]
  refine List.filter_eq_self.mpr fun op hop => ?_
  exact decide_eq_true (hops op ((ran_first ops ch).subset hop))

theorem ranOn_write_of_ne {ops : List RedisOp} (hops : ∀ op ∈ ops, op.key ≠ key)
    (ch : Choice) : ranOn key [(.redisWrite false ops, ch)] = [] := by
  refine List.filter_eq_nil_iff.mpr fun op hop => ?_
  rw [List.flatMap_singleton] at hop
  rw [decide_eq_true_eq]
  exact hops op ((ran_first ops ch).subset hop)

theorem throughout_write {transaction : Bool} {ops : List RedisOp}
    {Q : List (Call × Choice) → Option (Except PyError Unit) → World → Prop}
    (hstop : Q [] none w) (h : ∀ ch w' x,
      Q [(.redisWrite transaction ops, ch)] x w') :
    Throughout (M := services) ok i (RedisRepository.write transaction ops) Q w := by
  rw [RedisRepository.write, perform_bind]
  refine throughout_call hstop fun ch x w₁ _ _ => ?_
  cases x with
  | ok _ => exact throughout_ret (h ch w₁ _) (h ch w₁ _)
  | error _ => exact throughout_ret (h ch w₁ _) (h ch w₁ _)

theorem key_incrementOps {period : String} {incs : List (String × ℤ)} :
    ∀ op ∈ incrementOps period incs, op.key = leaderboardKey period := by
  intro op hop
  rcases List.mem_append.mp hop with hop | hop
  · obtain ⟨p, -, rfl⟩ := List.mem_map.mp hop
    rfl
  · rw [List.mem_singleton.mp hop]
    rfl

/-- What is sent of the increments of several periods. -/
structure Sent (l : List (String × Dict String ℤ))
    (made : List (Call × Choice)) : Prop where
  pushed : ∀ q ∈ l, ranOn (leaderboardKey q.1) made <+:
    incrementOps q.1 q.2.entries
  others : ∀ key, (∀ q ∈ l, key ≠ leaderboardKey q.1) → ranOn key made = []

theorem Sent.nil (l : List (String × Dict String ℤ)) : Sent l [] :=
  ⟨fun _ _ => List.nil_prefix, fun _ _ => rfl⟩

/-- One more pipeline, before those of other periods. -/
theorem Sent.cons {q : String × Dict String ℤ}
    {l : List (String × Dict String ℤ)} {made : List (Call × Choice)}
    (hq : q.1 ∉ l.map Prod.fst) (h : Sent l made) (ch : Choice) :
    Sent (q :: l)
      ((.redisWrite false (incrementOps q.1 q.2.entries), ch) :: made) := by
  have hkeys : ∀ q' ∈ l, leaderboardKey q'.1 ≠ leaderboardKey q.1 :=
    fun q' hq' hkey =>
      hq (leaderboardKey_injective hkey ▸ List.mem_map_of_mem hq')
  have hself : ∀ op ∈ incrementOps q.1 q.2.entries,
      op.key = leaderboardKey q.1 := key_incrementOps
  have hother : ∀ key, key ≠ leaderboardKey q.1 →
      ranOn key ((.redisWrite false (incrementOps q.1 q.2.entries), ch) :: made) =
        ranOn key made := by
    intro key hkey
    rw [← List.singleton_append, ranOn_append, ranOn_write_of_ne, List.nil_append]
    exact fun op hop heq => hkey (heq.symm.trans (hself op hop))
  refine ⟨fun q' hq' => ?_, fun key hkey => ?_⟩
  · rcases List.mem_cons.mp hq' with rfl | hq'
    · rw [← List.singleton_append, ranOn_append, ranOn_write_self hself,
        h.others _ fun q'' hq'' => Ne.symm (hkeys q'' hq''), List.append_nil]
      exact ran_first _ ch
    · rw [hother _ (hkeys q' hq')]
      exact h.pushed q' hq'
  · rw [hother key (hkey q List.mem_cons_self)]
    exact h.others key fun q' hq' => hkey q' (.tail q hq')

theorem throughout_incrementAll : ∀ {l : List (String × Dict String ℤ)}
    {w : World}, (l.map Prod.fst).Nodup → (∀ q ∈ l, q.2.entries ≠ []) →
    Throughout (M := services) ok i
      (l.forM fun q => RedisRepository.leaderboardIncrementBatch q.1 q.2)
      (fun made _ _ => Sent l made) w
  | [], w, _, _ => throughout_ret (.nil []) (.nil [])
  | q :: l, w, hnd, hne => by
      obtain ⟨hq, hnd⟩ := List.nodup_cons.mp hnd
      refine throughout_bind ?_
      dsimp only
      rw [RedisRepository.leaderboardIncrementBatch,
        if_neg (hne q List.mem_cons_self)]
      refine throughout_write (.nil _) fun ch w₁ x => ?_
      have hone := (Sent.nil l).cons hq ch
      cases x with
      | none => exact hone
      | some x =>
          cases x with
          | error e => exact hone
          | ok _ =>
              refine Throughout.mono (fun made x w₂ h => ?_)
                (throughout_incrementAll hnd fun q' hq' => hne q' (.tail q hq'))
              exact h.cons hq ch

/-- The commands a batch with these new events means for a period. -/
def incrementsIn (period : String) (events : List RawEvent) : List RedisOp :=
  if confirmedIn period events = [] then []
  else incrementOps period (volumes (confirmedIn period events)).entries

theorem Sent.first_of_incrementsIn {events : List RawEvent}
    {made : List (Call × Choice)}
    (h : Sent (RollupWorker.periodIncrements events).entries made)
    (period : String) :
    ranOn (leaderboardKey period) made <+: incrementsIn period events := by
  have hget := get?_periodIncrements events period
  rw [incrementsIn]
  by_cases hnil : confirmedIn period events = []
  · rw [if_pos hnil] at hget ⊢
    rw [h.others _ fun q hq hkey => ?_]
    rw [leaderboardKey_injective hkey] at hget
    exact Dict.get?_eq_none_iff.mp hget (List.mem_map_of_mem hq)
  · rw [if_neg hnil] at hget ⊢
    exact h.pushed _ (Dict.get?_eq_some_iff.mp hget)

/-- **Wherever publishing is stopped**, some first commands for each period have
been run. -/
theorem throughout_publish (settings : Settings) (events : List RawEvent) :
    Throughout (M := services) ok i (RollupWorker.publish settings events)
      (fun made _ _ => ∀ period, ranOn (leaderboardKey period) made <+:
        incrementsIn period events) w := by
  have hbeat : ∀ {made : List (Call × Choice)} {w : World},
      (∀ period, ranOn (leaderboardKey period) made <+:
        incrementsIn period events) →
      Throughout (M := services) ok i
        (RedisRepository.setWorkerHeartbeat settings.worker_id)
        (fun m _ _ => ∀ period, ranOn (leaderboardKey period) (made ++ m) <+:
          incrementsIn period events) w := by
    intro made w hmade
    have hsame : ∀ m : List (Call × Choice),
        (∀ period, ranOn (leaderboardKey period) m = []) →
        ∀ period, ranOn (leaderboardKey period) (made ++ m) <+:
          incrementsIn period events := by
      intro m hm period
      rw [ranOn_append, hm, List.append_nil]
      exact hmade period
    rw [RedisRepository.setWorkerHeartbeat, perform_bind]
    refine throughout_call (hsame [] fun _ => rfl) fun ch now w₁ _ _ => ?_
    have hnow : ∀ m key, ranOn key ((.now, ch) :: m) = ranOn key m :=
      fun m key => rfl
    refine throughout_write (hsame _ fun period => rfl) fun ch' w₂ x =>
      hsame _ fun period => ?_
    rw [hnow]
    refine ranOn_write_of_ne (fun op hop => ?_) ch'
    rw [List.mem_singleton.mp hop]
    exact Ne.symm (heartbeatKey_ne settings period)
  rw [RollupWorker.publish]
  split
  · refine throughout_bind (throughout_tryCatch_pure (Throughout.mono ?_
      (throughout_incrementAll (RollupWorker.periodIncrements events).nodup_keys
        ?_)))
    · intro made x w₁ hsent
      have hran := hsent.first_of_incrementsIn
      cases x with
      | none => exact hran
      | some x => cases x <;> exact ⟨hran, hbeat hran⟩
    · exact fun q hq => entries_ne_nil_of_mem hq
  · exact @hbeat [] w fun _ => List.nil_prefix

end Traces

/-! ## Sorted sets half written -/

section Prefixes

variable {r : Redis} {period : String} {ops : List RedisOp}

/-- Some first increments: the key holds a sorted set, if anything; once all
members have been incremented, it is the one the whole pipeline leaves. -/
theorem runAll_first (hb : Boards r) {incs : List (String × ℤ)}
    (hne : incs ≠ []) (hops : ops <+: incrementOps period incs) :
    (∀ entry, (r.runAll ops).2.get? (leaderboardKey period) = some entry →
        ∃ scores, entry.value = .zset scores) ∧
      (incs.length ≤ ops.length → (r.runAll ops).2.board period =
        some (incs.foldl (fun scores p => increment p scores)
          ((r.board period).getD ∅))) := by
  rw [List.prefix_iff_eq_take] at hops
  by_cases hshort : ops.length ≤ incs.length
  · have htake : ops = (incs.take ops.length).map (fun p =>
        .zincrby (leaderboardKey period) p.2 p.1) ++ [] := by
      rwa [incrementOps, List.take_append_of_le_length (by simpa using hshort),
        ← List.map_take, ← List.append_nil (List.map _ _)] at hops
    obtain ⟨r', hall, hscored, hsome⟩ := runAll_scoring
      (scoring_increment (leaderboardKey period)) [] (incs.take ops.length)
      (hb.scores? period)
    rw [htake, hall]
    change (∀ entry, r'.get? _ = some entry → _) ∧ (_ → r'.board period = _)
    refine ⟨fun entry hentry => ⟨_, zset_of_scores? hscored.scores? hentry⟩,
      fun hlong => ?_⟩
    have hcover : incs.take ops.length = incs := by
      refine List.take_of_length_le ?_
      rw [List.append_nil, List.length_map, List.length_take] at hlong
      omega
    rw [hcover] at hscored hsome
    obtain ⟨entry, hentry⟩ := Option.isSome_iff_exists.mp (hsome (.inl hne))
    obtain ⟨value, ttl⟩ := entry
    obtain rfl : value = .zset _ := zset_of_scores? hscored.scores? hentry
    rw [Redis.board, hentry]
  · have hall : ops = incrementOps period incs := by
      rw [hops, List.take_of_length_le]
      rw [incrementOps, List.length_append, List.length_map, List.length_singleton]
      omega
    obtain ⟨-, hget, -⟩ := @runAll_incrementOps _ hb period _ hne
    rw [hall, hget]
    refine ⟨fun entry hentry => ?_, fun _ => ?_⟩
    · cases hentry
      exact ⟨_, rfl⟩
    · rw [Redis.board, hget]

end Prefixes

end AnalyticsPipeline
