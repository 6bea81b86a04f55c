import AnalyticsPipeline.Metatheory.RebuildRace

/-!
# The reader in the race

One lemma for each point at which a request for the leaderboard can be: what its
next call finds in Redis or in the tables, and where it leads.
-/

namespace AnalyticsPipeline

open Framework

namespace RebuildRace

section ReaderSteps

variable {R : RebuildRace} {g : List CacheStep} {rows : List LeaderboardRow}
  {new : List RawEvent} {w w' : World} {ch : Choice}

/-- Where a call of the reader leads. -/
def Reads (R : RebuildRace) (new : List RawEvent) (w' : World) (g' : List CacheStep)
    (p : Service Unit) : Prop :=
  ∃ rows', (∃ s, R.Reader w' g' rows' s p) ∧ R.Stored w'.redis g' rows' new

theorem Reader.enter {k : Unit → Service Unit} {x : Unit}
    (h : R.Reader w g rows .closed (.call .begin k))
    (hst : R.Stored w.redis g rows new)
    (hk : Rereads R.reader R.period R.start R.stop R.size .fresh (k ()))
    (he : World.exec R.i .begin ch w = some (x, w')) : R.Reads new w' g (k x) := by
  cases ch <;> simp only [World.exec, reduceCtorEq] at he
  rename_i t
  have hidle : w.txs.get? R.i = none := h.tx
  rw [hidle] at he
  cases he
  refine ⟨rows, ⟨.fresh, hk, ⟨t, ?_⟩, h.steps⟩, hst⟩
  rw [World.get?_setTx, if_pos rfl]

theorem Reader.now {k : DateTime → Service Unit} {x : DateTime}
    (h : R.Reader w g rows .fresh (.call .now k))
    (hst : R.Stored w.redis g rows new)
    (hk : ∀ t, Rereads R.reader R.period R.start R.stop R.size .fresh (k t))
    (he : World.exec R.i .now ch w = some (x, w')) : R.Reads new w' g (k x) := by
  cases ch <;> simp only [World.exec, reduceCtorEq] at he
  cases he
  exact ⟨rows, ⟨.fresh, hk _, h.tx, h.steps⟩, hst⟩

/-- The key is there exactly when something has been pushed. -/
theorem Stored.isSome_iff (hst : R.Stored w.redis g rows new)
    (hstore : .store ∉ g) :
    (w.redis.get? (leaderboardKey R.period)).isSome = true ↔ .push ∈ g := by
  rw [← hst.boards.board_isSome, hst.board]
  exact cacheAfter_isSome_iff hstore

theorem Reader.check {k : Except RedisError Bool → Service Unit}
    {x : Except RedisError Bool}
    (h : R.Reader w g rows .fresh
      (.call (.redisExists (leaderboardKey R.period)) k))
    (hst : R.Stored w.redis g rows new)
    (hhit : Rereads R.reader R.period R.start R.stop R.size .finished
      (k (.ok true)))
    (hmiss : Rereads R.reader R.period R.start R.stop R.size .missing
      (k (.ok false)))
    (hch : noFailure (.redisExists (leaderboardKey R.period)) ch)
    (he : World.exec R.i (.redisExists (leaderboardKey R.period)) ch w =
      some (x, w')) : R.Reads new w' (g ++ [.check]) (k x) := by
  cases ch <;> simp only [World.exec, reduceCtorEq, Option.some.injEq,
    Prod.mk.injEq] at he
  swap
  · exact absurd rfl (noFailure_iff.mp hch _)
  obtain ⟨rfl, rfl⟩ := he
  have hreads : readings g = [] := h.steps
  have hreads' : readings (g ++ [.check]) = [.check] := by
    rw [readings_concat rfl, hreads]
    rfl
  have hnone : ∀ s : CacheStep, s.reads = true → s ∉ g := fun s hs hmem => by
    rw [mem_of_readings hs, hreads] at hmem
    cases hmem
  have hpushed : Before .push .check (g ++ [.check]) ↔ .push ∈ g := by
    rw [before_concat]
    refine ⟨fun hb => hb.elim (fun hb => ?_) And.left, fun hp => .inr ⟨hp, rfl⟩⟩
    exact absurd hb.right_mem (hnone .check rfl)
  obtain ⟨t, htx⟩ := h.tx
  have hiff := hst.isSome_iff (hnone .store rfl)
  refine ⟨rows, ?_, hst.concat (by decide) (by decide)⟩
  cases hsome : (w.redis.get? (leaderboardKey R.period)).isSome with
  | true =>
      refine ⟨.finished, hhit, fun tx hget => ?_, .inl ⟨hreads', ?_⟩⟩
      · rw [htx] at hget
        cases hget
        rfl
      · exact hpushed.mpr (hiff.mp hsome)
  | false =>
      refine ⟨.missing, hmiss, ⟨t, htx⟩, hreads', fun hb => ?_⟩
      rw [hiff.mpr (hpushed.mp hb)] at hsome
      cases hsome

theorem Reader.count {k : Except RedisError Unit → Service Unit}
    {x : Except RedisError Unit}
    (h : R.Reader w g rows .missing
      (.call (.redisWrite false [.incrby rebuildsKey 1]) k))
    (hst : R.Stored w.redis g rows new)
    (hk : Rereads R.reader R.period R.start R.stop R.size .cold (k (.ok ())))
    (hch : noFailure (.redisWrite false [.incrby rebuildsKey 1]) ch)
    (he : World.exec R.i (.redisWrite false [.incrby rebuildsKey 1]) ch w =
      some (x, w')) : R.Reads new w' g (k x) := by
  obtain ⟨rfl, rfl⟩ := World.exec_redisWrite hch he
  obtain ⟨m, ttl, hrun⟩ := hst.counts.incrby 1
  have hall : w.redis.runAll [.incrby rebuildsKey 1] =
      (.ok (), w.redis.set rebuildsKey ⟨.document (.number m), ttl⟩) := by
    rw [Redis.runAll, hrun]
    rfl
  rw [hall]
  have hkey : ∀ period, Dict.get? (w.redis.set rebuildsKey
      ⟨.document (.number m), ttl⟩) (leaderboardKey period) =
      w.redis.get? (leaderboardKey period) := by
    intro period
    rw [Dict.get?_set, if_neg (ne_leaderboardKey (by decide) period)]
  refine ⟨rows, ⟨.cold, hk, h.tx, h.steps⟩, ?_, ?_, ?_⟩
  · intro period entry hget
    exact hst.boards period entry (hkey period ▸ hget)
  · intro entry hget
    rw [Dict.get?_set, if_pos rfl] at hget
    cases hget
    exact ⟨m, rfl⟩
  · exact (board_congr (hkey R.period)).trans hst.board

/-- The query of a transaction that has written nothing. -/
theorem exec_selectLeaderboard {i n : ℕ} {t start stop : DateTime}
    {x : Except DbError (List LeaderboardRow)}
    (htx : w.txs.get? i = some ⟨t, false, ∅⟩)
    (he : World.exec i (.sql (.selectLeaderboard start.micros stop.micros n)) ch
      w = some (x, w')) :
    ∃ all, w.db.Ranking start stop all ∧ x = .ok (all.take n) ∧
      w' = w.setTx i ⟨t, false, ∅⟩ := by
  have he' : w.execSql i (.selectLeaderboard start.micros stop.micros n) ch =
      some (x, w') := by
    cases ch <;> exact he
  rcases World.execSql_eq_some he' with ⟨-, -, hab⟩ | ⟨tx, htx', -, -, hrun⟩
  · cases hab _ htx
  obtain rfl : tx = ⟨t, false, ∅⟩ := Option.some.inj (htx'.symm.trans htx)
  rcases hrun with ⟨e, hrun, -, -⟩ | ⟨y, ws, hrun, rfl, rfl⟩
  · obtain ⟨all, -, hr⟩ := run_selectLeaderboard hrun
    cases hr
  · obtain ⟨all, hall, hr⟩ := run_selectLeaderboard hrun
    cases hr
    rw [World.view, Db.empty_overlay] at hall
    refine ⟨all, hall, rfl, ?_⟩
    rw [Db.empty_overlay]
    rfl

theorem Reader.load {k : Except DbError (List LeaderboardRow) → Service Unit}
    {x : Except DbError (List LeaderboardRow)}
    (h : R.Reader w g rows .cold
      (.call (.sql (.selectLeaderboard R.start.micros R.stop.micros R.size)) k))
    (hst : R.Stored w.redis g rows new)
    (hdb : .commit ∉ g → w.db = R.before.db)
    (hnone : Rereads R.reader R.period R.start R.stop R.size .finished (k (.ok [])))
    (hsome : ∀ rows, rows ≠ [] → Rereads R.reader R.period R.start R.stop R.size
      (.loaded rows) (k (.ok rows)))
    (he : World.exec R.i
      (.sql (.selectLeaderboard R.start.micros R.stop.micros R.size)) ch w =
        some (x, w')) : R.Reads new w' (g ++ [.load]) (k x) := by
  obtain ⟨t, htx⟩ := h.tx
  obtain ⟨hreads, hpush⟩ := h.steps
  obtain ⟨all, hall, rfl, rfl⟩ := exec_selectLeaderboard htx he
  have hreads' : readings (g ++ [.load]) = [.check, .load] := by
    rw [readings_concat rfl, hreads]
    rfl
  have hpush' : ¬ Before .push .check (g ++ [.load]) := fun hb =>
    hpush ((before_concat_of_ne (by decide)).mp hb)
  have hstore : .store ∉ g ++ [.load] := by
    rw [mem_of_readings rfl, hreads']
    decide
  -- the commit comes before the query if it has come at all
  have hbefore : Before .commit .load (g ++ [.load]) ↔ .commit ∈ g := by
    rw [before_concat]
    refine ⟨fun hb => hb.elim Before.left_mem And.left, fun hc => .inr ⟨hc, rfl⟩⟩
  have hloaded : R.Loaded (g ++ [.load]) w.db (all.take R.size) := by
    refine ⟨all, rfl, ?_⟩
    rw [hbefore]
    by_cases hcommit : .commit ∈ g
    · exact .inl ⟨hcommit, hall⟩
    · exact .inr ⟨hcommit, hdb hcommit ▸ hall⟩
  have htx' : (w.setTx R.i ⟨t, false, ∅⟩).txs.get? R.i =
      some ⟨t, false, ∅⟩ := by
    rw [World.get?_setTx, if_pos rfl]
  refine ⟨all.take R.size, ?_, (hst.concat (by decide) (by decide)).congr
    (fun hs => absurd hs hstore) fun _ => rfl⟩
  -- without rows the request is over, otherwise it stores them
  by_cases hempty : all.take R.size = []
  · refine ⟨.finished, hempty ▸ hnone, fun tx hget => ?_, .inr ⟨hpush', .inl
      ⟨hreads', ?_⟩⟩⟩
    · obtain rfl := Option.some.inj (htx'.symm.trans hget)
      rfl
    · rw [← hempty]
      exact hloaded
  · exact ⟨.loaded _, hsome _ hempty, ⟨t, htx'⟩, ⟨rfl, hempty⟩, hreads', hpush',
      hloaded⟩

theorem Reader.store {rows' : List LeaderboardRow}
    {k : Except RedisError Unit → Service Unit} {x : Except RedisError Unit}
    (h : R.Reader w g rows (.loaded rows') (.call (.redisWrite true
      (rebuildOps R.period R.reader.leaderboard_rebuild_ttl rows')) k))
    (hst : R.Stored w.redis g rows new)
    (hk : Rereads R.reader R.period R.start R.stop R.size .finished (k (.ok ())))
    (hch : noFailure (.redisWrite true
      (rebuildOps R.period R.reader.leaderboard_rebuild_ttl rows')) ch)
    (he : World.exec R.i (.redisWrite true
      (rebuildOps R.period R.reader.leaderboard_rebuild_ttl rows')) ch w =
        some (x, w')) : R.Reads new w' (g ++ [.store]) (k x) := by
  obtain ⟨rfl, rfl⟩ := World.exec_redisWrite hch he
  obtain ⟨⟨rfl, hne⟩, hreads, hpush, hloaded⟩ := h.steps
  obtain ⟨t, htx⟩ := h.tx
  obtain ⟨hok, hkey, hothers⟩ := @runAll_rebuildOps w.redis R.period
    R.reader.leaderboard_rebuild_ttl rows' hne
  rw [hok]
  refine ⟨rows', ⟨.finished, hk, fun tx hget => ?_, .inr ⟨fun hb => hpush
    ((before_concat_of_ne (by decide)).mp hb), .inr ⟨?_, ?_⟩⟩⟩, ?_, ?_, ?_⟩
  · rw [show tx = ⟨t, false, ∅⟩ from Option.some.inj (hget.symm.trans htx)]
  · rw [readings_concat rfl, hreads]
    rfl
  · exact hloaded.congr (before_concat_of_ne (by decide)) fun _ => rfl
  · intro period entry hget
    by_cases hperiod : leaderboardKey period = leaderboardKey R.period
    · rw [hperiod, hkey] at hget
      split at hget <;> cases hget
      exact ⟨_, rfl⟩
    · rw [hothers _ hperiod] at hget
      exact hst.boards period entry hget
  · intro entry hget
    rw [hothers _ (Ne.symm (ne_leaderboardKey (by decide) R.period))] at hget
    exact hst.counts entry hget
  · unfold cached
    rw [cacheAfter_concat, Redis.board, hkey]
    by_cases httl : R.reader.leaderboard_rebuild_ttl = 0
    · simp [keeps, httl]
    · simp [keeps, httl]

theorem Reader.finished {c : Call} {k : c.Res → Service Unit} {x : c.Res}
    (h : R.Reader w g rows .finished (.call c k))
    (hst : R.Stored w.redis g rows new)
    (hfree : Prog.Within (Call.meddles 0) 0 (.call c k)) (hch : noFailure c ch)
    (he : World.exec R.i c ch w = some (x, w')) : R.Reads new w' g (k x) := by
  obtain ⟨m, hm, hk⟩ := hfree.of_call
  obtain ⟨rfl, hc⟩ := Nat.add_eq_zero_iff.mp hm.symm
  have heffect := World.exec_effect he
  have htx : ∀ tx, w.txs.get? R.i = some tx → tx.writes = ∅ := h.tx
  have hset : ∀ tx, tx.writes = ∅ → ∀ tx', (w.setTx R.i tx).txs.get? R.i =
      some tx' → tx'.writes = ∅ := by
    intro tx hempty tx' hget
    rw [World.get?_setTx, if_pos rfl] at hget
    exact Option.some.inj hget ▸ hempty
  have hdrop : ∀ w : World, ∀ tx, (w.dropTx R.i).txs.get? R.i = some tx →
      tx.writes = ∅ := by
    intro w tx hget
    rw [World.get?_dropTx, if_pos rfl] at hget
    cases hget
  refine ⟨rows, ⟨.finished, .finished (hk x), ?_, ?_⟩,
    hst.of_meddles hc hch he⟩
  · cases heffect with
    | quiet r => exact htx
    | begin t _ => exact hset _ rfl
    | drop => exact hdrop w
    | issue u _ _ => exact htx
    | abort tx _ => exact hset _ rfl
    | wrote tx s ch y ws hsql _ _ _ =>
        rw [hsql] at hc
        cases hc
    | commit tx answers _ _ _ => exact hdrop _
  · rw [heffect.db_of_empty htx]
    exact h.steps

/-- **A call of the reader.** -/
theorem Reader.step {c : Call} {k : c.Res → Service Unit} {x : c.Res}
    {a : Reading} (h : R.Reader w g rows a (.call c k))
    (hst : R.Stored w.redis g rows new)
    (hdb : .commit ∉ g → w.db = R.before.db) (hch : noFailure c ch)
    (he : World.exec R.i c ch w = some (x, w')) :
    R.Reads new w' (g ++ (R.step? R.i c).toList) (k x) := by
  cases h.left with
  | enter hk =>
      rw [show R.step? R.i .begin = none from rfl, Option.toList_none,
        List.append_nil]
      exact h.enter hst hk he
  | now hk =>
      rw [show R.step? R.i .now = none from rfl, Option.toList_none,
        List.append_nil]
      exact h.now hst hk he
  | check hhit hmiss =>
      rw [show R.step? R.i (.redisExists (leaderboardKey R.period)) =
        some .check from if_pos ⟨rfl, rfl⟩]
      exact h.check hst hhit hmiss hch he
  | count hk =>
      have hkey : ¬ rebuildsKey = leaderboardKey R.period :=
        Ne.symm (ne_leaderboardKey (by decide) R.period)
      rw [show R.step? R.i (.redisWrite false [.incrby rebuildsKey 1]) = none by
        simp [step?, RedisOp.key, hkey], Option.toList_none, List.append_nil]
      exact h.count hst hk hch he
  | load hnone hsome =>
      rw [show R.step? R.i (.sql (.selectLeaderboard R.start.micros
        R.stop.micros R.size)) = some .load from if_pos rfl]
      exact h.load hst hdb hnone hsome he
  | @store rows' _ hk =>
      rw [show R.step? R.i (.redisWrite true (rebuildOps R.period
        R.reader.leaderboard_rebuild_ttl rows')) = some .store by
          simp [step?, rebuildOps, RedisOp.key]]
      exact h.store hst hk hch he
  | finished hfree =>
      obtain ⟨m, hm, -⟩ := hfree.of_call
      obtain ⟨-, hc⟩ := Nat.add_eq_zero_iff.mp hm.symm
      rw [step?_of_meddles hc fun _ _ => R.distinct, Option.toList_none,
        List.append_nil]
      exact h.finished hst hfree hch he

end ReaderSteps

end RebuildRace

end AnalyticsPipeline
