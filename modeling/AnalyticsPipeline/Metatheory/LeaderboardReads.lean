import AnalyticsPipeline.Metatheory.Periods
import AnalyticsPipeline.Metatheory.SolitaryLeaderboard

/-!
# Reading leaderboards

What a request for a leaderboard does when nothing else runs: a key that is
there is ranked as it is, one that is not is rebuilt from the day rows, as many
as the request asks for.
-/

namespace AnalyticsPipeline

open Framework

/-- The number of entries a request is answered with. -/
def pageSize (settings : Settings) (top_n : Option ℕ) : ℕ :=
  match top_n.filter (· ≠ 0) with
  | some n => n
  | none => settings.leaderboard_top_n

/-- A ranking that `query_leaderboard_from_db` gives with no limit: merchants of
equal volume in any order. -/
def Db.Ranking (db : Db) (start stop : DateTime) (rows : List LeaderboardRow) :
    Prop :=
  ∃ ids : List UUID, ids.Perm ((Stmt.leaderboardRows db start.micros
    stop.micros).map (·.1.merchant_id)).dedup ∧
    rows = Stmt.rankedRows (Stmt.leaderboardRows db start.micros stop.micros) ids

def rebuildsKey : String := "metrics:leaderboard_rebuilds"

/-- What a rebuild of a period from some rows leaves. -/
structure Rebuilt (settings : Settings) (period : String)
    (rows : List LeaderboardRow) (r r' : Redis) : Prop where
  counted : CountsAt rebuildsKey r
  key : r'.get? (leaderboardKey period) =
    if rows = [] ∨ settings.leaderboard_rebuild_ttl = 0 then none
    else some ⟨.zset (boardOf rows), some settings.leaderboard_rebuild_ttl⟩
  counts : CountsAt rebuildsKey r'
  others : ∀ key, key ≠ leaderboardKey period → key ≠ rebuildsKey →
    r'.get? key = r.get? key

/-- The entries of a request and their source, when the key is not there. -/
def ColdAnswer (settings : Settings) (period : String) (n : ℕ)
    (start stop : DateTime) (db : Db) (r : Redis)
    (x : Except PyError (List LeaderboardEntry × String)) (r' : Redis) : Prop :=
  match x with
  | .ok p => ∃ rows, db.Ranking start stop rows ∧
      p = (QueryService.rollupEntries (rows.take n), "rollup_day") ∧
      Rebuilt settings period (rows.take n) r r'
  | .error _ => ¬ CountsAt rebuildsKey r ∧ r' = r

/-- The same when the key holds these scores. -/
def hotAnswer (scores : Dict String ℤ) (n : ℕ) :
    Except PyError (List LeaderboardEntry × String) :=
  (QueryService.redisEntries ((Redis.ranked scores).take n)).map
    fun entries => (entries, "redis")

section Rules

variable {i : ℕ} {h : History} {r : Redis} {d : Dict UUID ℕ} {tx : Tx}
  {t : Option Tx} {w : World} {fails : Bool} {settings : Settings}
  {period : String} {n : ℕ} {start stop : DateTime} {scores : Dict String ℤ}

theorem after_leaderboardExists {Q : Except PyError Bool → World → Prop}
    (hat : At i h r d t w)
    (hQ : Q (.ok (r.get? (leaderboardKey period)).isSome) w) :
    After (notifying fails) (M := services) i
      (RedisRepository.leaderboardExists period) Q w := by
  rw [RedisRepository.leaderboardExists, perform_bind]
  refine after_call fun ch x w' hch he => ?_
  change World.exec i (.redisExists (leaderboardKey period)) ch w =
    some (x, w') at he
  cases ch <;> simp only [World.exec, reduceCtorEq, Option.some.injEq,
    Prod.mk.injEq] at he
  · obtain ⟨rfl, rfl⟩ := he
    rw [hat.redis]
    exact after_ret hQ
  · exact absurd rfl (hch _)

theorem after_leaderboardTopN {Q : Except PyError (List (String × ℤ)) → World → Prop}
    (hat : At i h r d t w) (hn : n ≠ 0)
    (hscores : r.scores? (leaderboardKey period) = .ok scores)
    (hQ : Q (.ok ((Redis.ranked scores).take n)) w) :
    After (notifying fails) (M := services) i
      (RedisRepository.leaderboardTopN period n) Q w := by
  have hrange : r.zrevrange (leaderboardKey period) 0 ((n : ℤ) - 1) =
      .ok ((Redis.ranked scores).take n) := by
    have hlast : (if (n : ℤ) - 1 < 0 then (n : ℤ) - 1 + scores.entries.length
        else (n : ℤ) - 1) + 1 = n := by
      rw [if_neg (by omega)]
      omega
    rw [Redis.zrevrange, hscores]
    simp only [Except.map, hlast, Int.toNat_natCast, List.drop_zero]
  rw [RedisRepository.leaderboardTopN, perform_bind]
  refine after_call fun ch x w' hch he => ?_
  change World.exec i (.redisRange (leaderboardKey period) 0 ((n : ℤ) - 1)) ch w =
    some (x, w') at he
  cases ch <;> simp only [World.exec, reduceCtorEq, Option.some.injEq,
    Prod.mk.injEq] at he
  · obtain ⟨rfl, rfl⟩ := he
    rw [hat.redis, hrange]
    exact after_ret hQ
  · exact absurd rfl (hch _)

theorem after_rebuildCount {Q : Except PyError Unit → World → Prop}
    (hat : At i h r d t w)
    (hok : CountsAt rebuildsKey r → ∀ r' w', CountsAt rebuildsKey r' →
      (∀ k, k ≠ rebuildsKey → r'.get? k = r.get? k) →
      At i h r' d t w' → Q (.ok ()) w')
    (herror : ¬ CountsAt rebuildsKey r → ∀ err w', At i h r d t w' →
      Q (.error err) w') :
    After (notifying fails) (M := services) i
      RedisRepository.incrLeaderboardRebuildCount Q w := by
  refine after_write hat fun w' hat' => ?_
  change At i h (r.runAll [.incrby rebuildsKey 1]).2 d t w' at hat'
  change Q ((r.runAll [.incrby rebuildsKey 1]).1.mapError .redis) w'
  by_cases hcounts : CountsAt rebuildsKey r
  · obtain ⟨m, ttl, hrun⟩ := hcounts.incrby 1
    have hall : r.runAll [.incrby rebuildsKey 1] =
        (.ok (), r.set rebuildsKey ⟨.document (.number m), ttl⟩) := by
      rw [Redis.runAll, hrun]
      rfl
    rw [hall] at hat' ⊢
    refine hok hcounts _ w' ?_ (fun k hk => ?_) hat'
    · intro entry hentry
      rw [Dict.get?_set, if_pos rfl] at hentry
      cases hentry
      exact ⟨m, rfl⟩
    · rw [Dict.get?_set, if_neg hk]
  · have hall : r.runAll [.incrby rebuildsKey 1] = (.error .wrongType, r) := by
      rw [Redis.runAll, not_countsAt_incrby hcounts]
      rfl
    rw [hall] at hat' ⊢
    exact herror hcounts _ w' hat'

/-- The query returns the first rows of a ranking. -/
theorem run_selectLeaderboard {now : DateTime} {ch : Choice} {view : Db}
    {r : Except DbError (List LeaderboardRow × Db)}
    (h : (Stmt.selectLeaderboard start.micros stop.micros n).run now ch view =
      some r) : ∃ all, view.Ranking start stop all ∧ r = .ok (all.take n, ∅) := by
  simp only [Stmt.run] at h
  split at h
  · split at h
    · rename_i ids hids
      cases h
      exact ⟨_, ⟨ids, hids, rfl⟩, rfl⟩
    · cases h
  · cases h

theorem after_queryLeaderboard
    {Q : Except PyError (List LeaderboardRow) → World → Prop}
    (hat : At i h r d (some tx) w) (hopen : tx.aborted = false)
    (hempty : tx.writes = ∅)
    (hQ : ∀ rows w', h.db.Ranking start stop rows → At i h r d (some tx) w' →
      Q (.ok (rows.take n)) w') :
    After (notifying fails) (M := services) i
      (RollupRepository.queryLeaderboardFromDb start stop n) Q w := by
  refine after_execute hat hopen (by simp) ?_ ?_
  · intro ch x ws w' _ hrun hat'
    rw [hempty, Db.empty_overlay] at hrun
    obtain ⟨all, hall, hr⟩ := run_selectLeaderboard hrun
    cases hr
    rw [Db.empty_overlay] at hat'
    exact hQ all w' hall hat'
  · intro ch e w' _ hrun _
    rw [hempty, Db.empty_overlay] at hrun
    obtain ⟨all, -, hr⟩ := run_selectLeaderboard hrun
    cases hr

/-- **A rebuild.** -/
theorem after_leaderboardEntries_cold
    (hat : At i h r d (some tx) w) (hopen : tx.aborted = false)
    (hempty : tx.writes = ∅) (hcold : r.get? (leaderboardKey period) = none) :
    After (notifying fails) (M := services) i
      (QueryService.leaderboardEntries settings period start stop n)
      (fun x w' => ∃ r', At i h r' d (some tx) w' ∧
        ColdAnswer settings period n start stop h.db r x r') w := by
  have hne : leaderboardKey period ≠ rebuildsKey :=
    ne_leaderboardKey (by decide) period
  refine after_bind (after_leaderboardExists hat ?_)
  rw [hcold]
  refine after_bind (after_rebuildCount hat ?_ ?_)
  · intro hcounted r₁ w₁ hcounts hothers hat₁
    refine after_bind (after_queryLeaderboard hat₁ hopen hempty
      fun rows w₂ hrows hat₂ => ?_)
    dsimp only
    split
    · rename_i hnil
      refine after_ret ⟨r₁, hat₂, rows, hrows, rfl, hcounted, ?_, hcounts, ?_⟩
      · rw [if_pos (.inl hnil), hothers _ hne, hcold]
      · exact fun key _ hkey => hothers key hkey
    · rename_i hrebuild
      refine after_bind (after_write hat₂ fun w₃ hat₃ => ?_)
      obtain ⟨hok, hget, hkept⟩ := @runAll_rebuildOps r₁
        period settings.leaderboard_rebuild_ttl _ hrebuild
      change At i h (r₁.runAll (rebuildOps period
        settings.leaderboard_rebuild_ttl (rows.take n))).2 d (some tx) w₃ at hat₃
      have hres : (r₁.runAll ([.delete (leaderboardKey period)] ++
          ((rows.take n).map fun e => .zadd (leaderboardKey period)
            e.merchant_id.str e.volume_cents) ++
          [.expire (leaderboardKey period)
            settings.leaderboard_rebuild_ttl])).1 = .ok () := hok
      rw [hres]
      refine after_ret ⟨_, hat₃, rows, hrows, rfl, hcounted, ?_, ?_, ?_⟩
      · rw [hget]
        simp only [hrebuild, false_or]
      · intro entry hentry
        rw [hkept _ hne.symm] at hentry
        exact hcounts entry hentry
      · exact fun key hkey hkey' => (hkept key hkey).trans (hothers key hkey')
  · exact fun hno err w₁ hat₁ => ⟨r, hat₁, hno, rfl⟩

theorem after_leaderboardEntries_hot
    (hat : At i h r d (some tx) w) (hn : n ≠ 0)
    (hscores : r.scores? (leaderboardKey period) = .ok scores)
    (hhot : (r.get? (leaderboardKey period)).isSome = true) :
    After (notifying fails) (M := services) i
      (QueryService.leaderboardEntries settings period start stop n)
      (fun x w' => At i h r d (some tx) w' ∧ x = hotAnswer scores n) w := by
  refine after_bind (after_leaderboardExists hat ?_)
  rw [hhot]
  refine after_bind (after_leaderboardTopN hat hn hscores ?_)
  dsimp only
  unfold hotAnswer
  cases QueryService.redisEntries ((Redis.ranked scores).take n) with
  | ok entries => exact after_bind (after_ret (after_ret ⟨hat, rfl⟩))
  | error e => exact after_bind (after_ret ⟨hat, rfl⟩)

/-- What is read as a month is given as a period. -/
theorem filter_period {year month : ℕ}
    (hparse : parsePeriod period = some (year, month)) :
    (some period).filter (fun p => decide (p ≠ "")) = some period := by
  refine Option.filter_eq_some_iff.mpr ⟨rfl, ?_⟩
  rw [decide_eq_true_eq]
  rintro rfl
  have hnone : parsePeriod "" = none := by decide
  rw [hnone] at hparse
  cases hparse

/-- **A request** leaves the tables as they are. -/
theorem after_leaderboardRequest {top_n : Option ℕ} {year month : ℕ}
    {P : Except PyError (List LeaderboardEntry × String) → Redis → Prop}
    (hparse : parsePeriod period = some (year, month))
    (hbounds : MonthBounds year month start stop)
    (hat : At i h r d none w)
    (hentries : ∀ now w', At i h r d (some ⟨now, false, ∅⟩) w' →
      After (notifying fails) (M := services) i
        (QueryService.leaderboardEntries settings period start stop
          (pageSize settings top_n))
        (fun x w₁ => ∃ r', At i h r' d (some ⟨now, false, ∅⟩) w₁ ∧ P x r') w') :
    After (notifying fails) (M := services) i
      (leaderboardRequest settings (some period) top_n)
      (fun x w' => ∃ h' r', At i h' r' d none w' ∧ h'.db = h.db ∧
        P (x.map fun a => (a.entries, a.source)) r') w := by
  refine after_getDb hat fun now w₁ hat₁ => ?_
  unfold QueryService.getLeaderboard
  refine after_now fun t => ?_
  simp only [filter_period hparse, hparse, Option.bind_some,
    periodBounds_eq_some_iff.mpr hbounds]
  refine after_bind (After.mono ?_ (hentries now w₁ hat₁))
  rintro x w₂ ⟨r', hat₂, hx⟩
  cases x with
  | ok p =>
      refine after_ret ⟨r', d, _, hat₂, fun w₃ hat₃ => ?_⟩
      exact ⟨_, r', hat₃, Db.empty_overlay h.db, hx⟩
  | error e =>
      refine ⟨r', d, _, hat₂, fun w₃ hat₃ => ?_⟩
      exact ⟨h, r', hat₃, rfl, hx⟩

theorem within_leaderboardEntries (settings : Settings) (period : String)
    (start stop : DateTime) (n : ℕ) : Prog.Within Call.waits 0
      (QueryService.leaderboardEntries settings period start stop n) := by
  refine Prog.Within.bind (m := 0) (n := 0) (.free rfl within_redisResult)
    fun live => ?_
  split
  · refine Prog.Within.bind (m := 0) (n := 0) (.free rfl within_redisResult)
      fun raw => ?_
    refine Prog.Within.bind (m := 0) (n := 0) ?_ fun entries => .ret
    unfold raising
    split <;> exact .ret
  · refine Prog.Within.bind (m := 0) (n := 0) (within_write rfl) fun _ => ?_
    refine Prog.Within.bind (m := 0) (n := 0)
      (within_execute (Call.waits_sql rfl)) fun rows => ?_
    split
    · exact .ret
    · exact Prog.Within.bind (m := 0) (n := 0) (within_write rfl) fun _ => .ret

theorem within_leaderboardRequest (settings : Settings) (period : Option String)
    (top_n : Option ℕ) : Prog.Within Call.waits 0
      (leaderboardRequest settings period top_n) := by
  refine within_getDb rfl rfl (fun _ => rfl) ?_
  unfold QueryService.getLeaderboard
  rw [perform_bind]
  refine .free rfl fun now => ?_
  dsimp only
  split
  · exact .ret
  · exact Prog.Within.bind (m := 0) (n := 0)
      (within_leaderboardEntries _ _ _ _ _) fun p => .ret

end Rules

/-! ## Requests alone -/

section Requests

variable {i : ℕ} {w w' : World} {fails : Bool} {settings : Settings}
  {period : String} {top_n : Option ℕ} {year month : ℕ} {start stop : DateTime}
  {x : Except PyError LeaderboardResponse}

theorem eval_leaderboard_cold (hparse : parsePeriod period = some (year, month))
    (hbounds : MonthBounds year month start stop) (hidle : w.txs.get? i = none)
    (hcold : w.redis.get? (leaderboardKey period) = none)
    (he : Eval (M := services) (notifying fails) i
      (leaderboardRequest settings (some period) top_n) w x w') :
    w'.db = w.db ∧ w'.issued = w.issued ∧ w'.txs.get? i = none ∧
      ColdAnswer settings period (pageSize settings top_n) start stop w.db
        w.redis (x.map fun a => (a.entries, a.source)) w'.redis := by
  have hat : At i w.toHistory w.redis w.issued none w := ⟨rfl, rfl, rfl, hidle⟩
  obtain ⟨_, r', hat', hdb, hx⟩ := after_leaderboardRequest hparse hbounds hat
    (fun now w₁ hat₁ => after_leaderboardEntries_cold hat₁ rfl rfl hcold) x w' he
  exact ⟨(congrArg History.db hat'.history).trans hdb, hat'.issued, hat'.tx,
    hat'.redis ▸ hx⟩

theorem eval_leaderboard_hot (hparse : parsePeriod period = some (year, month))
    (hbounds : MonthBounds year month start stop) (hidle : w.txs.get? i = none)
    (hn : pageSize settings top_n ≠ 0) {scores : Dict String ℤ}
    (hhot : w.redis.board period = some scores)
    (he : Eval (M := services) (notifying fails) i
      (leaderboardRequest settings (some period) top_n) w x w') :
    w'.db = w.db ∧ w'.issued = w.issued ∧ w'.txs.get? i = none ∧
      w'.redis = w.redis ∧ (x.map fun a => (a.entries, a.source)) =
        hotAnswer scores (pageSize settings top_n) := by
  have hat : At i w.toHistory w.redis w.issued none w := ⟨rfl, rfl, rfl, hidle⟩
  have hscores : w.redis.scores? (leaderboardKey period) = .ok scores ∧
      (w.redis.get? (leaderboardKey period)).isSome = true := by
    rw [Redis.board] at hhot
    rw [Redis.scores?]
    split at hhot
    · rename_i hget
      cases hhot
      rw [hget]
      exact ⟨rfl, rfl⟩
    · cases hhot
  obtain ⟨_, r', hat', hdb, hr, hx⟩ := after_leaderboardRequest hparse hbounds
    (P := fun x r' => r' = w.redis ∧
      x = hotAnswer scores (pageSize settings top_n)) hat
    (fun now w₁ hat₁ => After.mono (fun x w₂ hx => ⟨_, hx.1, rfl, hx.2⟩)
      (after_leaderboardEntries_hot hat₁ hn hscores.1 hscores.2)) x w' he
  exact ⟨(congrArg History.db hat'.history).trans hdb, hat'.issued, hat'.tx,
    hat'.redis.trans hr, hx⟩

/-- A request whose key is not there is answered while the rebuilds count. -/
theorem exists_eval_leaderboard_cold
    (hparse : parsePeriod period = some (year, month))
    (hbounds : MonthBounds year month start stop) (hidle : w.txs.get? i = none)
    (hcold : w.redis.get? (leaderboardKey period) = none)
    (hcounts : CountsAt rebuildsKey w.redis) :
    ∃ a w', Eval (M := services) noFailure i
      (leaderboardRequest settings (some period) top_n) w (.ok a) w' := by
  obtain ⟨x, w', he⟩ := exists_eval_waitless (i := i) false
    (within_leaderboardRequest settings (some period) top_n) w
  obtain ⟨-, -, -, hx⟩ := eval_leaderboard_cold hparse hbounds hidle hcold he
  cases x with
  | ok a => exact ⟨a, w', he⟩
  | error e => exact absurd hcounts hx.1

/-- The period a request asks for at `now`. -/
def askedPeriod (period : Option String) (now : DateTime) : String :=
  match period.filter (· ≠ "") with
  | some p => p
  | none => periodKey now

theorem getLeaderboard_eq (settings : Settings) (period : Option String)
    (top_n : Option ℕ) : QueryService.getLeaderboard settings period top_n = (do
      let now ← perform .now
      match (parsePeriod (askedPeriod period now)).bind
        fun p => periodBounds p.1 p.2 with
      | none => throw (periodError (askedPeriod period now))
      | some (start, stop) => do
          let (entries, source) ← QueryService.leaderboardEntries settings
            (askedPeriod period now) start stop (pageSize settings top_n)
          pure ⟨askedPeriod period now, start, stop, entries, source, now⟩) := by
  unfold QueryService.getLeaderboard askedPeriod pageSize
  cases period.filter (fun p => decide (p ≠ "")) <;>
    cases top_n.filter (fun n => decide (n ≠ 0)) <;> rfl

end Requests

end AnalyticsPipeline
