import AnalyticsPipeline.Metatheory.RebuildRace

/-!
# The writer in the race

Up to the end of its session block a batch is known by its `Wp` and by the one
commit it may make; after that by the increments it still has to send.
-/

namespace AnalyticsPipeline

open Framework

namespace RebuildRace

section WriterSteps

variable {R : RebuildRace} {g g' : List CacheStep} {rows : List LeaderboardRow}
  {new : List RawEvent} {w w' : World} {ch : Choice}

/-- A step of the reader leaves the writer where it is. -/
theorem Writer.read {p : Service Unit} (h : R.Writer w g new p)
    (hw : Coherent w) (hw' : Coherent w')
    (hstep : OtherStep (besideWriter R.j) R.j w w') (hdb : w'.db = w.db)
    (hg : writings g' = writings g) : R.Writer w' g' new p := by
  cases h with
  | deciding hwp hfree hm =>
      refine .deciding (hwp.rely (.of_step ⟨hw, trivial⟩ ⟨hw', trivial⟩ hstep))
        hfree ?_
      rw [hg, hdb]
      exact hm
  | publishing hpushes hcommitted hsub hcommit hsteps =>
      refine .publishing hpushes (hdb ▸ hcommitted) hsub (fun hc => ?_) ?_
      · rw [hdb]
        refine hcommit fun hmem => hc ?_
        rwa [mem_of_writings rfl, hg, ← mem_of_writings rfl]
      · unfold Pushed at hsteps ⊢
        rw [hg]
        exact hsteps
  | nothing hsame hsteps => exact .nothing (hdb.trans hsame) (hg ▸ hsteps)

/-- A batch that has processed something has committed. -/
theorem Committed.pushed (h : R.Committed new w.db)
    (hsteps : writings g = [] ∧ w.db = R.before.db ∨ writings g = [.commit]) :
    R.Pushed g new (RollupWorker.periodIncrements new).entries := by
  unfold Pushed
  by_cases hconfirmed : confirmedIn R.period new = []
  · rw [if_pos hconfirmed]
    exact hsteps.imp_left And.left
  · have hmem : R.period ∈
        (RollupWorker.periodIncrements new).entries.map Prod.fst := by
      refine Dict.mem_keys_iff.mpr ⟨volumes (confirmedIn R.period new), ?_⟩
      rw [get?_periodIncrements, if_neg hconfirmed]
    rw [if_neg hconfirmed, if_pos hmem]
    rcases hsteps with ⟨-, hsame⟩ | hg
    · obtain ⟨ws, hdeltas, hover⟩ := h.deltas
      have hnew : new ≠ [] := by
        rintro rfl
        exact hconfirmed rfl
      exact absurd (hover.symm.trans hsame) (hdeltas.overlay_ne hnew)
    · exact hg

/-- What is left once the session block has returned. -/
theorem Writer.of_block {q : Service (Option (List RawEvent × List RawEvent))}
    {m : ℕ} (hw : Coherent w)
    (hwp : Wp (besideWriter R.j) (Inv fun _ => True) R.j q
      (fun r w => w.txs.get? R.j = none ∧ R.hooks.post r w) w)
    (hfree : Prog.Within Call.publishes m q)
    (hm : m = 1 ∧ writings g = [] ∧ w.db = R.before.db ∨
      m = 0 ∧ writings g = [.commit]) :
    ∃ new, R.Writer w g new (q >>= R.afterBlock) := by
  cases q with
  | call c k => exact ⟨[], .deciding hwp hfree hm⟩
  | ret r =>
      obtain ⟨-, hpost⟩ := hwp w .refl ⟨hw, trivial⟩
      have hsteps : writings g = [] ∨ writings g = [.commit] :=
        hm.imp (fun h => h.2.1) And.right
      cases r with
      | error e => exact ⟨[], .nothing hpost hsteps⟩
      | ok x =>
          cases x with
          | none => exact ⟨[], .nothing hpost hsteps⟩
          | some p =>
              have hcommitted : R.Committed p.2 w.db := hpost
              refine ⟨p.2, .publishing (((pushes_publish R.writer p.2).bind
                fun _ => .ret).bind fun _ => .ret) hcommitted
                (List.Sublist.refl _) (fun hcommit => ?_)
                (hcommitted.pushed (hm.imp And.right And.right))⟩
              rcases hm with ⟨-, -, hdb⟩ | ⟨-, hg⟩
              · exact hdb
              · refine absurd ((mem_of_writings rfl).mpr ?_) hcommit
                rw [hg]
                exact List.mem_cons_self

/-- Where a call of the writer leads. -/
structure Writes (R : RebuildRace) (g : List CacheStep)
    (rows : List LeaderboardRow) (w : World) (c : Call) (w' : World)
    (p : Service Unit) : Prop where
  coherent : Coherent w'
  writer : ∃ new, R.Writer w' (g ++ (R.step? R.j c).toList) new p ∧
    R.Stored w'.redis (g ++ (R.step? R.j c).toList) rows new
  db : .commit ∈ g → w'.db = w.db
  steps : ∀ s, R.step? R.j c = some s → s.reads = false

theorem step?_of_publishes {c : Call} (h : c.publishes = 0) :
    R.step? R.j c = none := by
  cases c with
  | sql s =>
      cases s with
      | selectLeaderboard a b n => exact if_neg R.distinct.symm
      | _ => rfl
  | redisExists key => exact if_neg fun h => R.distinct h.1.symm
  | commit answers => cases h
  | redisWrite transaction ops => cases h
  | _ => rfl

theorem Writer.block {c : Call}
    {k : c.Res → Service (Option (List RawEvent × List RawEvent))} {x : c.Res}
    {m : ℕ} (hw : Coherent w) (hst : R.Stored w.redis g rows new)
    (hwp : Wp (besideWriter R.j) (Inv fun _ => True) R.j (.call c k)
      (fun r w => w.txs.get? R.j = none ∧ R.hooks.post r w) w)
    (hfree : Prog.Within Call.publishes m (.call c k))
    (hm : m = 1 ∧ writings g = [] ∧ w.db = R.before.db ∨
      m = 0 ∧ writings g = [.commit]) (hch : noFailure c ch)
    (he : World.exec R.j c ch w = some (x, w')) :
    R.Writes g rows w c w' (k x >>= R.afterBlock) := by
  obtain ⟨n, hn, hk⟩ := hfree.of_call
  obtain ⟨⟨hw', -⟩, hwp'⟩ := hwp w .refl ⟨hw, trivial⟩ ch x w'
    ⟨hch, fun hne => absurd rfl hne⟩ he
  have hredis : w'.redis = w.redis := by
    refine World.exec_redis (fun transaction ops hc => ?_) he
    rw [hc, Call.publishes] at hn
    omega
  have hpush : ∀ {g : List CacheStep}, writings g = [] ∨ writings g = [.commit] →
      .push ∉ g := by
    intro g hg hmem
    rw [mem_of_writings rfl] at hmem
    rcases hg with hg | hg <;> rw [hg] at hmem <;> simp at hmem
  have hsame : c.publishes = 0 → w'.db = w.db := by
    intro hc
    refine (World.exec_effect he).db fun answers hcommit => ?_
    rw [hcommit] at hc
    cases hc
  -- a call that publishes nothing leaves the trace as it was
  by_cases hc : c.publishes = 0
  · have hstep : R.step? R.j c = none := step?_of_publishes hc
    obtain rfl : n = m := by omega
    obtain ⟨new', hwriter⟩ := Writer.of_block hw' hwp' (hk x) (hsame hc ▸ hm)
    refine ⟨hw', ⟨new', ?_⟩, fun _ => hsame hc, fun s hs => ?_⟩
    · rw [hstep, Option.toList_none, List.append_nil, hredis]
      refine ⟨hwriter, hst.congr (fun _ => rfl) fun hmem => absurd hmem ?_⟩
      exact hpush (hm.imp (fun h => h.2.1) And.right)
    · rw [hstep] at hs
      cases hs
  · -- the one commit of the block
    have hstep : R.step? R.j c = some .commit := by
      cases c with
      | commit answers => exact if_pos rfl
      | redisWrite transaction ops =>
          rw [Call.publishes] at hn
          omega
      | _ => exact absurd rfl hc
    rcases hm with ⟨rfl, hg, hdb⟩ | ⟨rfl, -⟩
    · have hg' : writings (g ++ [.commit]) = [.commit] := by
        rw [writings_concat rfl, hg]
        rfl
      have hn' : n = 0 := by omega
      obtain ⟨new', hwriter⟩ := Writer.of_block hw' hwp' (hk x)
        (.inr ⟨hn', hg'⟩)
      refine ⟨hw', ⟨new', ?_⟩, fun hmem => ?_, fun s hs => ?_⟩
      · rw [hstep, Option.toList_some, hredis]
        exact ⟨hwriter, (hst.concat (by decide) (by decide)).congr
          (fun _ => rfl) fun hmem => absurd hmem (hpush (.inr hg'))⟩
      · rw [mem_of_writings rfl, hg] at hmem
        cases hmem
      · rw [hstep] at hs
        cases hs
        rfl
    · omega

theorem step?_increments (period : String) (incs : List (String × ℤ)) :
    R.step? R.j (.redisWrite false (incrementOps period incs)) =
      if period = R.period then some .push else none := by
  have hops : ∀ op ∈ incrementOps period incs, op.key = leaderboardKey period := by
    intro op hop
    rcases List.mem_append.mp hop with hop | hop
    · obtain ⟨p, -, rfl⟩ := List.mem_map.mp hop
      rfl
    · rw [List.mem_singleton.mp hop]
      rfl
  have hany : (incrementOps period incs).any
      (fun op => op.key = leaderboardKey R.period) = true ↔
        period = R.period := by
    rw [List.any_eq_true]
    constructor
    · rintro ⟨op, hop, hkey⟩
      exact leaderboardKey_injective
        ((hops op hop).symm.trans (of_decide_eq_true hkey))
    · rintro rfl
      exact ⟨.expire (leaderboardKey R.period) (48 * 3600),
        List.mem_append_right _ (List.mem_singleton_self _), decide_eq_true rfl⟩
  simp only [step?, hany, if_neg R.distinct.symm]

/-- The sorted set after the increments of one period. -/
theorem Stored.increments {r : Redis} {q : String × Dict String ℤ}
    (hst : R.Stored r g rows new)
    (hq : q ∈ (RollupWorker.periodIncrements new).entries) :
    R.Stored (r.runAll (incrementOps q.1 q.2.entries)).2
      (g ++ (R.step? R.j (.redisWrite false
        (incrementOps q.1 q.2.entries))).toList) rows new := by
  obtain ⟨-, hvolumes⟩ := of_mem_periodIncrements hq
  obtain ⟨-, hkey, hothers⟩ := @runAll_incrementOps r hst.boards q.1
    q.2.entries (entries_ne_nil_of_mem hq)
  refine ⟨fun period entry hget => ?_, fun entry hget => ?_, ?_⟩
  · by_cases hperiod : leaderboardKey period = leaderboardKey q.1
    · rw [hperiod, hkey] at hget
      cases hget
      exact ⟨_, rfl⟩
    · rw [hothers _ hperiod] at hget
      exact hst.boards period entry hget
  · rw [hothers _ (Ne.symm (ne_leaderboardKey (by decide) q.1))] at hget
    exact hst.counts entry hget
  · rw [step?_increments]
    by_cases hperiod : q.1 = R.period
    · rw [if_pos hperiod, Option.toList_some]
      unfold cached
      rw [cacheAfter_concat, Redis.board, ← hperiod, hkey, hvolumes]
      show some (gained ((r.board q.1).getD ∅) _) = _
      rw [hperiod, hst.board]
      rfl
    · rw [if_neg hperiod, Option.toList_none, List.append_nil,
        board_congr (hothers _ fun hkeys =>
          hperiod (leaderboardKey_injective hkeys).symm)]
      exact hst.board

/-- One period less is to be sent. -/
theorem Pushed.push {q : String × Dict String ℤ}
    {l : List (String × Dict String ℤ)} (h : R.Pushed g new (q :: l))
    (hq : q ∈ (RollupWorker.periodIncrements new).entries)
    (hfresh : q.1 ∉ l.map Prod.fst) :
    R.Pushed (g ++ (R.step? R.j (.redisWrite false
      (incrementOps q.1 q.2.entries))).toList) new l := by
  rw [step?_increments]
  unfold Pushed at h ⊢
  by_cases hperiod : q.1 = R.period
  · have hne : confirmedIn R.period new ≠ [] :=
      hperiod ▸ (of_mem_periodIncrements hq).1
    rw [if_neg hne, if_pos (hperiod ▸ List.mem_cons_self)] at h
    rw [if_pos hperiod, if_neg hne, if_neg (hperiod ▸ hfresh),
      Option.toList_some, writings_concat rfl, h]
    rfl
  · have hmem : R.period ∈ (q :: l).map Prod.fst ↔ R.period ∈ l.map Prod.fst := by
      rw [List.map_cons, List.mem_cons, or_iff_right (Ne.symm hperiod)]
    simp only [hmem] at h
    rw [if_neg hperiod, Option.toList_none, List.append_nil]
    exact h

/-- One period's increments. -/
theorem Writer.push {q : String × Dict String ℤ}
    {l : List (String × Dict String ℤ)}
    {k : Except RedisError Unit → Service Unit} {x : Except RedisError Unit}
    (hw : Coherent w) (hst : R.Stored w.redis g rows new)
    (hk : Pushes l (k (.ok ()))) (hcommitted : R.Committed new w.db)
    (hsub : (q :: l).Sublist (RollupWorker.periodIncrements new).entries)
    (hcommit : .commit ∉ g → w.db = R.before.db) (hsteps : R.Pushed g new (q :: l))
    (hch : noFailure (.redisWrite false (incrementOps q.1 q.2.entries)) ch)
    (he : World.exec R.j (.redisWrite false (incrementOps q.1 q.2.entries)) ch w =
      some (x, w')) :
    R.Writes g rows w (.redisWrite false (incrementOps q.1 q.2.entries)) w'
      (k x) := by
  obtain ⟨rfl, rfl⟩ := World.exec_redisWrite hch he
  have hq := hsub.subset List.mem_cons_self
  have hnodup : ((q :: l).map Prod.fst).Nodup :=
    (RollupWorker.periodIncrements new).nodup_keys.sublist (hsub.map _)
  rw [List.map_cons, List.nodup_cons] at hnodup
  have hok := (@runAll_incrementOps w.redis hst.boards q.1 q.2.entries
    (entries_ne_nil_of_mem hq)).1
  rw [hok]
  refine ⟨hw.of_eq rfl rfl rfl, ⟨new, ?_, hst.increments hq⟩, fun _ => rfl,
    fun s hs => ?_⟩
  · exact .publishing hk hcommitted ((List.sublist_cons_self q l).trans hsub)
      (fun hmem => hcommit fun hc => hmem (List.mem_append_left _ hc))
      (hsteps.push hq hnodup.1)
  · rw [step?_increments] at hs
    split at hs <;> cases hs
    rfl

/-- **A call of the writer.** -/
theorem Writer.step {c : Call} {k : c.Res → Service Unit} {x : c.Res}
    (h : R.Writer w g new (.call c k)) (hw : Coherent w)
    (hst : R.Stored w.redis g rows new) (hch : noFailure c ch)
    (he : World.exec R.j c ch w = some (x, w')) :
    R.Writes g rows w c w' (k x) := by
  cases h with
  | deciding hwp hfree hm => exact Writer.block hw hst hwp hfree hm hch he
  | publishing hpushes hcommitted hsub hcommit hsteps =>
      cases hpushes with
      | push hk =>
          exact Writer.push hw hst hk hcommitted hsub hcommit hsteps hch he
      | finished hfree =>
          obtain ⟨n, hn, hk⟩ := hfree.of_call
          obtain ⟨rfl, hc⟩ := Nat.add_eq_zero_iff.mp hn.symm
          have hno : ∀ answers, c ≠ .commit answers := by
            rintro answers rfl
            cases hc
          have hstep : R.step? R.j c = none :=
            step?_of_meddles hc fun answers hcommit => absurd hcommit (hno answers)
          have heffect := World.exec_effect he
          have hdb := heffect.db hno
          refine ⟨heffect.coherent hw fun values hsql => ?_, ⟨new, ?_⟩,
            fun _ => hdb, fun s hs => ?_⟩
          · rw [hsql] at hc
            cases hc
          · rw [hstep, Option.toList_none, List.append_nil]
            exact ⟨.publishing (.finished (hk x)) (hdb ▸ hcommitted) hsub
              (fun hmem => hdb.trans (hcommit hmem)) hsteps,
              hst.of_meddles hc hch he⟩
          · rw [hstep] at hs
            cases hs

end WriterSteps

end RebuildRace

end AnalyticsPipeline
