import AnalyticsPipeline.Guarantees.LeaderboardSurvival
import AnalyticsPipeline.Metatheory.RaceReader
import AnalyticsPipeline.Metatheory.RaceWriter

/-!
# A rebuild and a batch at the same time

The request reads the day rows in one step and replaces the sorted set in
another; the batch commits its rows in one step and increments the sorted set in
another. Depending on the order a batch is counted once, twice or not at all.
-/

namespace AnalyticsPipeline

open Framework Relation

theorem settled_of_moves {worker : Settings → Prop} {consumer_id : String}
    (hworker : ∀ settings, worker settings → settings.worker_id = consumer_id)
    {merchants : List Merchant} {w : World}
    (h : ReflTransGen (Move worker) (World.start merchants) w) :
    Settled consumer_id w := by
  induction h with
  | refl => exact settled_start merchants
  | tail _ hm ih => exact ih.move hworker hm

/-- No transaction is open, the sorted set of the period is missing, and the
other keys hold what the services put there. -/
structure RebuildRace.Cold (R : RebuildRace) : Prop where
  coherent : Coherent R.before
  idle : ∀ k, R.before.txs.get? k = none
  boards : Boards R.before.redis
  counts : CountsAt rebuildsKey R.before.redis
  cold : R.before.redis.get? (leaderboardKey R.period) = none
  credits : Credits R.before.db.raw_events
  volumes : ∀ m, 0 ≤ R.before.db.volume R.period m

namespace RebuildRace

section Steps

variable {R : RebuildRace} {c c' : Config services PyError}
  {g : List CacheStep} {rows : List LeaderboardRow} {new : List RawEvent}
  {w w' : World}

theorem Cold.stored (h : R.Cold) : R.Stored R.before.redis [] rows new where
  boards := h.boards
  counts := h.counts
  board := by
    rw [Redis.board, h.cold]
    rfl

/-- Reader and writer at the start. -/
theorem Cold.holds (h : R.Cold) : ∃ new, R.Holds R.initial [] [] new := by
  have hreader : R.initial.session R.i = R.request := Function.update_self ..
  have hwriter : R.initial.session R.j = R.batch := by
    refine (Function.update_of_ne R.distinct.symm ..).trans ?_
    exact Function.update_self ..
  obtain ⟨new, hbatch⟩ := Writer.of_block (g := []) h.coherent
    (wp_batchScope R.hooks (h.idle R.j) rfl) (within_batchScope R.writer)
    (.inl ⟨rfl, rfl, rfl⟩)
  refine ⟨new, h.coherent, h.stored, ⟨.closed, ?_, h.idle R.i, rfl⟩, ?_, ?_⟩
  · rw [hreader]
    exact (rereads_leaderboardRequest (parsePeriod_periodKey R.u)
      R.bounds).bind fun _ => .ret
  · rw [hwriter, batch_eq]
    exact hbatch
  · intro k hi hj
    refine ⟨.ok (), ?_⟩
    refine (Function.update_of_ne hi ..).trans ?_
    exact Function.update_of_ne hj ..

theorem step?_reads {s : CacheStep} {call : Call}
    (h : R.step? R.i call = some s) : s.reads = true := by
  unfold step? at h
  split at h
  · split at h <;> cases h
    rfl
  · split at h <;> cases h
    rfl
  · rw [if_neg R.distinct] at h
    cases h
  · rw [if_pos rfl] at h
    split at h <;> cases h
    rfl
  · cases h

theorem ReaderTx.empty {a : Reading} (h : R.ReaderTx w a) {tx : Tx}
    (htx : w.txs.get? R.i = some tx) : tx.writes = ∅ := by
  unfold ReaderTx at h
  split at h
  · rw [h] at htx
    cases htx
  · exact h tx htx
  · obtain ⟨t, ht⟩ := h
    rw [ht] at htx
    cases htx
    rfl

theorem ReaderTx.congr {a : Reading} (h : R.ReaderTx w a)
    (htx : w'.txs.get? R.i = w.txs.get? R.i) : R.ReaderTx w' a := by
  unfold ReaderTx at h ⊢
  rw [htx]
  exact h

/-- A request records no events. -/
theorem reads_only {settings : Settings} {period : String}
    {start stop : DateTime} {n : ℕ} {a : Reading} {call : Call}
    {k : call.Res → Service Unit}
    (h : Rereads settings period start stop n a (.call call k))
    (values : List (RawValues PyDateTime)) : call ≠ .sql (.insertRawEvents values) := by
  cases h with
  | finished hfree =>
      obtain ⟨m, hm, -⟩ := hfree.of_call
      rintro rfl
      cases (Nat.add_eq_zero_iff.mp hm.symm).2
  | _ =>
      intro hcall
      cases hcall

/-- **A call of the reader** keeps the invariant. -/
theorem Holds.read {call : Call} {k : call.Res → Service Unit} {x : call.Res}
    {ch : Choice} (h : R.Holds c g rows new)
    (hsession : c.session R.i = .call call k) (hch : noFailure call ch)
    (he : World.exec R.i call ch c.world = some (x, w')) :
    ∃ rows', R.Holds ⟨w', Function.update c.session R.i (k x)⟩
      (g ++ (R.step? R.i call).toList) rows' new := by
  obtain ⟨a, hreader⟩ := h.reader
  rw [hsession] at hreader
  have hempty : ∀ tx, c.world.txs.get? R.i = some tx → tx.writes = ∅ :=
    fun tx htx => hreader.tx.empty htx
  have heffect := World.exec_effect he
  have hw' : Coherent w' := heffect.coherent h.coherent fun values hc =>
    absurd hc (reads_only hreader.left values)
  have hother : OtherStep (besideWriter R.j) R.j c.world w' :=
    .call R.distinct ⟨hch, fun _ => hempty⟩ he
  have hwritings : writings (g ++ (R.step? R.i call).toList) = writings g := by
    cases hstep : R.step? R.i call with
    | none => rw [Option.toList_none, List.append_nil]
    | some s => exact writings_concat_read (step?_reads hstep)
  obtain ⟨rows', hnext, hstored⟩ :=
    hreader.step h.stored h.writer.db_eq hch he
  refine ⟨rows', hw', hstored, ?_, ?_, ?_⟩
  · show ∃ s, R.Reader w' _ rows' s (Function.update c.session R.i (k x) R.i)
    rw [Function.update_self]
    exact hnext
  · show R.Writer w' _ new (Function.update c.session R.i (k x) R.j)
    rw [Function.update_of_ne R.distinct.symm]
    exact h.writer.read h.coherent hw' hother (heffect.db_of_empty hempty)
      hwritings
  · intro l hi hj
    obtain ⟨r, hr⟩ := h.others l hi hj
    exact ⟨r, (Function.update_of_ne hi ..).trans hr⟩

/-- **A call of the writer** keeps it too. -/
theorem Holds.write {call : Call} {k : call.Res → Service Unit} {x : call.Res}
    {ch : Choice} (h : R.Holds c g rows new)
    (hsession : c.session R.j = .call call k) (hch : noFailure call ch)
    (he : World.exec R.j call ch c.world = some (x, w')) :
    ∃ new', R.Holds ⟨w', Function.update c.session R.j (k x)⟩
      (g ++ (R.step? R.j call).toList) rows new' := by
  have hwriter := h.writer
  rw [hsession] at hwriter
  have hnext := hwriter.step h.coherent h.stored hch he
  obtain ⟨new', hwriter', hstored⟩ := hnext.writer
  obtain ⟨a, hreader⟩ := h.reader
  have htx := (World.exec_effect he).tx_of_ne R.distinct
  refine ⟨new', hnext.coherent, hstored, ⟨a, ?_⟩, ?_, ?_⟩
  · show R.Reader w' _ rows a (Function.update c.session R.j (k x) R.i)
    rw [Function.update_of_ne R.distinct]
    exact ⟨hreader.left, hreader.tx.congr htx,
      hreader.steps.write hnext.steps hnext.db⟩
  · show R.Writer w' _ new' (Function.update c.session R.j (k x) R.j)
    rw [Function.update_self]
    exact hwriter'
  · intro l hi hj
    obtain ⟨r, hr⟩ := h.others l hi hj
    exact ⟨r, (Function.update_of_ne hj ..).trans hr⟩

theorem Holds.next {l : Label services PyError} (h : R.Holds c g rows new)
    (ha : callsOnly.allows c l) (hn : c.next? l = some c') :
    ∃ rows' new', R.Holds c' (R.monitor.after g c l) rows' new' := by
  cases l with
  | call j ch =>
      simp only [Config.next?] at hn
      cases hp : c.session j with
      | ret r => simp [hp] at hn
      | call call k =>
          simp only [hp] at hn
          simp only [Policy.allows, hp] at ha
          simp only [Monitor.after, hp]
          obtain ⟨⟨x, w'⟩, he, rfl⟩ := Option.map_eq_some_iff.mp hn
          by_cases hi : j = R.i
          · subst hi
            obtain ⟨rows', hnext⟩ := h.read hp ha he
            exact ⟨rows', new, hnext⟩
          · by_cases hj : j = R.j
            · subst hj
              obtain ⟨new', hnext⟩ := h.write hp ha he
              exact ⟨rows, new', hnext⟩
            · obtain ⟨r, hr⟩ := h.others j hi hj
              rw [hp] at hr
              cases hr
  | crash j => exact absurd ha id
  | spawn j p => exact absurd ha id
  | env e => exact absurd ha id

/-- **The invariant of a race.** -/
theorem Cold.watched (h : R.Cold) (hrun : Watched R.monitor (fun _ => callsOnly)
    R.initial [] c g) : ∃ rows new, R.Holds c g rows new := by
  induction hrun with
  | refl =>
      obtain ⟨new, hholds⟩ := h.holds
      exact ⟨[], new, hholds⟩
  | step l _ ha hn ih =>
      obtain ⟨rows, new, hholds⟩ := ih
      exact hholds.next ha hn

/-- Every state between two moves in which the sorted set is missing is a start
of the race. -/
theorem Cold.of_settled {consumer_id : String}
    (h : Settled consumer_id R.before)
    (hcounts : CountsAt rebuildsKey R.before.redis)
    (hcold : R.before.redis.get? (leaderboardKey R.period) = none) :
    R.Cold where
  coherent := h.quiescent.coherent
  idle := h.quiescent.idle
  boards := h.boards
  counts := hcounts
  cold := hcold
  credits := h.quiescent.credits
  volumes := fun m => by
    rw [h.quiescent.aggregated.volume]
    exact confirmedVolume_nonneg h.credits

end Steps

/-! ## The end of a race -/

/-- The volumes of the period before the race. -/
def table (R : RebuildRace) : UUID → ℤ := R.before.db.volume R.period

/-- What the batch adds to them. -/
def delta (R : RebuildRace) (w : World) : UUID → ℤ :=
  fun m => w.db.volume R.period m - R.table m

/-- A score to which the batch adds is rounded. -/
def gain (R : RebuildRace) (w : World) (scores : UUID → ℤ) : UUID → ℤ :=
  fun m => roundDouble (scores m + R.delta w m)

/-- The score of every merchant in the sorted set is its volume. -/
def Agrees (R : RebuildRace) (w : World) : Prop :=
  ∀ scores, w.redis.board R.period = some scores →
    ∀ m, scoresOf scores m = w.db.volume R.period m

section Ends

variable {R : RebuildRace} {c : Config services PyError}
  {g : List CacheStep} {rows : List LeaderboardRow} {new : List RawEvent}
  {w : World} {db : Db} {r : Except PyError Unit}

theorem Committed.volume (h : R.Committed new db) (m : UUID) :
    db.volume R.period m = R.table m + confirmedVolume R.period m new := by
  obtain ⟨ws, hdeltas, rfl⟩ := h.deltas
  exact hdeltas.volume R.period m

/-- The tables only grow. -/
theorem Writer.overlay (h : R.Writer w g new (.ret r)) :
    ∃ ws : Db, w.db = ws.overlay R.before.db := by
  cases h with
  | publishing _ hcommitted _ _ _ =>
      obtain ⟨ws, -, hdb⟩ := hcommitted.deltas
      exact ⟨ws, hdb⟩
  | nothing hdb _ => exact ⟨∅, hdb.trans (Db.empty_overlay _).symm⟩

/-- A batch that has ended has pushed what it committed, or had nothing to
push. -/
theorem Writer.ended (h : R.Writer w g new (.ret r)) :
    writings g = [.commit, .push] ∧ R.Committed new w.db ∨
      R.delta w = 0 ∧ (writings g = [] ∨ writings g = [.commit]) := by
  cases h with
  | publishing hpushes hcommitted _ _ hsteps =>
      cases hpushes with
      | finished _ =>
          unfold Pushed at hsteps
          split at hsteps
          · rename_i hnone
            refine .inr ⟨?_, hsteps⟩
            funext m
            show w.db.volume R.period m - R.table m = 0
            rw [hcommitted.volume, confirmedVolume_nil hnone]
            omega
          · rw [if_neg (by simp)] at hsteps
            exact .inl ⟨hsteps, hcommitted⟩
  | nothing hdb hsteps =>
      refine .inr ⟨?_, hsteps⟩
      funext m
      show w.db.volume R.period m - R.before.db.volume R.period m = 0
      rw [hdb]
      omega

/-- What the request has loaded when it asks for enough rows. -/
theorem Loaded.all (h : R.Loaded g db rows)
    (hdb : ∃ ws : Db, db = ws.overlay R.before.db)
    (hsize : db.rankedCount R.start R.stop ≤ R.size) :
    Before .commit .load g ∧ db.Ranking R.start R.stop rows ∨
      ¬ Before .commit .load g ∧ R.before.db.Ranking R.start R.stop rows := by
  obtain ⟨all, rfl, hall⟩ := h
  have hlength : ∀ {db : Db}, db.Ranking R.start R.stop all →
      all.length = db.rankedCount R.start R.stop := fun h =>
    h.perm.length_eq.trans (List.length_map _)
  rcases hall with ⟨hbefore, hall⟩ | ⟨hbefore, hall⟩
  · rw [List.take_of_length_le ((hlength hall).trans_le hsize)]
    exact .inl ⟨hbefore, hall⟩
  · obtain ⟨ws, rfl⟩ := hdb
    have hle := (rankedCount_le_overlay ws R.before.db R.start R.stop).trans hsize
    rw [List.take_of_length_le ((hlength hall).trans_le hle)]
    exact .inr ⟨hbefore, hall⟩

/-- A period without rows has no volume. -/
theorem volume_of_ranking_nil (h : db.Ranking R.start R.stop [])
    (hfirst : db.NoFirstRows) (m : UUID) : db.volume R.period m = 0 := by
  refine volume_of_not_ranked R.bounds hfirst fun hm => ?_
  have hmem := h.perm.symm.subset (List.mem_map_of_mem hm)
  cases hmem

/-- The state in which both have returned. -/
structure Ended (R : RebuildRace) (w : World) (g : List CacheStep)
    (rows : List LeaderboardRow) (new : List RawEvent) : Prop where
  stored : R.Stored w.redis g rows new
  reader : R.ReadSoFar g w.db rows .finished
  writer : writings g = [.commit, .push] ∧ R.Committed new w.db ∨
    R.delta w = 0 ∧ (writings g = [] ∨ writings g = [.commit])
  overlay : ∃ ws : Db, w.db = ws.overlay R.before.db

theorem Holds.ended (h : R.Holds c g rows new) {x y : Except PyError Unit}
    (hi : c.session R.i = .ret x) (hj : c.session R.j = .ret y) :
    R.Ended c.world g rows new := by
  obtain ⟨a, hreader⟩ := h.reader
  have hwriter := h.writer
  rw [hi] at hreader
  rw [hj] at hwriter
  have hleft := hreader.left
  cases hleft with
  | finished _ => exact ⟨h.stored, hreader.steps, hwriter.ended, hwriter.overlay⟩

/-- What is asked of the state in which both have returned: no payment on the
first of a month, a request for enough rows, and volumes that fit into a
score. -/
structure Ordinary (R : RebuildRace) (w : World) : Prop where
  first : w.db.NoFirstRows
  size : w.db.rankedCount R.start R.stop ≤ R.size
  exact : ∀ m, w.db.volume R.period m < 2 ^ 53

theorem Ordinary.first_before (h : R.Ordinary w)
    (hgrown : ∃ ws : Db, w.db = ws.overlay R.before.db) :
    R.before.db.NoFirstRows := by
  obtain ⟨ws, hdb⟩ := hgrown
  exact Db.NoFirstRows.of_overlay (hdb ▸ h.first)

theorem table_add_delta (R : RebuildRace) (w : World) :
    R.table + R.delta w = w.db.volume R.period := by
  funext m
  show R.table m + (w.db.volume R.period m - R.table m) = _
  omega

/-- Only what is pushed has been added. -/
theorem Ended.delta_eq (h : R.Ended w g rows new) (hpush : .push ∈ g) (m : UUID) :
    R.delta w m = confirmedVolume R.period m new := by
  rcases h.writer with ⟨-, hcommitted⟩ | ⟨-, hsteps⟩
  · show w.db.volume R.period m - R.table m = _
    rw [hcommitted.volume]
    omega
  · rw [mem_of_writings rfl] at hpush
    rcases hsteps with hg | hg <;> rw [hg] at hpush <;> simp at hpush

theorem Ended.delta_nonneg (h : R.Ended w g rows new) (hcold : R.Cold)
    (m : UUID) : 0 ≤ R.delta w m := by
  rcases h.writer with ⟨hg, hcommitted⟩ | ⟨hdelta, -⟩
  · have hpush : .push ∈ g := by
      rw [mem_of_writings rfl, hg]
      exact List.mem_cons_of_mem _ (List.mem_singleton_self _)
    rw [h.delta_eq hpush]
    exact confirmedVolume_nonneg fun e he =>
      hcold.credits e (hcommitted.known he)
  · rw [hdelta]
    rfl

/-- **Reader and writer have finished** in the sense of the abstract race. -/
theorem Ended.race (h : R.Ended w g rows new) (hcold : R.Cold)
    (hw : R.Ordinary w) : CacheRace (R.delta w) R.table g where
  reader := by
    refine h.reader.imp_right fun ⟨hpush, hrest⟩ => ⟨hpush, ?_⟩
    refine hrest.imp (fun ⟨hsteps, hloaded⟩ => ⟨hsteps, ?_⟩) And.left
    -- nothing was loaded, so there was nothing before either
    funext m
    have hnonneg := hcold.volumes m
    have hadded := h.delta_nonneg hcold m
    have hsum : R.table m + R.delta w m = w.db.volume R.period m :=
      congrFun (R.table_add_delta w) m
    rcases hloaded.all h.overlay hw.size with ⟨-, hnil⟩ | ⟨-, hnil⟩
    · have hzero := volume_of_ranking_nil hnil hw.first m
      show R.table m = 0
      change 0 ≤ R.table m at hnonneg
      omega
    · exact volume_of_ranking_nil hnil (hw.first_before h.overlay) m
  writer := h.writer.imp_left And.left

theorem Ended.bounds (h : R.Ended w g rows new) (hcold : R.Cold)
    (hw : R.Ordinary w) (m : UUID) : 0 ≤ R.table m ∧ 0 ≤ R.delta w m ∧
      R.table m + R.delta w m < 2 ^ 53 := by
  refine ⟨hcold.volumes m, h.delta_nonneg hcold m, ?_⟩
  have hsum : R.table m + R.delta w m = w.db.volume R.period m :=
    congrFun (R.table_add_delta w) m
  rw [hsum]
  exact hw.exact m

/-- **A batch counted once is exact**, and one counted twice is noticed. -/
theorem Ended.gains (h : R.Ended w g rows new) (hcold : R.Cold)
    (hw : R.Ordinary w) : Gains (R.gain w) (R.delta w) R.table where
  empty := by
    funext m
    obtain ⟨htable, hdelta, hlt⟩ := h.bounds hcold hw m
    show roundDouble (0 + R.delta w m) = R.delta w m
    rw [zero_add]
    exact roundDouble_eq_self (by omega)
  once := by
    funext m
    obtain ⟨htable, hdelta, hlt⟩ := h.bounds hcold hw m
    exact roundDouble_eq_self (by omega)
  twice := by
    rw [funext_iff, funext_iff]
    refine forall_congr' fun m => ?_
    obtain ⟨htable, hdelta, hlt⟩ := h.bounds hcold hw m
    have hsum : 0 ≤ (R.table + R.delta w) m := Int.add_nonneg htable hdelta
    change (R.table + R.delta w) m < 2 ^ 53 at hlt
    exact roundDouble_add_eq_self_iff hsum (by omega) hdelta

/-- What was stored is what the abstract reader has copied. -/
theorem Ended.scoresOf_stored (h : R.Ended w g rows new) (hcold : R.Cold)
    (hw : R.Ordinary w) (hstore : .store ∈ g) : scoresOf (boardOf rows) =
      (CacheState.run R.keeps (R.delta w) (R.gain w) R.table g).copy := by
  obtain ⟨hreads, hloaded⟩ :
      readings g = [.check, .load, .store] ∧ R.Loaded g w.db rows := by
    rw [mem_of_readings rfl] at hstore
    rcases h.reader with ⟨hg, -⟩ | ⟨-, ⟨hg, -⟩ | hg⟩
    · rw [hg] at hstore
      simp at hstore
    · rw [hg] at hstore
      simp at hstore
    · exact hg
  have hload : .load ∈ g := by
    rw [mem_of_readings rfl, hreads]
    exact List.mem_cons_of_mem _ List.mem_cons_self
  -- the query comes after the commit, or before it
  rcases @CacheRace.run_copy _ _ R.keeps _ _ _ _ (h.race hcold hw) hload with
    ⟨hbefore, hcopy⟩ | ⟨hbefore, hcopy⟩
  · rw [hcopy, table_add_delta]
    rcases hloaded.all h.overlay hw.size with ⟨-, hall⟩ | ⟨hnot, -⟩
    · refine scoresOf_boardOf hall R.bounds hw.first fun m => ?_
      obtain ⟨htable, hdelta, hle⟩ := h.bounds hcold hw m
      have hsum : R.table m + R.delta w m = w.db.volume R.period m :=
        congrFun (R.table_add_delta w) m
      change (w.db.volume R.period m).natAbs ≤ 2 ^ 53
      omega
    · exact absurd hbefore hnot
  · rw [hcopy]
    rcases hloaded.all h.overlay hw.size with ⟨hb, -⟩ | ⟨-, hall⟩
    · exact absurd hb hbefore
    · refine scoresOf_boardOf hall R.bounds (hw.first_before h.overlay)
        fun m => ?_
      obtain ⟨htable, hdelta, hle⟩ := h.bounds hcold hw m
      change (R.table m).natAbs ≤ 2 ^ 53
      omega

theorem Ended.scoresOf_pushed (h : R.Ended w g rows new) (hcold : R.Cold)
    (hw : R.Ordinary w) (hpush : .push ∈ g) {scores : Dict String ℤ}
    (hle : ∀ m, 0 ≤ scoresOf scores m ∧
      scoresOf scores m ≤ R.table m + R.delta w m) :
    scoresOf (gained scores (confirmedIn R.period new)) =
      R.gain w (scoresOf scores) := by
  funext m
  obtain ⟨htable, hdelta, hsum⟩ := h.bounds hcold hw m
  obtain ⟨hnonneg, hscore⟩ := hle m
  have heq := h.delta_eq hpush m
  rw [gain, heq]
  exact scoresOf_gained (by omega) (by omega)

/-- The sorted set represents the cache of the abstract race. -/
theorem Ended.cached (h : R.Ended w g rows new) (hcold : R.Cold)
    (hw : R.Ordinary w) : (w.redis.board R.period).map scoresOf =
      (CacheState.run R.keeps (R.delta w) (R.gain w) R.table g).cache := by
  have hrace := h.race hcold hw
  have hstored := fun hstore => h.scoresOf_stored hcold hw hstore
  rw [h.stored.board, RebuildRace.cached]
  refine hrace.view_cacheAfter hstored (fun hpush => ?_) fun hpush hstore => ?_
  · have hzero : scoresOf (∅ : Dict String ℤ) = 0 := rfl
    rw [Option.getD_none, h.scoresOf_pushed hcold hw hpush, hzero]
    intro m
    obtain ⟨htable, hdelta, -⟩ := h.bounds hcold hw m
    rw [hzero]
    show 0 ≤ 0 ∧ 0 ≤ R.table m + R.delta w m
    omega
  · rw [Option.getD_some]
    refine h.scoresOf_pushed hcold hw hpush fun m => ?_
    obtain ⟨htable, hdelta, -⟩ := h.bounds hcold hw m
    have hload : .load ∈ g := by
      rcases h.reader with ⟨hg, -⟩ | ⟨-, ⟨hg, -⟩ | ⟨hg, -⟩⟩ <;>
        rw [mem_of_readings rfl, hg] at hstore ⊢ <;> simp at hstore ⊢
    rw [hstored hstore]
    rcases @CacheRace.run_copy _ _ R.keeps _ _ _ _ hrace hload with
      ⟨-, hcopy⟩ | ⟨-, hcopy⟩ <;> rw [hcopy]
    · rw [Pi.add_apply]
      omega
    · omega

/-- **The sorted set is right in the end** if and only if the order of the steps
composes. -/
theorem rebuild_composes_iff (hcold : R.Cold)
    (hrun : Watched R.monitor (fun _ => callsOnly) R.initial [] c g)
    {x y : Except PyError Unit} (hi : c.session R.i = .ret x)
    (hj : c.session R.j = .ret y) (hlast : R.Ordinary c.world) :
    R.Agrees c.world ↔ Composes R.keeps (R.delta c.world) R.table g := by
  obtain ⟨rows, new, hholds⟩ := hcold.watched hrun
  have hended := hholds.ended hi hj
  have hrace := hended.race hcold hlast
  have hcached := hended.cached hcold hlast
  rw [← hrace.consistent_iff (hended.gains hcold hlast), CacheState.Consistent,
    ← hcached, hrace.run_table, table_add_delta, Agrees]
  cases c.world.redis.board R.period with
  | none => simp
  | some scores => simp [funext_iff]

end Ends

end RebuildRace

/-! ## Three orders -/

/-- A payment has been processed, its sorted set dropped, and a second payment
ingested. -/
def coldRun : Option World :=
  evictedRun.bind fun w =>
    (evalWith (M := services) (fun _ _ => true) 0 (Sample.ingestChoices 5 2)
      (ingestEventRequest (Sample.confirmed 'b' 100) >>= fun _ => pure ())
      w).map Prod.snd

/-- Session 2 asks for the leaderboard while session 1 processes the second
payment. -/
def mayRace (w : World) : RebuildRace where
  i := 2
  j := 1
  distinct := Nat.succ_ne_self 1
  reader := {}
  writer := Sample.worker "w"
  u := Sample.instant 0
  start := firstOfMay
  stop := firstOfJune
  bounds := monthBounds_may
  top_n := none
  before := w

namespace Sample

/-- The request looks at the key, asks the tables and stores the answer. -/
def rebuildChoices : List Choice :=
  [.clock (instant 7), .clock (instant 7), .auto, .auto, .merchants [7]] ++
    List.replicate 3 .auto

/-- The batch of the second payment, the commit being its ninth call. -/
def secondBatch : List Choice :=
  batchChoices 6 [row (confirmed 'a' 250) 1 3, row (confirmed 'b' 100) 2 5] 1

/-- What session 2 and session 1 do next. -/
def turns (l : List (List Choice × List Choice)) :
    List (Label services PyError) :=
  l.flatMap fun p => p.1.map (.call 2) ++ p.2.map (.call 1)

end Sample

/-- Replay a race after the second payment. -/
def raceRun (l : List (List Choice × List Choice)) :
    Option (World × Config services PyError × List CacheStep) :=
  coldRun.bind fun w =>
    (watch? (mayRace w).monitor (fun _ _ _ c ch => c.lets false ch)
      (mayRace w).initial [] (Sample.turns l)).map fun p => (w, p)

/-- The request has stored its answer before the batch commits. -/
def rebuildFirst : List (List Choice × List Choice) :=
  [(Sample.rebuildChoices, Sample.secondBatch)]

/-- The batch commits before the query and increments after the rebuild. -/
def rebuildBetween : List (List Choice × List Choice) :=
  [([], Sample.secondBatch.take 9),
    (Sample.rebuildChoices, Sample.secondBatch.drop 9)]

/-- The rebuild replaces the sorted set of a batch that its query missed. -/
def rebuildLate : List (List Choice × List Choice) :=
  [(Sample.rebuildChoices.take 5, Sample.secondBatch),
    (Sample.rebuildChoices.drop 5, [])]

/-- The program has come to its end. -/
def Sample.returned : Service Unit → Bool
  | .ret _ => true
  | .call _ _ => false

theorem Sample.eq_ret {p : Service Unit} (h : Sample.returned p = true) :
    ∃ x, p = .ret x := by
  cases p with
  | ret x => exact ⟨x, rfl⟩
  | call c k => cases h

/-- The state before the races is one between two moves. -/
theorem coldRun_settled {w : World} (hw : coldRun = some w) :
    Settled "w" w := by
  obtain ⟨w₀, hevicted, hrest⟩ := Option.bind_eq_some_iff.mp hw
  obtain ⟨⟨x₁, w₁⟩, h₁, rfl⟩ := Option.map_eq_some_iff.mp hrest
  have hbefore : ReflTransGen (Move (·.worker_id = "w"))
      (World.start Sample.merchants) w₀ :=
    (evictedRun_moves hevicted).lift id fun _ _ h => h.1
  have hmoves : ReflTransGen (Move (·.worker_id = "w"))
      (World.start Sample.merchants) w₁ :=
    hbefore.tail (.turn (.ingest (.event (Sample.confirmed 'b' 100))
      (eval_of_evalWith (fun _ _ _ => trivial) h₁)))
  exact settled_of_moves (fun _ h => h) hmoves

theorem mayRace_period (w : World) : (mayRace w).period = "2024-05" := by
  show periodKey (Sample.instant 0) = "2024-05"
  decide

theorem mayRace_cold {w : World} (hw : coldRun = some w) : (mayRace w).Cold := by
  have hkeys : coldRun.map (fun w =>
      ((w.redis.get? "leaderboard:volume:2024-05").isNone,
        (w.redis.get? rebuildsKey).isNone)) = some (true, true) := by
    decide +kernel
  rw [hw, Option.map_some, Option.some.injEq, Prod.mk.injEq,
    Option.isNone_iff_eq_none, Option.isNone_iff_eq_none] at hkeys
  obtain ⟨hcold, hrebuilds⟩ := hkeys
  refine .of_settled (R := mayRace w) (coldRun_settled hw) ?_ ?_
  · intro entry hentry
    change w.redis.get? rebuildsKey = some entry at hentry
    rw [hrebuilds] at hentry
    cases hentry
  · rw [mayRace_period]
    exact hcold

/-- A race after the second payment that has come to its end, the sorted set
listing `score` for the one merchant. -/
structure MayRaceEnds (score : ℤ) (w : World) (c : Config services PyError)
    (g : List CacheStep) : Prop where
  cold : (mayRace w).Cold
  watched : Watched (mayRace w).monitor (fun _ => callsOnly)
    (mayRace w).initial [] c g
  reader : ∃ x, c.session (mayRace w).i = .ret x
  writer : ∃ y, c.session (mayRace w).j = .ret y
  ordinary : (mayRace w).Ordinary c.world
  scores : ∃ scores, c.world.redis.board "2024-05" = some scores ∧
    scoresOf scores 7 = score
  volume : c.world.db.volume "2024-05" 7 = 350

theorem mayRaceEnds {l : List (List Choice × List Choice)} {score : ℤ}
    {g : List CacheStep} (htrace : (raceRun l).map (fun p => (p.2.2,
      Sample.returned (p.2.1.session 2), Sample.returned (p.2.1.session 1))) =
        some (g, true, true))
    (hstores : (raceRun l).map (fun p =>
      ((p.2.1.world.redis.board "2024-05").map (·.entries),
        (p.2.1.world.db.rollup .day).entries)) =
      some (some [("00000000-0000-0000-0000-000000000007", score)],
        [(⟨7, (Sample.instant 0).truncDay, .paymentConfirmed⟩,
          ⟨2, 350, some 100, some 250⟩)])) :
    ∃ w c, MayRaceEnds score w c g := by
  -- trace and stores are those of the one run
  obtain ⟨⟨w, c, g'⟩, hrun, heq⟩ := Option.map_eq_some_iff.mp htrace
  obtain ⟨hg, hrest⟩ := Prod.mk.inj heq
  obtain ⟨hreader, hwriter⟩ := Prod.mk.inj hrest
  rw [hrun, Option.map_some, Option.some.injEq, Prod.mk.injEq] at hstores
  obtain ⟨hboard, hrows⟩ := hstores
  obtain ⟨scores, hscores, hentries⟩ := Option.map_eq_some_iff.mp hboard
  obtain ⟨w', hw, hrest⟩ := Option.bind_eq_some_iff.mp hrun
  obtain ⟨p, hwatch, hp⟩ := Option.map_eq_some_iff.mp hrest
  cases hp
  subst hg
  refine ⟨w, c, mayRace_cold hw, ?_, Sample.eq_ret hreader,
    Sample.eq_ret hwriter, ⟨?_, ?_, fun m => ?_⟩, ⟨scores, hscores, ?_⟩, ?_⟩
  · refine watched_of_watch? (fun _ _ _ _ _ h => notifying_of_lets h)
      (fun _ l hl => ?_) hwatch
    obtain ⟨p, -, hp⟩ := List.mem_flatMap.mp hl
    rcases List.mem_append.mp hp with hp | hp <;>
      obtain ⟨ch, -, rfl⟩ := List.mem_map.mp hp <;> exact trivial
  · rw [Db.NoFirstRows, hrows]
    decide
  · refine (Db.rankedCount_le _ _ _).trans ?_
    rw [hrows]
    show 1 ≤ pageSize {} none
    decide
  · have hle : c.world.db.volume (mayRace w).period m ≤ 350 :=
      Db.volume_le hrows (by decide) (by decide) _ m
    omega
  · rw [scoresOf, Dict.get?, hentries]
    rfl
  · rw [Db.volume, hrows]
    decide

/-- **A batch is counted twice**, or not at all. -/
theorem rebuild_miscounts : (∃ w c g, MayRaceEnds 450 w c g) ∧
    ∃ w c g, MayRaceEnds 250 w c g := by
  constructor
  · obtain ⟨w, c, h⟩ := @mayRaceEnds rebuildBetween 450
      [.commit, .check, .load, .store, .push] (by decide +kernel)
      (by decide +kernel)
    exact ⟨w, c, _, h⟩
  · obtain ⟨w, c, h⟩ := @mayRaceEnds rebuildLate 250
      [.check, .load, .commit, .push, .store] (by decide +kernel)
      (by decide +kernel)
    exact ⟨w, c, _, h⟩

/-- The rebuild is over before the batch commits. -/
theorem rebuild_composes_first : ∃ w c g, MayRaceEnds 350 w c g ∧
    (mayRace w).Agrees c.world := by
  obtain ⟨w, c, h⟩ := @mayRaceEnds rebuildFirst 350
    [.check, .load, .store, .commit, .push] (by decide +kernel)
    (by decide +kernel)
  obtain ⟨x, hx⟩ := h.reader
  obtain ⟨y, hy⟩ := h.writer
  have hkeeps : (mayRace w).keeps = true := rfl
  refine ⟨w, c, _, h, (RebuildRace.rebuild_composes_iff h.cold h.watched hx hy
    h.ordinary).mpr ?_⟩
  simp [Composes, before_cons, before_nil, hkeeps]

end AnalyticsPipeline
