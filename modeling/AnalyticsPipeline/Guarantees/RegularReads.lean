import AnalyticsPipeline.Framework.Totals
import AnalyticsPipeline.Guarantees.CacheTransparency
import AnalyticsPipeline.Guarantees.ReadRequests
import AnalyticsPipeline.Metatheory.Growth
import AnalyticsPipeline.Metatheory.RollupReads

/-!
# Reads while tables grow

Between compactions the tables only grow. A metrics request that returns has
read them in the middle of everything else, and yet its points are those of the
tables at one moment of the run; so what is counted never goes back from one
request to the next.
-/

namespace AnalyticsPipeline

open Framework
open Prog (Meets)

/-- The whole system without the nightly job. -/
def withoutCompaction (ok : World → ℕ → Call → Choice → Prop) : ServicePolicy where
  call := ok
  crash := fun _ _ => True
  spawn := fun _ p => SystemProgram (fun _ => True) False p
  env := fun _ _ => True

section Runs

variable {ok : World → ℕ → Call → Choice → Prop} {i : ℕ} {w w' : World}

theorem grown_of_exec {c : Call} {ch : Choice} {x : c.Res}
    (hc : Served Stmt.Grows c) (hw : Growing w)
    (he : World.exec i c ch w = some (x, w')) :
    Growing w' ∧ w.db.Grown w'.db := by
  refine hw.effect (World.exec_effect he) ?_
  rintro s rfl
  cases hc with
  | sql hs => exact hs

theorem kept_growing (ok : World → ℕ → Call → Choice → Prop) :
    Kept (withoutCompaction ok) (Served Stmt.Grows)
      (fun w : World => w.redis.Typed ∧ Growing w) where
  spawn := fun h => h.only (fun _ hs => hs) fun h => absurd h id
  call := fun hc _ hw he => ⟨typed_of_exec hc hw.1 he, (grown_of_exec hc hw.2 he).1⟩
  crash := fun hw => ⟨hw.1, hw.2.dropTx _⟩
  env := fun _ hw he => ⟨redis_of_handle (R := Redis.Typed)
    (fun hr => hr.erase _) hw.1 he, (hw.2.handle he).1⟩

theorem growing_of_idle {w : World} (h : w.txs = ∅) : Growing w where
  disjoint := fun _ htx => by
    rw [h] at htx
    cases htx
  pending := fun htx => by
    rw [h] at htx
    cases htx

/-- **The tables only grow**: from any point of any run without compaction to
any later one, all logs are extended, no rollup row disappears, every count and
maximum rises or stays and every minimum falls or stays, whatever sessions crash
or abort in between. -/
theorem tables_only_grow {w : World} (hw : Growing w)
    {c c' : Config services PyError}
    (hc : Reach (withoutCompaction ok) (Config.idle w) c)
    (hc' : Reach (withoutCompaction ok) c c') :
    c.world.db.Grown c'.world.db := by
  have hkept (a : Db) : Kept (withoutCompaction ok) (Served Stmt.Grows)
      (fun w : World => Growing w ∧ a.Grown w.db) := by
    refine ⟨(kept_growing ok).spawn, ?_, ?_, ?_⟩
    · intro i c ch x w w' hserved _ hw he
      obtain ⟨hgrowing, hgrown⟩ := grown_of_exec hserved hw.1 he
      exact ⟨hgrowing, hw.2.trans hgrown⟩
    · exact fun hw => ⟨hw.1.dropTx _, hw.2⟩
    · intro e w w' _ hw he
      obtain ⟨hgrowing, hgrown⟩ := hw.1.handle he
      exact ⟨hgrowing, hw.2.trans hgrown⟩
  obtain ⟨⟨hgrowing, -⟩, hall⟩ := (hkept w.db).reach_idle ⟨hw, .refl _⟩ hc
  exact ((hkept c.world.db).reach ⟨hgrowing, .refl _⟩ hall hc').1.2

end Runs

theorem tables_only_grow_aggregated : ∃ c c' : Config services PyError,
    c.world.db.raw_events.length = 1 ∧
      (c'.world.db.rollup .hour).entries.length = 1 ∧
      c.world.db.Grown c'.world.db := by
  let e := Sample.payment 'a' 250
  have hrun : ((Config.idle (World.start Sample.merchants)).replay?
      (fun _ _ _ _ => true) (Sample.ingest 0 e 1 3)).bind (fun c =>
        (c.replay? (fun _ _ _ _ => true)
          (Sample.fetch 1 (Sample.worker "w") 4 [Sample.row e 1 3] ++
            Sample.store 1)).map fun c' =>
          (c.world.db.raw_events.length,
            (c'.world.db.rollup .hour).entries.length)) = some (1, 1) := by
    decide +kernel
  obtain ⟨c, hc, hrest⟩ := Option.bind_eq_some_iff.mp hrun
  obtain ⟨c', hc', hlengths⟩ := Option.map_eq_some_iff.mp hrest
  obtain ⟨hraw, hhour⟩ := Prod.mk.inj hlengths
  have hreach : Reach (withoutCompaction fun _ _ _ _ => True)
      (Config.idle (World.start Sample.merchants)) c :=
    reach_of_replay? (fun _ _ _ _ _ => trivial)
      (Sample.admits_ingest.mpr (.service (.ingestEvent e))) hc
  have hreach' : Reach (withoutCompaction fun _ _ _ _ => True) c c' := by
    refine reach_of_replay? (fun _ _ _ _ _ => trivial) ?_ hc'
    rw [List.forall_mem_append, Sample.admits_fetch]
    exact ⟨.service (.processBatch _ trivial), Sample.admits_store⟩
  exact ⟨c, c', hraw, hhour,
    tables_only_grow (growing_of_idle rfl) hreach hreach'⟩

/-! ## Totals -/

/-- The events counted in a range. -/
def Db.total (db : Db) (g : RollupGranularity) (m : UUID) (start stop : ℤ) : ℤ :=
  ((db.points g m start stop).map (·.count)).sum

theorem Db.Grown.total_le {a b : Db} (h : a.Grown b) (g : RollupGranularity)
    (m : UUID) (start stop : ℤ) : a.total g m start stop ≤ b.total g m start stop := by
  have hrows : ∀ db : Db, db.total g m start stop =
      (((db.rollup g).entries.filter fun e =>
        decide (e.1.merchant_id = m) && Stmt.between start stop e.1.bucket).map
          fun e => e.2.count).sum := by
    intro db
    rw [Db.total, Db.points, groupBuckets_count, Stmt.sumCount, Db.bucketRows,
      Stmt.merchantRows, List.filter_filter]
    congr 2
    refine List.filter_congr fun e _ => ?_
    rw [Bool.and_comm]
  rw [hrows, hrows]
  refine Dict.total_le (f := fun row : RollupRow => row.count) (fun k => ?_)
    (fun k hk => ?_) (fun k hk => ?_)
    fun k : RollupKey =>
      decide (k.merchant_id = m) && Stmt.between start stop k.bucket
  · rw [Dict.measure, Dict.measure]
    cases hb : (b.rollup g).get? k with
    | none => rw [h.kept g k hb]
    | some row =>
        have hext := h.rows g k row hb
        cases ha : (a.rollup g).get? k with
        | none =>
            rw [ha] at hext
            exact hext
        | some old =>
            rw [ha] at hext
            exact hext.count
  · by_contra hnot
    have hnone := h.kept g k (Dict.get?_eq_none_iff.mpr hnot)
    exact Dict.get?_eq_none_iff.mp hnone hk
  · rw [Dict.measure]
    cases hb : (b.rollup g).get? k with
    | none => exact le_rfl
    | some row =>
        have hext := h.rows g k row hb
        rw [Dict.get?_eq_none_iff.mpr hk] at hext
        exact hext

/-! ## Requests -/

/-- A call of a reading request. -/
abbrev RequestCall : Call → Prop := Served fun s => s.Reads ∧ s.Grows

/-- The session has written nothing. -/
def Unwritten (i : ℕ) (w : World) : Prop :=
  ∀ tx, w.txs.get? i = some tx → tx.writes = ∅

/-- What a statement that succeeds answers is read off the tables. -/
def ReadOff (w : World) : (c : Call) → c.Res → Prop
  | .sql s, x => ∀ y, x = .ok y →
      ∃ now ch, s.run now ch w.db = some (.ok (y, ∅))
  | .redisGet key, x => ∀ d, x = .ok d → Found key d
  | _, _ => True

section Steps

variable {pol : ServicePolicy} {i : ℕ} {w w' : World}

theorem unwritten_of_eq (h : Unwritten i w)
    (htx : w'.txs.get? i = w.txs.get? i) : Unwritten i w' := by
  rw [Unwritten, htx]
  exact h

/-- **A reading step** reads the committed tables and leaves them alone. -/
theorem readOff_of_exec {c : Call} {ch : Choice} {x : c.Res}
    (hc : RequestCall c) (hw : w.redis.Typed) (hclean : Unwritten i w)
    (he : World.exec i c ch w = some (x, w')) :
    ReadOff w c x ∧ Unwritten i w' := by
  have hreads : ∀ s, c = .sql s → s.Reads := by
    rintro s rfl
    cases hc with
    | sql hs => exact hs.1
  constructor
  · cases c with
    | sql s =>
        have he' : w.execSql i s ch = some (x, w') := by
          cases ch <;> exact he
        intro y hy
        rcases World.execSql_eq_some he' with ⟨-, rfl, -⟩ | ⟨tx, htx, -, -, hrun⟩
        · cases hy
        · rcases hrun with ⟨e, -, rfl, -⟩ | ⟨z, ws, hrun, rfl, -⟩
          · cases hy
          · cases hy
            obtain ⟨v, hv⟩ := hreads s rfl hrun
            rw [World.view, hclean tx htx, Db.empty_overlay] at hrun
            cases hv
            exact ⟨tx.now, ch, hrun⟩
    | redisGet key =>
        intro d hd
        cases ch <;> simp only [World.exec, reduceCtorEq, Option.some.injEq,
          Prod.mk.injEq] at he
        · exact hw.found (he.1.trans hd)
        · rw [← he.1] at hd
          cases hd
    | _ => trivial
  · cases World.exec_effect he with
    | quiet r => exact unwritten_of_eq hclean rfl
    | begin t _ =>
        intro tx htx
        rw [World.get?_setTx, if_pos rfl] at htx
        cases htx
        rfl
    | drop =>
        intro tx htx
        rw [World.get?_dropTx, if_pos rfl] at htx
        cases htx
    | issue u _ _ => exact unwritten_of_eq hclean rfl
    | abort tx _ =>
        intro tx' htx'
        rw [World.get?_setTx, if_pos rfl] at htx'
        cases htx'
        rfl
    | wrote tx s ch y ws hs htx _ hrun =>
        obtain ⟨v, hv⟩ := hreads s hs hrun
        cases hv
        intro tx' htx'
        rw [World.get?_setTx, if_pos rfl] at htx'
        cases htx'
        show (∅ : Db).overlay tx.writes = ∅
        rw [Db.empty_overlay]
        exact hclean tx htx
    | commit tx answers _ _ _ =>
        intro tx' htx'
        rw [World.get?_dropTx, if_pos rfl] at htx'
        cases htx'

end Steps

/-! ### Bodies -/

/-- Answered out of databases of which `D` holds, the program returns, if
anything, what `R` says. -/
abbrev Yields {α : Type} (D : Db → Prop) (R : α → Prop) (p : Service α) : Prop :=
  Meets RequestCall (fun s x => ∃ w : World, D w.db ∧ ReadOff w s x)
    (fun r => ∀ a, r = .ok a → R a) p

section Yields

variable {α β : Type} {D : Db → Prop} {R : α → Prop} {R' : β → Prop}
  {p : Service α}

theorem yields_ret {a : α} (h : R a) : Yields D R (.ret (.ok a) : Service α) :=
  .ret fun _ hb => by
    cases hb
    exact h

theorem yields_error {e : PyError} : Yields D R (.ret (.error e) : Service α) :=
  .ret fun _ hb => by cases hb

theorem Yields.bind {f : α → Service β} (hp : Yields D R p)
    (hf : ∀ a, R a → Yields D R' (f a)) : Yields D R' (p >>= f) :=
  Meets.bind hp (fun a ha => hf a (ha a rfl)) fun _ _ _ hb => by cases hb

theorem Yields.tryCatch {handler : PyError → Service α} (hp : Yields D R p)
    (hh : ∀ e, Yields D R (handler e)) : Yields D R (tryCatch p handler) :=
  Meets.tryCatch hp (fun _ ha => ha) fun e _ => hh e

theorem yields_execute {s : Stmt} (hreads : s.Reads) (hgrows : s.Grows) :
    Yields D (fun y => ∃ db, D db ∧ ∃ now ch, s.run now ch db = some (.ok (y, ∅)))
      (execute s) := by
  rw [execute_eq]
  refine .call (.sql ⟨hreads, hgrows⟩) ?_
  rintro x ⟨w, hD, hx⟩
  cases x with
  | error e => exact yields_error
  | ok y => exact yields_ret ⟨w.db, hD, hx y rfl⟩

theorem yields_write {transaction : Bool} {ops : List RedisOp}
    (h : Pipeline transaction ops) :
    Yields D (fun _ => True) (RedisRepository.write transaction ops) := by
  refine .call (.write h) fun x _ => ?_
  cases x with
  | error e => exact yields_error
  | ok y => exact yields_ret trivial

theorem yields_cacheGet {key : String} (hkey : CacheKey key) :
    Yields D (Found key) (RedisRepository.cacheGet key) := by
  refine .call (.get hkey) ?_
  rintro x ⟨w, -, hx⟩
  cases x with
  | error e => exact yields_error
  | ok d => exact yields_ret (hx d rfl)

theorem yields_latencyMs (t₀ : ℚ) :
    Yields D (fun _ => True) (QueryService.latencyMs t₀) :=
  .call .monotonic fun _ _ => yields_ret trivial

/-- Around the body, the request begins and ends its transaction. -/
theorem yields_getDb {answers : α → Answers} (hp : Yields D R p) :
    Yields D R (getDb answers p) := by
  have hrollback : ∀ {r : Except PyError α}, (∀ a, r = .ok a → R a) →
      Yields D R (.call .rollback fun _ => .ret r : Service α) :=
    fun hr => .call .rollback fun _ _ => .ret hr
  have herror : ∀ e : PyError,
      Yields D R (.call .rollback fun _ => .ret (.error e) : Service α) :=
    fun e => hrollback fun _ h => by cases h
  have hserved : Yields D R (p >>= fun x =>
      perform (.commit (answers x)) >>= fun _ => pure x) :=
    hp.bind fun a ha => .call (.commit _) fun _ _ => yields_ret ha
  refine .call .begin fun _ _ => ?_
  exact ((hserved.tryCatch herror).tryCatch herror).bind fun a ha =>
    hrollback fun b hb => by
      cases hb
      exact ha

end Yields

/-- What a response says of the tables: its points are those of one of them, its
rate that of one of them, its totals those of its points. -/
structure MetricsOf (D : Db → Prop) (settings : Settings) (m : UUID)
    (start stop : AwareDateTime) (a : MetricsResponse) : Prop where
  points : ∃ db, D db ∧ a.data = (db.points (selectGranularity settings start stop).1
    m start.instant stop.instant).map BucketRow.dataPoint
  rate : ∃ db, D db ∧ a.success_rate = successRate
    (db.outcomes m start.instant stop.instant .paymentConfirmed)
    (db.outcomes m start.instant stop.instant .paymentFailed)
  volume : a.total_volume_cents = (a.data.map (·.volume_cents)).sum
  count : a.total_count = (a.data.map (·.count)).sum

section Metrics

variable {D : Db → Prop} {settings : Settings} {m : UUID}
  {start stop : AwareDateTime}

theorem yields_queryRows (g : RollupGranularity) :
    Yields D (fun rows => ∃ db, D db ∧
      rows = db.points g m start.instant stop.instant)
      (QueryService.queryRows g m start stop) := by
  have hrun : Yields D (fun rows => ∃ db, D db ∧
      rows = db.points g m start.instant stop.instant)
      (execute (.selectBuckets g m start.instant stop.instant)) := by
    refine (yields_execute (reads_selectBuckets g m _ _) trivial).mono ?_
    intro r hr rows hrows
    obtain ⟨db, hD, now, ch, hrun⟩ := hr rows hrows
    cases hrun
    exact ⟨db, hD, rfl⟩
  cases g <;> exact hrun

theorem yields_querySuccessRate :
    Yields D (fun rate => ∃ db, D db ∧ rate = successRate
      (db.outcomes m start.instant stop.instant .paymentConfirmed)
      (db.outcomes m start.instant stop.instant .paymentFailed))
      (RollupRepository.querySuccessRate m start stop) := by
  refine (yields_execute (reads_selectOutcomes m _ _) trivial).bind ?_
  rintro row ⟨db, hD, now, ch, hrun⟩
  refine yields_ret ⟨db, hD, ?_⟩
  simp only [Stmt.run] at hrun
  split at hrun
  · rename_i hnil
    have hnone : db.bucketRows .hour m start.instant stop.instant = [] := hnil
    cases hrun
    rw [Db.outcomes, Db.outcomes, hnone]
    rfl
  · cases hrun
    rfl

theorem yields_getMerchantMetrics :
    Yields D (MetricsOf D settings m start stop)
      (QueryService.getMerchantMetrics settings m start stop) := by
  rw [QueryService.getMerchantMetrics, perform_bind]
  refine .call .monotonic fun t₀ _ => ?_
  refine Yields.bind (R := Found (metricCacheKey m start stop _))
    (yields_cacheGet (.metrics m start stop _)) fun cached hcached => ?_
  cases hdoc : cached.filter Document.truthy with
  | some document =>
      -- a cached response is not rebuilt
      have hsome : cached = some document := (Option.filter_eq_some_iff.mp hdoc).1
      have hfits := hcached document hsome
      rw [keyKind_metrics] at hfits
      obtain ⟨a, ha⟩ := hfits
      cases ha
      refine (yields_write .hit).bind fun _ _ => ?_
      refine (yields_latencyMs t₀).bind fun latency _ => ?_
      rw [keywords_dump]
      exact yields_error
  | none =>
      dsimp only
      rw [QueryService.computedMetrics]
      refine (yields_write .miss).bind fun _ _ => ?_
      refine (yields_queryRows _).bind fun rows hrows => ?_
      refine yields_querySuccessRate.bind fun rate hrate => ?_
      refine (yields_latencyMs t₀).bind fun latency _ => ?_
      refine (yields_write (.metrics m start stop _ _ _)).bind fun _ _ => ?_
      refine yields_ret ⟨?_, hrate, rfl, rfl⟩
      obtain ⟨db, hD, rfl⟩ := hrows
      exact ⟨db, hD, rfl⟩

end Metrics

/-! ## In the whole system -/

section Requests

variable {ok : World → ℕ → Call → Choice → Prop} {i : ℕ}

/-- A step of another session lets the tables grow. -/
theorem grown_of_other {w w' : World}
    (hstep : OtherStep ((withoutCompaction ok).only (Served Stmt.Grows)) i w w')
    (hw : Growing w) : w.db.Grown w'.db := by
  match hstep with
  | .call _ hcall he => exact (grown_of_exec hcall.1 hw he).2
  | .crash _ => exact .refl _
  | .env _ he => exact (hw.handle he).2

theorem only_metricsRequest (settings : Settings) (m : UUID)
    (start stop : AwareDateTime) :
    Prog.Only (Served Stmt.Grows) (metricsRequest settings m start stop) :=
  only_getDb (only_getMerchantMetrics (fun _ => Stmt.grows_of_queries) settings m
    start stop)

/-- **A metrics request reads regularly**: while any number of sessions ingest,
aggregate, crash and read, the points of a response are exactly those of the
tables at one moment of the request, the success rate is that of the tables at
another, and the events it counts are no fewer than there were at its start and
no more than there are at its end. -/
theorem metrics_read_regularly {w : World} (hw : Growing w)
    (htyped : w.redis.Typed) {c c' : Config services PyError}
    (hc : Reach (withoutCompaction ok) (Config.idle w) c)
    (hidle : c.world.txs.get? i = none) {settings : Settings} {m : UUID}
    {start stop : AwareDateTime} {passed : List World} {a : MetricsResponse}
    (h : Passage (withoutCompaction ok) i (metricsRequest settings m start stop) c
      passed (.ok a) c') :
    MetricsOf (· ∈ passed.map (·.db)) settings m start stop a ∧
      c.world.db.total (selectGranularity settings start stop).1 m
          start.instant stop.instant ≤ a.total_count ∧
      a.total_count ≤ c'.world.db.total (selectGranularity settings start stop).1
        m start.instant stop.instant := by
  obtain ⟨hgood, hall⟩ := (kept_growing ok).reach_idle ⟨htyped, hw⟩ hc
  have hclean : Unwritten i c.world := fun tx htx => by
    rw [hidle] at htx
    cases htx
  have hof : MetricsOf (· ∈ passed.map (·.db)) settings m start stop a := by
    have hyields : Yields (· ∈ passed.map (·.db))
        (MetricsOf (· ∈ passed.map (·.db)) settings m start stop)
        (metricsRequest settings m start stop) :=
      yields_getDb yields_getMerchantMetrics
    have hown : ∀ {s : Call} {ch : Choice} {x : s.Res} {w w' : World},
        RequestCall s → w.redis.Typed ∧ Growing w → Unwritten i w →
          World.exec i s ch w = some (x, w') → ReadOff w s x ∧ Unwritten i w' :=
      fun hs hw hclean he => readOff_of_exec hs hw.1 hclean he
    refine Meets.passage (kept_growing ok) (fun _ hs => hs.mono fun _ hs => hs.2)
      hown (fun hstep hclean => unwritten_of_eq hclean (tx_of_other hstep)) h hgood
      hclean (fun j _ => hall j) (hyields.restrict ?_) a rfl
    rintro s x ⟨v, hv, hx⟩
    exact ⟨v, List.mem_map_of_mem (f := (·.db)) hv, hx⟩
  have hbetween := (Kept.between (G := fun w w' : World => w.db.Grown w'.db)
    (kept_growing ok) (fun _ => .refl _) (fun h h' => h.trans h')
    (fun hs hw he => (grown_of_exec hs hw.2 he).2)
    (fun hw hstep => grown_of_other hstep hw.2) h hgood (fun j _ => hall j)
    (only_metricsRequest settings m start stop)).2
  obtain ⟨db, hdb, hdata⟩ := hof.points
  obtain ⟨v, hv, rfl⟩ := List.mem_map.mp hdb
  obtain ⟨hbefore, hafter⟩ := hbetween v hv
  have hcount : a.total_count =
      v.db.total (selectGranularity settings start stop).1 m start.instant
        stop.instant := by
    rw [hof.count, hdata, List.map_map]
    rfl
  rw [hcount]
  exact ⟨hof, hbefore.total_le _ _ _ _, hafter.total_le _ _ _ _⟩

end Requests

/-- One payment is counted once. -/
theorem metrics_read_regularly_once : ∃ a passed c',
    Passage (withoutCompaction fun _ _ _ _ => True) 0
      (metricsRequest {} 7 (.utc (Sample.instant 0)) (.utc (Sample.instant 59)))
      (Config.idle onePayment) passed (.ok a) c' ∧ 1 ≤ a.total_count := by
  have hmiss : onePayment.redis.misses (metricCacheKey 7 (.utc (Sample.instant 0))
      (.utc (Sample.instant 59)) (selectGranularity {} (.utc (Sample.instant 0))
        (.utc (Sample.instant 59))).1.value) := ⟨none, rfl, rfl⟩
  obtain ⟨a, w', he⟩ := exists_eval_metricsRequest (i := 0) (w := onePayment) rfl
    hmiss (fun _ hget => by cases hget) (by decide)
  have hrun : Amidst (withoutCompaction fun _ _ _ _ => True) 0
      (metricsRequest {} 7 (.utc (Sample.instant 0)) (.utc (Sample.instant 59)))
      (Config.idle onePayment) (.ok a) _ :=
    he.amidst (fun _ _ _ _ => trivial) rfl
  obtain ⟨passed, hpassage⟩ := amidst_iff_passage.mp hrun
  have hcounted := (metrics_read_regularly (growing_of_idle rfl) typed_empty .refl
    rfl hpassage).2.1
  have htotal : onePayment.db.total .minute 7 (Sample.instant 0).micros
      (Sample.instant 59).micros = 1 := by decide +kernel
  exact ⟨a, passed, _, hpassage, htotal ▸ hcounted⟩

end AnalyticsPipeline
