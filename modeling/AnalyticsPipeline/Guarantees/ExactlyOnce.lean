import AnalyticsPipeline.Metatheory.MarkedEvents

/-!
# Exactly-once aggregation

Workers that share one consumer id never aggregate an event twice and never
mark one they did not aggregate, however they are interleaved with ingestion,
with crashes and with replays from the start of the log. Workers with different
ids do, when they meet the same event: markers belong to a consumer, the rollup
tables to all of them.
-/

namespace AnalyticsPipeline

open Framework Relation

/-! ## Sample runs -/

namespace Sample

def merchants : List Merchant := [⟨7, "Acme"⟩]

def instant (minute : ℕ) : DateTime where
  year := 2024
  month := 5
  day := 2
  hour := 10
  minute := minute % 60
  second := 0
  microsecond := 0
  year_range := by decide
  month_range := by decide
  day_range := by decide
  time_range := ⟨by decide, Nat.mod_lt _ (by decide), by decide, by decide⟩

def payment (key : Char) (amount_cents : ℕ) : EventIngest where
  event_type := .paymentInitiated
  merchant_id := 7
  amount_cents := amount_cents
  currency := "EUR"
  idempotency_key := key.toString
  client_timestamp := none
  metadata := none
  amount_nonneg := Int.natCast_nonneg _
  key_length := by simp

/-- The row of an event without a client's time, ingested at `minute` in a
transaction begun then. -/
def row (e : EventIngest) (id : UUID) (minute : ℕ) : RawEvent :=
  { e.rawValues id (instant minute) with
    client_timestamp := none
    created_at := instant minute }

/-- A worker whose pages hold up to ten events. -/
def worker (worker_id : String) : Settings :=
  { worker_id, worker_batch_size := 10 }

abbrev Labels := List (Label services PyError)

/-- A whole request for one new event, its clocks at `minute`. -/
def ingest (i : ℕ) (e : EventIngest) (id : UUID) (minute : ℕ) : Labels :=
  [.spawn i (ingestEventRequest e >>= fun _ => pure ()),
    .call i (.clock (instant minute)), .call i .auto,
    .call i (.clock (instant minute)), .call i (.uuid id), .call i .auto,
    .call i .auto, .call i .auto, .call i .auto, .call i .auto, .call i .auto]

/-- A batch up to its fetch, which scans the rows in the order given. -/
def fetch (i : ℕ) (settings : Settings) (minute : ℕ)
    (scan : List RawEvent) : Labels :=
  [.spawn i (RollupWorker.processBatch settings >>= fun _ => pure ()),
    .call i (.clock (instant minute)), .call i .auto, .call i (.rows scan)]

/-- The markers, the upserts, the offset and the commit. -/
def store (i : ℕ) : Labels := List.replicate 6 (.call i .auto)

/-- The same when nothing is new. -/
def skip (i : ℕ) : Labels := List.replicate 3 (.call i .auto)

/-- The end of the session, and the heartbeat. -/
def close (i : ℕ) (minute : ℕ) : Labels :=
  [.call i .auto, .call i (.clock (instant minute)), .call i .auto]

section Admits

variable {pol : ServicePolicy} {i : ℕ} {minute : ℕ}

@[simp] theorem admits_ingest {e : EventIngest} {id : UUID} :
    (∀ l ∈ ingest i e id minute, pol.admits l) ↔
      pol.spawn i (ingestEventRequest e >>= fun _ => pure ()) := by
  simp only [ingest, List.forall_mem_cons, Policy.admits, List.not_mem_nil,
    false_imp_iff, implies_true, and_true]

@[simp] theorem admits_fetch {settings : Settings} {scan : List RawEvent} :
    (∀ l ∈ fetch i settings minute scan, pol.admits l) ↔
      pol.spawn i (RollupWorker.processBatch settings >>= fun _ => pure ()) := by
  simp only [fetch, List.forall_mem_cons, Policy.admits, List.not_mem_nil,
    false_imp_iff, implies_true, and_true]

@[simp] theorem admits_store : ∀ l ∈ store i, pol.admits l := by
  simp [store, Policy.admits]

@[simp] theorem admits_skip : ∀ l ∈ skip i, pol.admits l := by
  simp [skip, Policy.admits]

@[simp] theorem admits_close : ∀ l ∈ close i minute, pol.admits l := by
  simp [close, Policy.admits]

theorem admits_take {ls : Sample.Labels} (n : ℕ)
    (h : ∀ l ∈ ls, pol.admits l) : ∀ l ∈ ls.take n, pol.admits l :=
  fun l hl => h l (List.mem_of_mem_take hl)

theorem admits_drop {ls : Sample.Labels} (n : ℕ)
    (h : ∀ l ∈ ls, pol.admits l) : ∀ l ∈ ls.drop n, pol.admits l :=
  fun l hl => h l (List.mem_of_mem_drop hl)

end Admits

end Sample

/-! ## One consumer -/

/-- Any number of workers with one consumer id, ingestion, crashes at any step,
any interference from operators and from Redis. -/
def oneConsumer (consumer_id : String) : ServicePolicy where
  call := fun _ _ _ _ => True
  crash := fun _ _ => True
  spawn := fun _ p => ServiceProgram (fun s => s.worker_id = consumer_id) p
  env := fun _ _ => True

section OneConsumer

variable {consumer_id : String} {h h' : History}

theorem Serial.same_consumer
    (hc : ∀ m ∈ h.db.processed_rollup_events, m.consumer_id = consumer_id)
    (hs : Serial (fun s _ _ => s.worker_id = consumer_id) h h') :
    ∀ m ∈ h'.db.processed_rollup_events, m.consumer_id = consumer_id := by
  induction hs with
  | refl => exact hc
  | tail _ hstep ih =>
      cases hstep with
      | ingest hi =>
          intro m hm
          rw [History.install, Db.overlay_processed, hi.events.others,
            List.mem_append] at hm
          exact ih m (hm.resolve_right List.not_mem_nil)
      | batch hworker hb =>
          obtain ⟨ids, hmarks, -⟩ := hb.marks
          intro m hm
          rw [History.install, Db.overlay_processed, hmarks.written,
            List.mem_append, List.mem_map] at hm
          rcases hm with hm | ⟨u, -, rfl⟩
          · exact ih m hm
          · exact hworker
      | fetch _ _ => exact ih
      | deleteOffset c => exact ih

/-- Markers of one consumer are of different events. -/
theorem marked_once_of_same_consumer {db : Db} (hagg : Aggregated db)
    (hc : ∀ m ∈ db.processed_rollup_events, m.consumer_id = consumer_id) :
    (db.processed_rollup_events.map (·.event_id)).Nodup := by
  refine hagg.nodup.map_on fun m hm m' hm' heq => ?_
  obtain ⟨c, u⟩ := m
  obtain ⟨c', u'⟩ := m'
  have hcm := hc _ hm
  have hcm' := hc _ hm'
  simp only at heq hcm hcm'
  rw [heq, hcm, hcm']

theorem reach_oneConsumer {merchants : List Merchant}
    {c : Config services PyError}
    (hc : Reach (oneConsumer consumer_id)
      (Config.idle (World.start merchants)) c) :
    Deduplicated c.world.db ∧ Aggregated c.world.db ∧
      (c.world.db.processed_rollup_events.map (·.event_id)).Nodup := by
  have hcommits : Commits (oneConsumer consumer_id)
      (fun s => s.worker_id = consumer_id)
      (fun s _ _ => s.worker_id = consumer_id) :=
    fun hworker _ _ _ => hworker
  have hs : Serial (fun s _ _ => s.worker_id = consumer_id)
      (History.start merchants) c.world.toHistory :=
    (reach_serial (fun _ _ hp => hp) hcommits hc).2
  have hd := deduplicated_start merchants
  have hagg := Serial.aggregated hd (.start merchants) hs
  exact ⟨Serial.deduplicated hd hs, hagg, marked_once_of_same_consumer hagg
    (hs.same_consumer (by simp [History.start]))⟩

end OneConsumer

/-- The row is the summary of the amounts of the events that belong to it. -/
structure RollupRow.Summarizes (row : RollupRow) (amounts : List ℤ) : Prop where
  count : row.count = amounts.length
  sum : row.sum = amounts.sum
  min : row.min = amounts.min?
  max : row.max = amounts.max?

theorem summarizes_ofList (amounts : List ℤ) :
    RollupRow.Summarizes (Summary.ofList amounts) amounts :=
  ⟨Summary.ofList_count _, Summary.ofList_sum _, Summary.ofList_min _,
    Summary.ofList_max _⟩

theorem collect_summarizes {amounts : List ℤ} {row : RollupRow}
    (h : Summary.collect amounts = some row) : row.Summarizes amounts := by
  by_cases hnil : amounts = []
  · simp [hnil] at h
  · rw [Summary.collect_of_ne_nil hnil] at h
    cases h
    exact summarizes_ofList amounts

theorem collect_isSome_iff {amounts : List ℤ} :
    (∃ row, Summary.collect amounts = some row) ↔ amounts ≠ [] := by
  rw [← Option.ne_none_iff_exists', Ne, Summary.collect_eq_none_iff]

/-- **Exactly once**: in every reachable committed state, a rollup row exists
exactly when a marked event belongs to it, and summarizes exactly the marked
events that do. -/
theorem rollups_exactly_once (merchants : List Merchant) {consumer_id : String}
    {c : Config services PyError}
    (hc : Reach (oneConsumer consumer_id)
      (Config.idle (World.start merchants)) c)
    (g : RollupGranularity) (k : RollupKey) :
    ((∃ row, (c.world.db.rollup g).get? k = some row) ↔
      ∃ e ∈ c.world.db.raw_events,
        c.world.db.marked e = true ∧ e.rollupKey g = k) ∧
    ∀ row, (c.world.db.rollup g).get? k = some row →
      row.Summarizes
        (amountsAt g k (c.world.db.raw_events.filter c.world.db.marked)) := by
  obtain ⟨hd, hagg, honce⟩ := reach_oneConsumer hc
  rw [hagg.rollups_once hd honce g k]
  refine ⟨?_, fun row hrow => collect_summarizes hrow⟩
  rw [collect_isSome_iff, Ne, amountsAt_eq_nil_iff]
  simp only [List.mem_filter, not_forall, ne_eq, not_not, exists_prop]
  constructor
  · rintro ⟨e, ⟨he, hm⟩, hk⟩
    exact ⟨e, he, hm, hk⟩
  · rintro ⟨e, he, hm, hk⟩
    exact ⟨e, ⟨he, hm⟩, hk⟩

/-- One event is processed, the offset is deleted, and another worker with the
same id goes through the log again. -/
def replayedRun : Sample.Labels :=
  let worker := Sample.worker "w"
  let e := Sample.payment 'a' 250
  Sample.ingest 0 e 1 3 ++
    (Sample.fetch 1 worker 4 [Sample.row e 1 3] ++ Sample.store 1 ++
      Sample.close 1 4) ++
    [.env (.deleteOffset "w")] ++
    (Sample.fetch 2 worker 5 [Sample.row e 1 3] ++ Sample.skip 2 ++
      Sample.close 2 5)

theorem reach_replayedRun {c : Config services PyError}
    (hc : (Config.idle (World.start Sample.merchants)).replay?
      (fun _ _ _ _ => true) replayedRun = some c) :
    Reach (oneConsumer "w") (Config.idle (World.start Sample.merchants)) c := by
  refine reach_of_replay? (fun _ _ _ _ _ => trivial) ?_ hc
  simp only [replayedRun, List.forall_mem_append, Sample.admits_ingest,
    Sample.admits_fetch, List.forall_mem_singleton]
  exact ⟨⟨⟨.ingestEvent _, ⟨.processBatch _ rfl, Sample.admits_store⟩,
    Sample.admits_close⟩, fun _ => trivial⟩,
    ⟨.processBatch _ rfl, Sample.admits_skip⟩, Sample.admits_close⟩

theorem rollups_exactly_once_replayed : ∃ c : Config services PyError,
    Reach (oneConsumer "w") (Config.idle (World.start Sample.merchants)) c ∧
    (∃ row, (c.world.db.rollup .hour).get?
        ⟨7, (Sample.instant 0), .paymentInitiated⟩ = some row ∧
      row.count = 1 ∧ row.Summarizes (amountsAt .hour
        ⟨7, (Sample.instant 0), .paymentInitiated⟩
        (c.world.db.raw_events.filter c.world.db.marked))) := by
  have hrun : ((Config.idle (World.start Sample.merchants)).replay?
      (fun _ _ _ _ => true) replayedRun).map (fun c =>
        (c.world.db.rollup .hour).get?
          ⟨7, (Sample.instant 0), .paymentInitiated⟩) =
      some (some ⟨1, 250, some 250, some 250⟩) := by decide +kernel
  obtain ⟨c, hc, hrow⟩ := Option.map_eq_some_iff.mp hrun
  have hreach := reach_replayedRun hc
  exact ⟨c, hreach, _, hrow, rfl,
    (rollups_exactly_once _ hreach _ _).2 _ hrow⟩

/-! ## Several consumers -/

/-- Workers with any consumer ids. -/
def anyConsumers : ServicePolicy where
  call := fun _ _ _ _ => True
  crash := fun _ _ => True
  spawn := fun _ p => ServiceProgram (fun _ => True) p
  env := fun _ _ => True

/-- A commit writes no marker for an event that has one, whoever set it. -/
def commitsUnmarked (w : World) (i : ℕ) : Call → Bool
  | .commit _ =>
      match w.txs.get? i with
      | none => true
      | some tx => tx.writes.processed_rollup_events.all fun m =>
          m.event_id ∉ w.db.processed_rollup_events.map (·.event_id)
  | _ => true

/-- Workers with any consumer ids that process different events. -/
def separateConsumers : ServicePolicy :=
  { anyConsumers with call := fun w i c _ => commitsUnmarked w i c = true }

/-- Each raw event contributes at most once to the row. -/
structure RollupRow.CountsDistinct (row : RollupRow) (db : Db)
    (g : RollupGranularity) (k : RollupKey) : Prop where
  count : row.count ≤ (db.raw_events.filter (·.rollupKey g = k)).dedup.length
  sum : ∃ events : List RawEvent, events.Nodup ∧
    (∀ e ∈ events, e ∈ db.raw_events ∧ e.rollupKey g = k) ∧
    row.sum = (events.map fun e => e.amount_cents).sum

theorem Serial.marked_once {h h' : History}
    (honce : (h.db.processed_rollup_events.map (·.event_id)).Nodup)
    (hs : Serial (fun _ h new => ∀ e ∈ new, h.db.marked e = false) h h') :
    (h'.db.processed_rollup_events.map (·.event_id)).Nodup := by
  induction hs with
  | refl => exact honce
  | tail _ hstep ih =>
      cases hstep with
      | ingest hi =>
          rw [History.install, Db.overlay_processed, hi.events.others]
          simpa using ih
      | batch hnew hb =>
          obtain ⟨ids, hmarks, rfl⟩ := hb.marks
          rw [History.install, Db.overlay_processed, hmarks.written,
            List.map_append, List.nodup_append]
          simp only [List.map_map, Function.comp_def, List.map_id']
          refine ⟨ih, hmarks.nodup, ?_⟩
          rintro u hu _ hu' rfl
          obtain ⟨e, he, rfl⟩ := hmarks.paged u hu'
          have hunmarked := hnew e (List.mem_filter.mpr ⟨he, by simpa using hu'⟩)
          simp only [Db.marked, decide_eq_false_iff_not] at hunmarked
          exact hunmarked hu
      | fetch _ _ => exact ih
      | deleteOffset c => exact ih

theorem commits_unmarked : Commits separateConsumers (fun _ => True)
    (fun _ h new => ∀ e ∈ new, h.db.marked e = false) := by
  intro i w tx settings f new _ htx hpol hb e he
  obtain ⟨ids, hmarks, rfl⟩ := hb.marks
  obtain ⟨-, hid⟩ := List.mem_filter.mp he
  have hmem : (⟨settings.worker_id, e.id⟩ : ProcessedMarker) ∈
      tx.writes.processed_rollup_events := by
    rw [hmarks.written]
    exact List.mem_map_of_mem (f := fun u => (⟨settings.worker_id, u⟩ :
      ProcessedMarker)) (by simpa using hid)
  have hpol' : commitsUnmarked w i (.commit []) = true := hpol
  rw [commitsUnmarked, htx] at hpol'
  have hnot := List.all_eq_true.mp hpol' _ hmem
  simpa [Db.marked] using hnot

/-- **Several consumers**: while no event is committed under two markers, each
contributes to a rollup row at most once. -/
theorem rollups_count_distinct (merchants : List Merchant)
    {c : Config services PyError}
    (hc : Reach separateConsumers (Config.idle (World.start merchants)) c)
    (g : RollupGranularity) (k : RollupKey) (row : RollupRow)
    (hrow : (c.world.db.rollup g).get? k = some row) :
    row.CountsDistinct c.world.db g k := by
  have hs : Serial (fun _ h new => ∀ e ∈ new, h.db.marked e = false)
      (History.start merchants) c.world.toHistory :=
    (reach_serial (fun _ _ hp => hp) commits_unmarked hc).2
  have hd := Serial.deduplicated (deduplicated_start merchants) hs
  have honce := hs.marked_once (by simp [History.start])
  have hagg := Serial.aggregated (deduplicated_start merchants)
    (.start merchants) hs
  rw [hagg.rollups_once hd honce g k] at hrow
  have hsum := collect_summarizes hrow
  have hnd : c.world.db.raw_events.Nodup := hd.ids.of_map _
  refine ⟨?_, (c.world.db.raw_events.filter c.world.db.marked).filter
    (·.rollupKey g = k), (hnd.filter _).filter _, ?_, hsum.sum⟩
  · rw [hsum.count, amountsAt, List.length_map, (hnd.filter _).dedup]
    exact Int.ofNat_le.mpr
      ((List.filter_sublist.filter (fun e : RawEvent =>
        decide (e.rollupKey g = k))).length_le)
  · intro e he
    simp only [List.mem_filter, decide_eq_true_eq] at he
    exact ⟨he.1.1, he.2⟩

/-- Consumer `v` processes an event; then one that began earlier commits, and
consumer `w` fetches only that one. -/
def separateRun : Sample.Labels :=
  let e := Sample.payment 'a' 250
  let e' := Sample.payment 'b' 100
  Sample.ingest 0 e' 2 4 ++
    (Sample.fetch 1 (Sample.worker "v") 5 [Sample.row e' 2 4] ++
      Sample.store 1 ++ Sample.close 1 5) ++
    Sample.ingest 0 e 1 3 ++
    (Sample.fetch 2 { Sample.worker "w" with worker_batch_size := 1 } 6
      [Sample.row e' 2 4, Sample.row e 1 3] ++ Sample.store 2 ++
      Sample.close 2 6)

theorem rollups_count_distinct_separate : ∃ c : Config services PyError,
    Reach separateConsumers (Config.idle (World.start Sample.merchants)) c ∧
    ∃ row, (c.world.db.rollup .day).get?
        ⟨7, (Sample.instant 3).truncDay, .paymentInitiated⟩ = some row ∧
      row.CountsDistinct c.world.db .day
        ⟨7, (Sample.instant 3).truncDay, .paymentInitiated⟩ := by
  have hrun : ((Config.idle (World.start Sample.merchants)).replay?
      (fun w i s _ => commitsUnmarked w i s) separateRun).map (fun c =>
        (c.world.db.rollup .day).get?
          ⟨7, (Sample.instant 3).truncDay, .paymentInitiated⟩) =
      some (some ⟨2, 350, some 100, some 250⟩) := by decide +kernel
  obtain ⟨c, hc, hrow⟩ := Option.map_eq_some_iff.mp hrun
  have hreach : Reach separateConsumers
      (Config.idle (World.start Sample.merchants)) c := by
    refine reach_of_replay? (fun _ _ _ _ h => h) ?_ hc
    simp only [separateRun, List.forall_mem_append, Sample.admits_ingest,
      Sample.admits_fetch]
    exact ⟨⟨⟨.ingestEvent _, ⟨.processBatch _ trivial, Sample.admits_store⟩,
      Sample.admits_close⟩, .ingestEvent _⟩,
      ⟨.processBatch _ trivial, Sample.admits_store⟩, Sample.admits_close⟩
  exact ⟨c, hreach, _, hrow,
    rollups_count_distinct _ hreach _ _ _ hrow⟩

/-- Two consumers go through the same log of one event. -/
def sharedRun : Sample.Labels :=
  let e := Sample.payment 'a' 250
  Sample.ingest 0 e 1 3 ++
    (Sample.fetch 1 (Sample.worker "v") 4 [Sample.row e 1 3] ++
      Sample.store 1 ++ Sample.close 1 4) ++
    (Sample.fetch 2 (Sample.worker "w") 5 [Sample.row e 1 3] ++
      Sample.store 2 ++ Sample.close 2 5)

/-- Without the condition the rows double. -/
theorem shared_event_counted_twice :
    ¬ ∀ (merchants : List Merchant) (c : Config services PyError),
      Reach anyConsumers (Config.idle (World.start merchants)) c →
      ∀ g k row, (c.world.db.rollup g).get? k = some row →
        row.CountsDistinct c.world.db g k := by
  intro hall
  have hrun : ((Config.idle (World.start Sample.merchants)).replay?
      (fun _ _ _ _ => true) sharedRun).map (fun c =>
        ((c.world.db.rollup .day).get?
          ⟨7, (Sample.instant 3).truncDay, .paymentInitiated⟩,
          (c.world.db.raw_events.filter (·.rollupKey .day =
            ⟨7, (Sample.instant 3).truncDay, .paymentInitiated⟩)).dedup.length)) =
      some (some ⟨2, 500, some 250, some 250⟩, 1) := by decide +kernel
  obtain ⟨c, hc, hrow⟩ := Option.map_eq_some_iff.mp hrun
  have hreach : Reach anyConsumers
      (Config.idle (World.start Sample.merchants)) c := by
    refine reach_of_replay? (fun _ _ _ _ _ => trivial) ?_ hc
    simp only [sharedRun, List.forall_mem_append, Sample.admits_ingest,
      Sample.admits_fetch]
    exact ⟨⟨.ingestEvent _, ⟨.processBatch _ trivial, Sample.admits_store⟩,
      Sample.admits_close⟩, ⟨.processBatch _ trivial, Sample.admits_store⟩,
      Sample.admits_close⟩
  obtain ⟨hget, hlen⟩ := Prod.mk.inj hrow
  have hcount := (hall _ c hreach _ _ _ hget).count
  rw [hlen] at hcount
  exact absurd hcount (by decide)

end AnalyticsPipeline
