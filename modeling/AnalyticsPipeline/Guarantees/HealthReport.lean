import AnalyticsPipeline.Guarantees.CommitOrder
import AnalyticsPipeline.Metatheory.OffsetWrites
import AnalyticsPipeline.Model.Routes

/-!
# What the health report says about the worker

The lag of the report is the age of the last processed event. An event is
pending exactly when it is later than that one, so the report is right about a
worker that is behind only as far as the two ages agree: not in a pause of the
traffic, and not within the half tenth of a second that rounding hides.
-/

namespace AnalyticsPipeline

open Framework

/-! ## The lag -/

theorem abs_micros_sub_lt (s t : DateTime) :
    |(s.micros : ℤ) - t.micros| < 2 ^ 60 := by
  have hmicros : ∀ t : DateTime, t.micros < 2 ^ 60 := by
    intro t
    have hday := t.ordinal_le_maxOrdinal
    have htime := t.timeOfDay_lt
    unfold DateTime.micros
    unfold DateTime.maxOrdinal at hday
    unfold DateTime.dayMicros at htime ⊢
    omega
  have hs := hmicros s
  have ht := hmicros t
  rw [abs_lt]
  omega

theorem abs_totalSeconds_lt {d : ℤ} (hd : |d| < 2 ^ 60) :
    |totalSeconds d| < 2 ^ 42 := by
  have hcast : |(d : ℚ)| < 2 ^ 60 := by exact_mod_cast hd
  have hexact : |(d : ℚ) / 1000000| < 2 ^ 41 := by
    rw [abs_div]
    norm_num at hcast ⊢
    linarith
  have herr := abs_le.mp (abs_binary64_sub_le ((d : ℚ) / 1000000))
  have hd' := abs_lt.mp hexact
  unfold totalSeconds
  rw [abs_lt]
  constructor <;> linarith [herr.1, herr.2]

theorem roundTo_one (x : ℚ) : roundTo 1 x = (nearestEven (x * 10) : ℚ) / 10 := by
  unfold roundTo nearestEven
  norm_num

theorem abs_nearestEven_tenths_lt {x : ℚ} (hx : |x| < 2 ^ 42) :
    |nearestEven (x * 10)| < 2 ^ 49 := by
  have hsmall := abs_lt.mp hx
  have hnear := abs_le.mp (abs_nearestEven_sub_le (x * 10))
  have hcast : |(nearestEven (x * 10) : ℚ)| < 2 ^ 49 := by
    rw [abs_lt]
    constructor <;> linarith [hsmall.1, hsmall.2, hnear.1, hnear.2]
  exact_mod_cast hcast

theorem lt_tenths_iff (n k : ℤ) : (n : ℚ) < (k : ℚ) / 10 ↔ 10 * n < k := by
  rw [lt_div_iff₀ (by norm_num), mul_comm]
  exact_mod_cast Iff.rfl

/-- The lag rounds to tenths, and up to half a tenth rounds down to the
threshold. -/
theorem lt_lagSeconds_iff (now last : DateTime) (n : ℤ) :
    (n : ℚ) < lagSeconds now last ↔
      (n : ℚ) + 1 / 20 < totalSeconds ((now.micros : ℤ) - last.micros) := by
  have hx := abs_totalSeconds_lt (abs_micros_sub_lt now last)
  unfold lagSeconds
  generalize totalSeconds ((now.micros : ℤ) - last.micros) = x at hx ⊢
  rw [roundTo_one, lt_binary64_tenth_iff (abs_nearestEven_tenths_lt hx),
    lt_tenths_iff, lt_nearestEven_iff (by omega)]
  push_cast
  constructor <;> intro h <;> linarith

/-! ## The runs -/

/-- The order of the log is that of time, and so is the order of events. -/
def TimeOrdered (log : List RawEvent) : Prop :=
  (log.Pairwise fun a b => a.created_at < b.created_at) ∧
    ∀ r ∈ log, r.occurred_at = r.created_at

instance TimeOrdered.instDecidable (log : List RawEvent) :
    Decidable (TimeOrdered log) :=
  inferInstanceAs (Decidable (_ ∧ _))

/-- After the commit the log is still in the order of time. -/
def commitsInTime (w : World) (i : ℕ) : Call → Bool
  | .commit _ =>
      match w.txs.get? i with
      | none => true
      | some tx => TimeOrdered (w.db.raw_events ++ tx.writes.raw_events)
  | _ => true

/-- Session 0 is the worker of the configured consumer, the others ingest; any
of them may break off anywhere. -/
def inTimeOrder (settings : Settings) : ServicePolicy where
  call := fun w i c _ => commitsInTime w i c = true
  crash := fun _ _ => True
  spawn := fun i p => ServiceProgram (fun s => i = 0 ∧ s = settings) p
  env := fun _ e => ∃ key, e = .evict key

/-- The same, with what is known of the transactions beside the worker. -/
def besideWorker (settings : Settings) : ServicePolicy :=
  { inTimeOrder settings with
    call := fun w i c _ => commitsInTime w i c = true ∧
      (i ≠ 0 → NoOffset i w) }

section Runs

variable {settings : Settings} {merchants : List Merchant}

theorem reach_besideWorker {c₀ c : Config services PyError}
    (h₀ : OffsetsOf 0 c₀) (hc : Reach (inTimeOrder settings) c₀ c) :
    Reach (besideWorker settings) c₀ c := by
  refine (Reach.strengthen h₀ ?_ hc).1
  intro c l c' hk ha hn
  have hspawn : ∀ j p, j ≠ 0 → (inTimeOrder settings).spawn j p →
      Prog.Within Call.setsOffset 0 p :=
    fun j p hj hp => ServiceProgram.within_setsOffset hj hp
  refine ⟨?_, hk.next hspawn ha hn⟩
  cases l with
  | call i ch =>
      unfold Policy.allows at ha ⊢
      dsimp only at ha ⊢
      cases hp : c.session i with
      | ret r => trivial
      | call s k =>
          rw [hp] at ha
          exact ⟨ha, hk.pending i⟩
  | crash i => exact ha
  | spawn i p => exact ha
  | env e => exact ha

end Runs

/-! ## The invariant -/

/-- The offset row names an event, and no marker is of a later one. -/
structure Tracked (settings : Settings) (h : History) : Prop where
  offset : ∀ o, h.db.consumer_offsets.get? settings.worker_id = some o →
    ∃ e ∈ h.db.raw_events, o = ⟨some e.id, some e.occurred_at⟩
  passed : ∀ m ∈ h.db.processed_rollup_events, ∃ r ∈ h.db.raw_events,
    r.id = m.event_id ∧ ∃ e ∈ h.db.raw_events,
      h.cursor settings = some e.id ∧ r.created_at ≤ e.created_at

structure Timed (settings : Settings) (h : History) : Prop where
  times : TimeOrdered h.db.raw_events
  pages : ∀ f ∈ h.fetches, f.page ⊆ h.db.raw_events
  tracked : Tracked settings h

section Invariant

variable {settings : Settings} {h : History} {f : Fetch} {ws : Db}
  {answers : Answers} {now : DateTime} {new : List RawEvent}

theorem TimeOrdered.nodup {log : List RawEvent} (ht : TimeOrdered log) :
    (log.map (·.created_at)).Nodup := by
  rw [List.Nodup, List.pairwise_map]
  exact ht.1.imp fun hlt => hlt.ne

theorem TimeOrdered.lt {log new : List RawEvent} (ht : TimeOrdered (log ++ new))
    {a b : RawEvent} (ha : a ∈ log) (hb : b ∈ new) :
    a.created_at < b.created_at :=
  (List.pairwise_append.mp ht.1).2.2 a ha b hb

/-- Between distinct times any page may end. -/
theorem TimeOrdered.cleanCut {log : List RawEvent} (ht : TimeOrdered log)
    (last : Option UUID) (m : ℕ) :
    CleanCut RawEvent.created_at (remaining log last) m :=
  cleanCut_of_nodup (ht.nodup.sublist (remaining_sublist.map _)) m

theorem Tracked.ingest (ht : Tracked settings h)
    (hi : IngestTx h now ws answers) :
    Tracked settings (h.install ws answers) := by
  have hraw : h.db.raw_events ⊆ (h.install ws answers).db.raw_events :=
    List.subset_append_left _ _
  have hproc : (h.install ws answers).db.processed_rollup_events =
      h.db.processed_rollup_events := by
    rw [History.install, hi.events.others]
    simp [Db.overlay]
  constructor
  · intro o ho
    rw [hi.get?_offset] at ho
    obtain ⟨e, he, rfl⟩ := ht.offset o ho
    exact ⟨e, hraw he, rfl⟩
  · intro m hm
    rw [hproc] at hm
    obtain ⟨r, hr, hid, e, he, hcursor, hle⟩ := ht.passed m hm
    refine ⟨r, hraw hr, hid, e, hraw he, ?_, hle⟩
    rw [History.cursor, hi.get?_offset]
    exact hcursor

theorem Timed.ingest (ht : Timed settings h) (hi : IngestTx h now ws answers)
    (htimes : TimeOrdered (h.db.raw_events ++ ws.raw_events)) :
    Timed settings (h.install ws answers) where
  times := htimes
  pages := fun f hf => List.Subset.trans (ht.pages f hf)
    (List.subset_append_left _ _)
  tracked := ht.tracked.ingest hi

theorem Timed.fetch (ht : Timed settings h) (hvalid : f.Valid)
    (hseen : f.seen = h.db.raw_events) : Timed settings (h.fetch f) where
  times := ht.times
  pages := by
    intro f' hf'
    rcases List.mem_append.mp hf' with hf' | hf'
    · exact ht.pages f' hf'
    · rw [List.mem_singleton.mp hf']
      show f.page ⊆ h.db.raw_events
      rw [← hseen]
      exact hvalid.subperm.subset
  tracked := ⟨ht.tracked.offset, ht.tracked.passed⟩

/-- Everything on a page is later than the event it was fetched after. -/
theorem Fetch.Valid.above (hvalid : f.Valid) {id : UUID}
    (hid : f.last_event_id = some id) {r : RawEvent} (hr : r ∈ f.page) :
    ∃ c ∈ f.seen, c.id = id ∧ c.created_at < r.created_at := by
  obtain ⟨scan, hperm, hafter⟩ := hvalid
  rw [hid] at hafter
  obtain ⟨l, hl, -, hpage⟩ := eventsAfter_sorted hperm hafter
  have hrem : r ∈ remaining f.seen (some id) := by
    rw [hpage] at hr
    exact hl.subset (List.mem_of_mem_take hr)
  unfold remaining at hrem
  dsimp only at hrem
  split at hrem
  · rename_i c hc
    have hmem : c ∈ f.seen.filter fun r => r.id = id :=
      hc ▸ List.mem_singleton_self c
    obtain ⟨hseen, hcid⟩ := List.mem_filter.mp hmem
    refine ⟨c, hseen, of_decide_eq_true hcid, ?_⟩
    exact of_decide_eq_true (List.mem_filter.mp hrem).2
  · cases hrem

theorem Fetch.Valid.le_last (hvalid : f.Valid) {e : RawEvent}
    (hlast : f.page.getLast? = some e) {r : RawEvent} (hr : r ∈ f.page) :
    r.created_at ≤ e.created_at := by
  obtain ⟨scan, hperm, hafter⟩ := hvalid
  obtain ⟨later, hpage⟩ := eventsAfter_page hperm hafter hlast
  exact hpage.page_le r hr

/-- A batch that fetched after the offset moves it past its markers. -/
theorem Tracked.batch (ht : Tracked settings h)
    (hids : (h.db.raw_events.map (·.id)).Nodup)
    (hb : BatchTx settings h f new ws)
    (hcursor : h.cursor settings = f.last_event_id) :
    Tracked settings (h.install ws []) := by
  have hraw : (h.install ws []).db.raw_events = h.db.raw_events :=
    hb.raw_events
  obtain ⟨e, hlast, hrow⟩ := hb.get?_offset
  have he : e ∈ f.page := List.mem_of_getLast? hlast
  change (h.install ws []).db.consumer_offsets.get? settings.worker_id = _ at hrow
  have hcursor' : (h.install ws []).cursor settings = some e.id := by
    rw [History.cursor, hrow]
    rfl
  constructor
  · intro o ho
    rw [hrow] at ho
    exact ⟨e, hraw ▸ hb.page_subset he, (Option.some.inj ho).symm⟩
  · intro m hm
    rw [hraw]
    rw [History.install, Db.overlay_processed] at hm
    rcases List.mem_append.mp hm with hm | hm
    · -- an earlier marker: its event is not later than the previous offset
      obtain ⟨r, hr, hid, e₀, he₀, hcur, hle⟩ := ht.passed m hm
      obtain ⟨c, hc, hcid, hlt⟩ :=
        hb.valid.above (hcursor.symm.trans hcur) he
      obtain rfl : c = e₀ :=
        List.inj_on_of_nodup_map hids (hb.seen.subset hc) he₀ hcid
      exact ⟨r, hr, hid, e, hb.page_subset he, hcursor', hle.trans hlt.le⟩
    · obtain ⟨ids, hmarks, -⟩ := hb.marks
      rw [hmarks.written] at hm
      obtain ⟨u, hu, rfl⟩ := List.mem_map.mp hm
      obtain ⟨r, hr, hid⟩ := hmarks.paged u hu
      exact ⟨r, hb.page_subset hr, hid, e, hb.page_subset he, hcursor',
        hb.valid.le_last hlast hr⟩

theorem Timed.batch (ht : Timed settings h)
    (hids : (h.db.raw_events.map (·.id)).Nodup)
    (hb : BatchTx settings h f new ws)
    (hcursor : h.cursor settings = f.last_event_id) :
    Timed settings (h.install ws []) := by
  have hraw : (h.install ws []).db.raw_events = h.db.raw_events :=
    hb.raw_events
  refine ⟨hraw ▸ ht.times, fun f hf => ?_, ht.tracked.batch hids hb hcursor⟩
  rw [hraw]
  exact ht.pages f hf

end Invariant

/-! ## Every run in the order of time -/

section Sound

variable {settings : Settings} {merchants : List Merchant}

def InTime (settings : Settings) (merchants : List Merchant) (h : History) :
    Prop :=
  OrderedHistory settings merchants h ∧ Timed settings h

/-- Beside the worker nobody sets an offset. -/
theorem get?_offset_of_rely {S : History → Prop} {w w' : World}
    (hr : Interferes (besideWorker settings) S 0 w w') (c : String) :
    w'.db.consumer_offsets.get? c = w.db.consumer_offsets.get? c := by
  refine Rely.lift (R := fun w w' : World =>
    w'.db.consumer_offsets.get? c = w.db.consumer_offsets.get? c)
    (fun _ => rfl) (fun h₁ h₂ => h₂.trans h₁) ?_ hr
  intro w w' _ hs
  match hs with
  | .call hj hpol he =>
      cases World.exec_effect he with
      | quiet r => rfl
      | begin t _ => rfl
      | drop => rfl
      | issue u _ _ => rfl
      | abort tx _ => rfl
      | wrote tx s ch y ws _ _ _ _ => rw [World.setTx_toHistory, World.observe_db]
      | commit tx answers _ htx _ =>
          exact Db.AgreesAt.overlay _ (hpol.2 hj tx htx c)
  | .crash _ => rfl
  | .env ha he =>
      obtain ⟨key, rfl⟩ := ha
      cases he
      rfl

theorem cursor_of_rely {S : History → Prop} {w w' : World}
    (hr : Interferes (besideWorker settings) S 0 w w') :
    w'.cursor settings = w.cursor settings := by
  rw [History.cursor, History.cursor, get?_offset_of_rely hr]

/-- From the offset it reads to its commit the worker sees the offset
unchanged. -/
def timedHooks (settings : Settings) (merchants : List Merchant) :
    BatchHooks (besideWorker settings) (InTime settings merchants) 0
      settings where
  start := fun _ _ => True
  cursor := fun last h _ => h.cursor settings = last
  fetched := fun f h _ => PageWhole f h ∧ h.cursor settings = f.last_event_id
  done := fun _ _ _ => True
  failed := fun _ _ => True
  stable_start := fun _ _ _ => trivial
  stable_cursor := fun last {w w'} hr _ hc => (cursor_of_rely hr).trans hc
  stable_fetched := fun f {w w'} hr _ hf => by
    refine ⟨fun last hlast r hseen hle => ?_, (cursor_of_rely hr).trans hf.2⟩
    exact (hf.1 last hlast r hseen hle).imp_left
      (Db.marked_mono (frame_of_rely hr).processed)
  stable_done := fun _ _ _ _ _ _ => trivial
  stable_failed := fun _ _ _ => trivial
  offset := fun _ _ => rfl
  fetch := fun {w last ch f} hw hcursor _ hvalid hlast _ hseen => by
    obtain ⟨hordered, htimed⟩ := hw.2
    have hcovered : CursorCovered w.toHistory last :=
      hcursor ▸ hordered.2.cursor
    have hpage := hordered.2.pageWhole hordered.deduplicated.ids hcovered
      hvalid hlast hseen (htimed.times.cleanCut last f.limit)
    refine ⟨⟨⟨hordered.1.tail (.fetch hvalid hseen), hordered.2.fetch hseen⟩,
      htimed.fetch hvalid hseen⟩, ?_⟩
    split
    · trivial
    · exact ⟨hpage, hcursor.trans hlast.symm⟩
  fetch_error := fun _ _ _ _ => trivial
  commit := fun hw hf _ _ _ hbatch => by
    obtain ⟨hordered, htimed⟩ := hw.2
    exact ⟨⟨⟨hordered.1.tail (.batch rfl hbatch), hordered.2.batch hbatch hf.1⟩,
      htimed.batch hordered.deduplicated.ids hbatch hf.2⟩, trivial⟩

theorem ingests_inTime :
    Ingests (besideWorker settings) (InTime settings merchants) := by
  intro i w tx answers hw htx _ hpol hi
  obtain ⟨hordered, htimed⟩ := hw.2
  have htimes : TimeOrdered (w.db.raw_events ++ tx.writes.raw_events) := by
    have horder := hpol.1
    rw [commitsInTime, htx] at horder
    exact of_decide_eq_true horder
  refine ⟨⟨hordered.1.tail (.ingest hi), hordered.2.ingest hi ?_⟩,
    htimed.ingest hi htimes⟩
  intro r hr f hf e he
  exact htimes.lt (htimed.pages f hf he) hr

theorem sound_besideWorker : Sound (besideWorker settings)
    (Inv (InTime settings merchants)) NoTx := by
  refine sound_of_programs ?_ ?_
  · intro i p w hp hw hidle
    have hprepares : Prepares (besideWorker settings)
        (InTime settings merchants) :=
      ingests_inTime.prepares fun _ hs => hs.1.deduplicated
    cases hp with
    | processBatch s hworker =>
        obtain ⟨rfl, rfl⟩ := hworker
        exact wp_void hw
          (wp_processBatch (timedHooks s merchants) hw trivial hidle)
    | ingestEvent payload =>
        exact wp_void hw (wp_ingestEventRequest payload hprepares hidle)
    | ingestBatch payload =>
        exact wp_void hw (wp_ingestBatchRequest payload hprepares hidle)
  · rintro w c - ⟨key, hkey⟩
    cases hkey

theorem inTime_start : InTime settings merchants (History.start merchants) where
  left := ⟨.refl, by simp [History.start], fun id hid => by cases hid⟩
  right :=
    { times := ⟨.nil, by simp [History.start]⟩
      pages := by simp [History.start]
      tracked := ⟨fun o ho => (by cases ho), by simp [History.start]⟩ }

theorem reach_inTimeOrder {c : Config services PyError}
    (hc : Reach (inTimeOrder settings) (Config.idle (World.start merchants))
      c) : InTime settings merchants c.world.toHistory := by
  have hsound : Sound (besideWorker settings)
      (Inv (InTime settings merchants)) NoTx := sound_besideWorker
  have hgood := good_idle hsound (w := World.start merchants)
    ⟨coherent_start merchants, inTime_start⟩ fun _ => rfl
  exact (reach_wp hsound hgood
    (reach_besideWorker (offsetsOf_idle fun _ => rfl) hc)).1.2

end Sound

/-! ## The report -/

/-- More than `worker_lag_threshold_s` old. -/
def Overdue (settings : Settings) (now t : DateTime) : Prop :=
  settings.worker_lag_threshold_s * 1000000 < (now.micros : ℤ) - t.micros

/-- More than `worker_lag_threshold_s` and half a tenth of a second old, as
`total_seconds` counts. -/
def Stale (settings : Settings) (now t : DateTime) : Prop :=
  (settings.worker_lag_threshold_s : ℚ) + 1 / 20 <
    totalSeconds ((now.micros : ℤ) - t.micros)

/-- Some event without a marker is overdue. -/
def Db.Behind (settings : Settings) (now : DateTime) (db : Db) : Prop :=
  ∃ r ∈ db.raw_events, db.marked r = false ∧ Overdue settings now r.occurred_at

def HealthResponse.WorkerDegraded (response : HealthResponse) : Prop :=
  ∃ worker, response.components.get? "rollup_worker" = some worker ∧
    worker.status = .degraded

/-- The time of the event the offset names. -/
def Db.lastEventAt (settings : Settings) (db : Db) : Option DateTime :=
  (db.consumer_offsets.get? settings.worker_id).bind ConsumerOffset.last_event_at

/-- The age of the last processed event tells whether a later one is overdue:
the traffic has not paused so long that it is stale by itself, and it is stale
once a later one is overdue. -/
structure Db.AgeTells (settings : Settings) (now : DateTime) (db : Db) :
    Prop where
  alarm : ∀ last, db.lastEventAt settings = some last → Stale settings now last →
    ∃ r ∈ db.raw_events, last < r.occurred_at ∧
      Overdue settings now r.occurred_at
  stall : ∀ r ∈ db.raw_events, Overdue settings now r.occurred_at →
    (∀ last, db.lastEventAt settings = some last → last < r.occurred_at) →
    ∃ last, db.lastEventAt settings = some last ∧ Stale settings now last

section Report

variable {settings : Settings} {merchants : List Merchant} {now : DateTime}

theorem workerDegraded_iff (database redis : Except String ℚ)
    (offset : Option ConsumerOffset) (timestamp : DateTime) :
    (healthCheck settings database offset redis now
      timestamp).WorkerDegraded ↔
      ∃ last, offset.bind ConsumerOffset.last_event_at = some last ∧
        Stale settings now last := by
  have hworker : (healthCheck settings database offset redis now
      timestamp).components.get? "rollup_worker" =
        some (workerHealth settings now
          (offset.bind ConsumerOffset.last_event_at)) := rfl
  unfold HealthResponse.WorkerDegraded
  rw [hworker]
  cases hlast : offset.bind ConsumerOffset.last_event_at with
  | none => simp [workerHealth]
  | some last =>
      have hiff := lt_lagSeconds_iff now last settings.worker_lag_threshold_s
      simp only [Option.some.injEq, exists_eq_left', workerHealth, hiff,
        ite_eq_left_iff, reduceCtorEq, imp_false, not_not]
      rfl

/-- **What is pending** is what is later than the offset. -/
theorem InTime.unmarked_iff {h : History} (hs : InTime settings merchants h)
    {r : RawEvent} (hr : r ∈ h.db.raw_events) : h.db.marked r = false ↔
      ∀ last, h.db.lastEventAt settings = some last → last < r.occurred_at := by
  obtain ⟨hordered, htimed⟩ := hs
  have hids := hordered.deduplicated.ids
  have hpassed : h.db.marked r = true → ∃ e ∈ h.db.raw_events,
      h.cursor settings = some e.id ∧ r.created_at ≤ e.created_at := by
    intro hm
    obtain ⟨m, hm, hid⟩ := List.mem_map.mp (of_decide_eq_true hm)
    obtain ⟨r', hr', hid', hrest⟩ := htimed.tracked.passed m hm
    obtain rfl : r' = r :=
      List.inj_on_of_nodup_map hids hr' hr (hid'.trans hid)
    exact hrest
  unfold Db.lastEventAt
  cases hrow : h.db.consumer_offsets.get? settings.worker_id with
  | none =>
      refine iff_of_true (Bool.eq_false_iff.mpr fun hm => ?_) ?_
      · obtain ⟨e, -, hcursor, -⟩ := hpassed hm
        rw [History.cursor, hrow] at hcursor
        cases hcursor
      · intro last hlast
        cases hlast
  | some o =>
      obtain ⟨e, he, rfl⟩ := htimed.tracked.offset o hrow
      have hcursor : h.cursor settings = some e.id := by
        rw [History.cursor, hrow]
        rfl
      have hlater : h.db.marked r = false ↔ e.created_at < r.created_at := by
        rw [← not_le, ← Bool.not_eq_true, not_iff_not]
        constructor
        · intro hm
          obtain ⟨e', he', hcursor', hle⟩ := hpassed hm
          rw [hcursor, Option.some.injEq] at hcursor'
          obtain rfl : e = e' :=
            List.inj_on_of_nodup_map hids he he' hcursor'
          exact hle
        · intro hle
          obtain ⟨e', he', hid, hcovered⟩ := hordered.2.cursor e.id hcursor
          obtain rfl : e' = e := List.inj_on_of_nodup_map hids he' he hid
          exact hordered.2.marked_of_covered hcovered hr hle
      rw [hlater, ← htimed.times.2 r hr, ← htimed.times.2 e he]
      show _ ↔ ∀ last, some e.occurred_at = some last → last < r.occurred_at
      simp

theorem InTime.behind_iff {h : History} (hs : InTime settings merchants h) :
    h.db.Behind settings now ↔ ∃ r ∈ h.db.raw_events,
      (∀ last, h.db.lastEventAt settings = some last → last < r.occurred_at) ∧
        Overdue settings now r.occurred_at := by
  unfold Db.Behind
  refine exists_congr fun r => and_congr_right fun hr => ?_
  rw [hs.unmarked_iff hr]

end Report

/-- **Lag**: the report calls the worker degraded exactly when it is behind,
exactly when the age of the last processed event tells. -/
theorem lag_reported_iff (merchants : List Merchant) {settings : Settings}
    {c : Config services PyError}
    (hc : Reach (inTimeOrder settings) (Config.idle (World.start merchants)) c)
    (database redis : Except String ℚ) (now timestamp : DateTime) :
    ((healthCheck settings database
      (c.world.db.consumer_offsets.get? settings.worker_id) redis now
        timestamp).WorkerDegraded ↔ c.world.db.Behind settings now) ↔
      c.world.db.AgeTells settings now := by
  have hs := reach_inTimeOrder hc
  rw [workerDegraded_iff, hs.behind_iff]
  constructor
  · intro hiff
    constructor
    · intro last hlast hstale
      obtain ⟨r, hr, hlater, hold⟩ := hiff.mp ⟨last, hlast, hstale⟩
      exact ⟨r, hr, hlater last hlast, hold⟩
    · intro r hr hold hlater
      exact hiff.mpr ⟨r, hr, hlater, hold⟩
  · rintro ⟨halarm, hstall⟩
    constructor
    · rintro ⟨last, hlast, hstale⟩
      obtain ⟨r, hr, hlt, hold⟩ := halarm last hlast hstale
      refine ⟨r, hr, fun last' hlast' => ?_, hold⟩
      obtain rfl : last = last' := Option.some.inj (hlast.symm.trans hlast')
      exact hlt
    · rintro ⟨r, hr, hlater, hold⟩
      exact hstall r hr hold hlater

/-! ## A pause of the traffic -/

section Pause

/-- One event and the batch that processes it. -/
def caughtUpRun : Sample.Labels :=
  Sample.ingest 1 first 1 3 ++ readBatch 5 [Sample.row first 1 3]

/-- Then a second event. -/
def backlogRun : Sample.Labels := caughtUpRun ++ Sample.ingest 2 second 2 5

theorem admits_caughtUpRun :
    ∀ l ∈ caughtUpRun, (inTimeOrder (Sample.worker "w")).admits l := by
  simp only [caughtUpRun, List.forall_mem_append]
  exact ⟨Sample.admits_ingest.mpr (.ingestEvent _),
    admits_readBatch (.processBatch _ ⟨rfl, rfl⟩)⟩

theorem admits_backlogRun :
    ∀ l ∈ backlogRun, (inTimeOrder (Sample.worker "w")).admits l := by
  simp only [backlogRun, List.forall_mem_append]
  exact ⟨admits_caughtUpRun, Sample.admits_ingest.mpr (.ingestEvent _)⟩

theorem totalSeconds_seconds {n : ℤ} (hn : |n| < 2 ^ 53) :
    totalSeconds (n * 1000000) = n := by
  unfold totalSeconds
  push_cast
  rw [mul_div_cancel_right₀ _ (by norm_num)]
  exact binary64_intCast hn

/-- Three minutes are over the threshold. -/
theorem stale_after_three_minutes :
    Stale (Sample.worker "w") (Sample.instant 6) (Sample.instant 3) := by
  have hage : ((Sample.instant 6).micros : ℤ) - (Sample.instant 3).micros =
      180 * 1000000 := by decide
  unfold Stale
  rw [hage, totalSeconds_seconds (by decide)]
  norm_num [Sample.worker]

theorem lag_reported_iff_backlog : ∃ c : Config services PyError,
    Reach (inTimeOrder (Sample.worker "w"))
      (Config.idle (World.start Sample.merchants)) c ∧
    c.world.db.raw_events.length = 2 ∧
    ((healthCheck (Sample.worker "w") (.ok 1)
      (c.world.db.consumer_offsets.get? "w") (.ok 1) (Sample.instant 6)
        (Sample.instant 6)).WorkerDegraded ↔
      c.world.db.Behind (Sample.worker "w") (Sample.instant 6)) := by
  have hrun : ((Config.idle (World.start Sample.merchants)).replay?
      (fun w i s _ => commitsInTime w i s) backlogRun).map (fun c =>
        (c.world.db.raw_events, c.world.db.lastEventAt (Sample.worker "w"))) =
      some ([Sample.row first 1 3, Sample.row second 2 5],
        some (Sample.instant 3)) := by decide +kernel
  obtain ⟨c, hc, hdb⟩ := Option.map_eq_some_iff.mp hrun
  obtain ⟨hraw, hlast⟩ := Prod.mk.inj hdb
  have hreach := reach_of_replay? (fun _ _ _ _ h => h) admits_backlogRun hc
  refine ⟨c, hreach, hraw ▸ rfl, ?_⟩
  refine (lag_reported_iff Sample.merchants hreach (.ok 1) (.ok 1)
    (Sample.instant 6) (Sample.instant 6)).mpr ⟨?_, ?_⟩
  · rintro last hlast' -
    obtain rfl := Option.some.inj (hlast.symm.trans hlast')
    refine ⟨Sample.row second 2 5, hraw ▸ by simp, ?_, ?_⟩
    · show Sample.instant 3 < Sample.instant 5
      decide
    · show (30 : ℤ) * 1000000 < _
      decide
  · intro r _ _ _
    exact ⟨Sample.instant 3, hlast, stale_after_three_minutes⟩

/-- Nothing is pending, but for three minutes nothing has happened. -/
theorem quiet_worker_degraded :
    ¬ ∀ (merchants : List Merchant) (settings : Settings)
      (c : Config services PyError) (database redis : Except String ℚ)
      (now timestamp : DateTime),
      Reach (inTimeOrder settings) (Config.idle (World.start merchants)) c →
      (c.world.db.consumer_offsets.get? settings.worker_id).isSome = true →
      ((healthCheck settings database
        (c.world.db.consumer_offsets.get? settings.worker_id) redis now
          timestamp).WorkerDegraded ↔ c.world.db.Behind settings now) := by
  intro hall
  have hrun : ((Config.idle (World.start Sample.merchants)).replay?
      (fun w i s _ => commitsInTime w i s) caughtUpRun).map (fun c =>
        (c.world.db.raw_events.all c.world.db.marked,
          c.world.db.consumer_offsets.get? "w")) =
      some (true, some ⟨some 1, some (Sample.instant 3)⟩) := by decide +kernel
  obtain ⟨c, hc, hdb⟩ := Option.map_eq_some_iff.mp hrun
  obtain ⟨hmarked, hoffset⟩ := Prod.mk.inj hdb
  have hreach := reach_of_replay? (fun _ _ _ _ h => h) admits_caughtUpRun hc
  have hiff := hall Sample.merchants (Sample.worker "w") c (.ok 1) (.ok 1)
    (Sample.instant 6) (Sample.instant 6) hreach (hoffset ▸ rfl)
  rw [workerDegraded_iff] at hiff
  obtain ⟨r, hr, hunmarked, -⟩ := hiff.mp
    ⟨Sample.instant 3, hoffset ▸ rfl, stale_after_three_minutes⟩
  rw [List.all_eq_true.mp hmarked r hr] at hunmarked
  cases hunmarked

end Pause

end AnalyticsPipeline
