import AnalyticsPipeline.Guarantees.LogPaging

/-!
# Commit order

`created_at` is the start of the ingesting transaction, but its rows appear at
the commit. The offset of the worker therefore passes over the events of a
transaction that commits after the worker has fetched a later one. If each
transaction commits before that, and no page ends inside one, every event is
processed.
-/

namespace AnalyticsPipeline

open Framework Relation

/-! ## The runs -/

/-- Session 0 is the worker, one batch after another; the others ingest, and
may break off anywhere. -/
def oneWorker (settings : Settings) : ServicePolicy where
  call := fun _ _ _ _ => True
  crash := fun _ i => i ≠ 0
  spawn := fun i p => ServiceProgram (fun s => i = 0 ∧ s = settings) p
  env := fun _ e => ∃ key, e = .evict key

/-- The events of a commit are later than every event fetched so far. -/
def commitsInOrder (w : World) (i : ℕ) : Call → Bool
  | .commit _ =>
      match w.txs.get? i with
      | none => true
      | some tx => tx.writes.raw_events.all fun r =>
          w.fetches.all fun f => f.page.all fun e => e.created_at < r.created_at
  | _ => true

/-- The page does not end between events that share their `created_at`. -/
def fetchesWhole (w : World) : Call → Bool
  | .sql (.selectRawEventsAfter last limit) =>
      CleanCut RawEvent.created_at (remaining w.db.raw_events last) limit
  | _ => true

def inCommitOrder (settings : Settings) : ServicePolicy :=
  { oneWorker settings with
    call := fun w i c _ => commitsInOrder w i c = true ∧ fetchesWhole w c = true }

/-! ## The invariant -/

/-- Of what was there when `e` was fetched, everything up to `e` is marked. -/
def Covered (h : History) (e : RawEvent) : Prop :=
  ∃ f ∈ h.fetches, e ∈ f.page ∧
    ∀ r ∈ f.seen, r.created_at ≤ e.created_at → h.db.marked r = true

def CursorCovered (h : History) (last : Option UUID) : Prop :=
  ∀ id, last = some id → ∃ e ∈ h.db.raw_events, e.id = id ∧ Covered h e

/-- What a page leaves behind was marked before. -/
def PageWhole (f : Fetch) (h : History) : Prop :=
  ∀ last, f.page.getLast? = some last → ∀ r ∈ f.seen,
    r.created_at ≤ last.created_at → h.db.marked r = true ∨ r ∈ f.page

structure Ordered (settings : Settings) (h : History) : Prop where
  later : ∀ f ∈ h.fetches, ∀ r ∈ h.db.raw_events,
    r ∈ f.seen ∨ ∀ e ∈ f.page, e.created_at < r.created_at
  cursor : CursorCovered h (h.cursor settings)

section Invariant

variable {settings : Settings} {h h' : History} {e : RawEvent}
  {last : Option UUID} {f : Fetch}

theorem Db.marked_mono
    (hp : h.db.processed_rollup_events <+: h'.db.processed_rollup_events)
    (hm : h.db.marked e = true) : h'.db.marked e = true := by
  simp only [Db.marked, decide_eq_true_eq] at hm ⊢
  exact (hp.map _).subset hm

theorem Covered.mono (hf : h.fetches <+: h'.fetches)
    (hp : h.db.processed_rollup_events <+: h'.db.processed_rollup_events)
    (hc : Covered h e) : Covered h' e := by
  obtain ⟨f, hmem, he, hmarked⟩ := hc
  exact ⟨f, hf.subset hmem, he, fun r hr hle =>
    Db.marked_mono hp (hmarked r hr hle)⟩

theorem CursorCovered.mono (hr : h.db.raw_events <+: h'.db.raw_events)
    (hf : h.fetches <+: h'.fetches)
    (hp : h.db.processed_rollup_events <+: h'.db.processed_rollup_events)
    (hc : CursorCovered h last) : CursorCovered h' last := by
  rintro id rfl
  obtain ⟨e, he, hid, hcov⟩ := hc id rfl
  exact ⟨e, hr.subset he, hid, hcov.mono hf hp⟩

/-- Up to a covered event nothing was missed: what came later is later. -/
theorem Ordered.marked_of_covered (ho : Ordered settings h) (hc : Covered h e)
    {r : RawEvent} (hr : r ∈ h.db.raw_events)
    (hle : r.created_at ≤ e.created_at) : h.db.marked r = true := by
  obtain ⟨f, hf, he, hmarked⟩ := hc
  rcases ho.later f hf r hr with hseen | hlater
  · exact hmarked r hseen hle
  · exact absurd (hlater e he) (not_lt.mpr hle)

/-- A fetch that does not split a group leaves behind only what was marked. -/
theorem Ordered.pageWhole (ho : Ordered settings h)
    (hids : (h.db.raw_events.map (·.id)).Nodup) (hlast : CursorCovered h last)
    (hvalid : f.Valid) (hfl : f.last_event_id = last)
    (hseen : f.seen = h.db.raw_events)
    (hcut : CleanCut RawEvent.created_at (remaining h.db.raw_events last)
      f.limit) : PageWhole f h := by
  intro e he r hr hle
  obtain ⟨scan, hperm, hafter⟩ := hvalid
  rw [hseen, hfl] at hafter
  rw [hseen] at hperm hr
  obtain ⟨later, hpage⟩ := eventsAfter_page hperm hafter he
  have hclosed := hpage.cleanCut_iff.mp hcut
  have hsplit : r ∈ remaining h.db.raw_events last → r ∈ f.page := by
    intro hrem
    rcases List.mem_append.mp (hpage.perm.symm.subset hrem) with hin | hout
    · exact hin
    · exact absurd (hclosed r hout) (not_lt.mpr hle)
  cases last with
  | none => exact .inr (hsplit hr)
  | some id =>
      obtain ⟨c, hc, rfl, hcov⟩ := hlast id rfl
      rcases le_or_gt r.created_at c.created_at with hold | hnew
      · exact .inl (ho.marked_of_covered hcov hr hold)
      · refine .inr (hsplit ?_)
        rw [remaining_some hids hc, above, List.mem_filter, decide_eq_true_eq]
        exact ⟨hr, hnew⟩

theorem Ordered.fetch (ho : Ordered settings h)
    (hseen : f.seen = h.db.raw_events) : Ordered settings (h.fetch f) where
  later := by
    intro f' hf' r hr
    rcases List.mem_append.mp hf' with hf' | hf'
    · exact ho.later f' hf' r hr
    · rw [List.mem_singleton.mp hf', hseen]
      exact .inl hr
  cursor := by
    have hf : h.fetches <+: (h.fetch f).fetches := List.prefix_append _ _
    exact CursorCovered.mono (List.prefix_refl h.db.raw_events) hf List.prefix_rfl ho.cursor

theorem IngestTx.get?_offset {now : DateTime} {ws : Db} {answers : Answers}
    (hi : IngestTx h now ws answers) (c : String) :
    (h.install ws answers).db.consumer_offsets.get? c =
      h.db.consumer_offsets.get? c := by
  rw [History.install, hi.events.others]
  simp [Db.overlay]

theorem Ordered.ingest {now : DateTime} {ws : Db} {answers : Answers}
    (ho : Ordered settings h) (hi : IngestTx h now ws answers)
    (hlate : ∀ r ∈ ws.raw_events, ∀ f ∈ h.fetches, ∀ e ∈ f.page,
      e.created_at < r.created_at) :
    Ordered settings (h.install ws answers) where
  later := by
    intro f hf r hr
    rw [History.install, Db.overlay_raw_events, List.mem_append] at hr
    rcases hr with hr | hr
    · exact ho.later f hf r hr
    · exact .inr (hlate r hr f hf)
  cursor := by
    rw [History.cursor, hi.get?_offset]
    exact ho.cursor.mono (List.prefix_append _ _) List.prefix_rfl
      (List.prefix_append _ _)

/-- A commit covers the last event of its page. -/
theorem Ordered.batch {new : List RawEvent} {ws : Db}
    (ho : Ordered settings h) (hb : BatchTx settings h f new ws)
    (hpage : PageWhole f h) : Ordered settings (h.install ws []) := by
  have hraw : (h.install ws []).db.raw_events = h.db.raw_events :=
    hb.raw_events
  have hproc : h.db.processed_rollup_events <+:
      (h.install ws []).db.processed_rollup_events := List.prefix_append _ _
  refine ⟨fun f hf r hr => ho.later f hf r (hraw ▸ hr), ?_⟩
  obtain ⟨e, hlast, hoffset⟩ := hb.get?_offset
  have hcursor : (h.install ws []).cursor settings = some e.id := by
    rw [History.cursor, History.install, hoffset]
    rfl
  have hmem : e ∈ f.page := List.mem_of_getLast? hlast
  rintro id hid
  rw [hcursor, Option.some.injEq] at hid
  refine ⟨e, hraw ▸ hb.page_subset hmem, hid, f, hb.fetched, hmem, ?_⟩
  intro r hr hle
  rcases hpage e hlast r hr hle with hm | hin
  · exact Db.marked_mono hproc hm
  · obtain ⟨ids, hmarks, -⟩ := hb.marks
    simp only [Db.marked, History.install, Db.overlay_processed,
      hmarks.written, List.map_append, List.mem_append, decide_eq_true_eq]
    rcases hmarks.covered r hin with hm | hnew
    · exact .inl (List.mem_map_of_mem (f := ProcessedMarker.event_id) hm)
    · right
      simpa [List.map_map] using hnew

end Invariant

/-! ## Every run in order -/

section Runs

variable {settings : Settings} {merchants : List Merchant}

/-- A serial history in which the cursor is covered. -/
def OrderedHistory (settings : Settings) (merchants : List Merchant)
    (h : History) : Prop :=
  Serial (fun s _ _ => s.worker_id = settings.worker_id)
    (History.start merchants) h ∧ Ordered settings h

theorem OrderedHistory.deduplicated {h : History}
    (hs : OrderedHistory settings merchants h) : Deduplicated h.db :=
  hs.1.deduplicated (deduplicated_start merchants)

def orderedHooks (settings : Settings) (merchants : List Merchant) (i : ℕ) :
    BatchHooks (inCommitOrder settings) (OrderedHistory settings merchants) i
      settings where
  start := fun _ _ => True
  cursor := fun last h _ => CursorCovered h last
  fetched := fun f h _ => PageWhole f h
  done := fun _ _ _ => True
  failed := fun _ _ => True
  stable_start := fun _ _ _ => trivial
  stable_cursor := fun last {w w'} hr _ hc => by
    have hframe := frame_of_rely hr
    exact hc.mono hframe.raw_events hframe.fetches hframe.processed
  stable_fetched := fun f {w w'} hr _ hpage last hlast r hseen hle =>
    (hpage last hlast r hseen hle).imp_left
      (Db.marked_mono (frame_of_rely hr).processed)
  stable_done := fun _ _ _ _ _ _ => trivial
  stable_failed := fun _ _ _ => trivial
  offset := fun hw _ => hw.2.2.cursor
  fetch := fun {w last ch f} hw hcursor hpol hvalid hlast hlimit hseen => by
    have hcut : CleanCut RawEvent.created_at (remaining w.db.raw_events last)
        f.limit := by
      rw [hlimit]
      exact of_decide_eq_true hpol.2
    have hpage := hw.2.2.pageWhole hw.2.deduplicated.ids hcursor hvalid hlast
      hseen hcut
    refine ⟨⟨hw.2.1.tail (.fetch hvalid hseen), hw.2.2.fetch hseen⟩, ?_⟩
    split
    · trivial
    · exact hpage
  fetch_error := fun _ _ _ _ => trivial
  commit := fun hw hpage _ _ _ hbatch =>
    ⟨⟨hw.2.1.tail (.batch rfl hbatch), hw.2.2.batch hbatch hpage⟩, trivial⟩

theorem ingests_inOrder : Ingests (inCommitOrder settings)
    (OrderedHistory settings merchants) := by
  intro i w tx answers hw htx _ hpol hi
  refine ⟨hw.2.1.tail (.ingest hi), hw.2.2.ingest hi ?_⟩
  have horder := hpol.1
  rw [commitsInOrder, htx] at horder
  simpa using horder

theorem sound_inCommitOrder : Sound (inCommitOrder settings)
    (Inv (OrderedHistory settings merchants)) NoTx := by
  refine sound_of_programs ?_ ?_
  · intro i p w hp hw hidle
    cases hp with
    | processBatch s hworker =>
        obtain ⟨-, rfl⟩ := hworker
        exact wp_void hw (wp_processBatch (orderedHooks s merchants i) hw
          trivial hidle)
    | ingestEvent payload =>
        exact wp_void hw (wp_ingestEventRequest payload
          (ingests_inOrder.prepares fun _ hs => hs.deduplicated) hidle)
    | ingestBatch payload =>
        exact wp_void hw (wp_ingestBatchRequest payload
          (ingests_inOrder.prepares fun _ hs => hs.deduplicated) hidle)
  · rintro w c - ⟨key, hkey⟩
    cases hkey

theorem reach_inCommitOrder {c : Config services PyError}
    (hc : Reach (inCommitOrder settings) (Config.idle (World.start merchants))
      c) : Inv (OrderedHistory settings merchants) c.world := by
  have hstart : Inv (OrderedHistory settings merchants)
      (World.start merchants) :=
    ⟨coherent_start merchants, .refl, by simp [World.start, History.start],
      fun id hid => by cases hid⟩
  exact (reach_wp sound_inCommitOrder
    (good_idle sound_inCommitOrder hstart fun _ => rfl) hc).1

end Runs

/-- Every event has its marker and is counted. -/
structure Db.Complete (db : Db) : Prop where
  marked : ∀ r ∈ db.raw_events, db.marked r = true
  counted : ∀ g, ∀ r ∈ db.raw_events, ∃ row,
    (db.rollup g).get? (r.rollupKey g) = some row ∧
      row.Summarizes (amountsAt g (r.rollupKey g) db.raw_events)

theorem BatchOutcome.nothing_db {settings : Settings} {h h' : History}
    (hout : BatchOutcome settings h none h') : h'.db = h.db := by
  cases hout with
  | nothing _ _ => rfl

/-- At the end of the log nothing is behind the cursor either. -/
theorem Ordered.all_marked {settings : Settings} {h : History}
    (ho : Ordered settings h) (hids : (h.db.raw_events.map (·.id)).Nodup)
    (hunread : h.unread settings = []) :
    ∀ r ∈ h.db.raw_events, h.db.marked r = true := by
  intro r hr
  rw [History.unread] at hunread
  cases hcursor : h.cursor settings with
  | none =>
      rw [hcursor, remaining] at hunread
      simp [hunread] at hr
  | some id =>
      obtain ⟨e, he, rfl, hcov⟩ := ho.cursor id hcursor
      rw [hcursor, remaining_some hids he, above, List.filter_eq_nil_iff]
        at hunread
      refine ho.marked_of_covered hcov hr (not_lt.mp fun hlt => ?_)
      exact hunread r hr (decide_eq_true hlt)

/-- **Commit order**: in every run in which each transaction commits before the
worker fetches a later event, and no page splits events of one `created_at`,
the worker has processed every event when it finds nothing more. -/
theorem no_event_passed_over (merchants : List Merchant) {settings : Settings}
    (hlimit : 1 ≤ settings.worker_batch_size) {c : Config services PyError}
    (hc : Reach (inCommitOrder settings) (Config.idle (World.start merchants)) c)
    (hidle : ∀ i, c.world.txs.get? i = none) {w : World}
    (he : Eval (M := services) (fun _ _ => True) 0
      (RollupWorker.processBatch settings) c.world (.ok 0) w) :
    w.db.Complete := by
  obtain ⟨hw, hs⟩ := reach_inCommitOrder hc
  obtain ⟨-, -, x, hout, hn⟩ := eval_processBatch hw (hidle 0) he
  cases x with
  | some p =>
      exact absurd (List.length_eq_zero_iff.mp hn.symm) hout.page_ne_nil
  | none =>
      have hd := hs.deduplicated
      have hagg := Serial.aggregated (deduplicated_start merchants)
        (.start merchants) hs.1
      have honce := marked_once_of_same_consumer hagg
        (hs.1.same_consumer (by simp [History.start]))
      have hmarked := hs.2.all_marked hd.ids (hout.nothing_unread hlimit).1
      rw [hout.nothing_db]
      refine ⟨hmarked, fun g r hr => ?_⟩
      have hrow := hagg.rollups_once hd honce g (r.rollupKey g)
      rw [List.filter_eq_self.mpr hmarked] at hrow
      have hne : amountsAt g (r.rollupKey g) c.world.db.raw_events ≠ [] :=
        fun hnil => amountsAt_eq_nil_iff.mp hnil r hr rfl
      obtain ⟨row, hsome⟩ := collect_isSome_iff.mpr hne
      exact ⟨row, hrow.trans hsome, collect_summarizes hsome⟩

/-! ## Two transactions -/

section Two

/-- Replay a run, then one more batch, which finds nothing. -/
def toTheEnd (ok : World → ℕ → Call → Choice → Bool) (settings : Settings)
    (run : Sample.Labels) (scan : List RawEvent) :
    Option (Config services PyError × World) :=
  ((Config.idle (World.start Sample.merchants)).replay? ok run).bind fun c =>
    match evalWith (M := services) (fun _ _ => true) 0
        [.clock (Sample.instant 9), .auto, .rows scan, .auto]
        (RollupWorker.processBatch settings) c.world with
    | some (.ok 0, w) => some (c, w)
    | _ => none

theorem of_toTheEnd {ok : World → ℕ → Call → Choice → Bool}
    {pol : ServicePolicy} {settings : Settings} {run : Sample.Labels}
    {scan : List RawEvent} {c : Config services PyError} {w : World}
    (hok : ∀ w i s ch, ok w i s ch = true → pol.call w i s ch)
    (hadmits : ∀ l ∈ run, pol.admits l)
    (h : toTheEnd ok settings run scan = some (c, w)) :
    Reach pol (Config.idle (World.start Sample.merchants)) c ∧
      Eval (M := services) (fun _ _ => True) 0
        (RollupWorker.processBatch settings) c.world (.ok 0) w := by
  obtain ⟨c', hc', hrest⟩ := Option.bind_eq_some_iff.mp h
  split at hrest
  · rename_i he
    cases hrest
    exact ⟨reach_of_replay? hok hadmits hc',
      eval_of_evalWith (fun _ _ _ => trivial) he⟩
  · cases hrest

/-- Two payments and the worker, whose batches read the log as given. -/
def first : EventIngest := Sample.payment 'a' 250

def second : EventIngest := Sample.payment 'b' 100

def readBatch (minute : ℕ) (scan : List RawEvent) : Sample.Labels :=
  Sample.fetch 0 (Sample.worker "w") minute scan ++ Sample.store 0 ++
    Sample.close 0 minute

/-- The transaction that began first commits first. -/
def orderedRun : Sample.Labels :=
  (Sample.ingest 1 first 1 3).take 9 ++ (Sample.ingest 2 second 2 4).take 9 ++
    (Sample.ingest 1 first 1 3).drop 9 ++ readBatch 5 [Sample.row first 1 3] ++
    (Sample.ingest 2 second 2 4).drop 9 ++
    readBatch 6 [Sample.row first 1 3, Sample.row second 2 4]

/-- It commits last, after the worker has processed the other. -/
def overtakenRun : Sample.Labels :=
  (Sample.ingest 1 first 1 3).take 9 ++ Sample.ingest 2 second 2 4 ++
    readBatch 5 [Sample.row second 2 4] ++ (Sample.ingest 1 first 1 3).drop 9

variable {pol : ServicePolicy}

theorem admits_readBatch {minute : ℕ} {scan : List RawEvent}
    (h : pol.spawn 0 (RollupWorker.processBatch (Sample.worker "w") >>=
      fun _ => pure ())) : ∀ l ∈ readBatch minute scan, pol.admits l := by
  simp only [readBatch, List.forall_mem_append]
  exact ⟨⟨Sample.admits_fetch.mpr h, Sample.admits_store⟩, Sample.admits_close⟩

theorem admits_orderedRun :
    ∀ l ∈ orderedRun, (inCommitOrder (Sample.worker "w")).admits l := by
  have h₁ : ∀ l ∈ Sample.ingest 1 first 1 3,
      (inCommitOrder (Sample.worker "w")).admits l :=
    Sample.admits_ingest.mpr (.ingestEvent _)
  have h₂ : ∀ l ∈ Sample.ingest 2 second 2 4,
      (inCommitOrder (Sample.worker "w")).admits l :=
    Sample.admits_ingest.mpr (.ingestEvent _)
  simp only [orderedRun, List.forall_mem_append]
  exact ⟨⟨⟨⟨⟨Sample.admits_take 9 h₁, Sample.admits_take 9 h₂⟩,
    Sample.admits_drop 9 h₁⟩, admits_readBatch (.processBatch _ ⟨rfl, rfl⟩)⟩,
    Sample.admits_drop 9 h₂⟩,
    admits_readBatch (.processBatch _ ⟨rfl, rfl⟩)⟩

theorem admits_overtakenRun :
    ∀ l ∈ overtakenRun, (oneWorker (Sample.worker "w")).admits l := by
  have h₁ : ∀ l ∈ Sample.ingest 1 first 1 3,
      (oneWorker (Sample.worker "w")).admits l :=
    Sample.admits_ingest.mpr (.ingestEvent _)
  simp only [overtakenRun, List.forall_mem_append]
  exact ⟨⟨⟨Sample.admits_take 9 h₁, Sample.admits_ingest.mpr (.ingestEvent _)⟩,
    admits_readBatch (.processBatch _ ⟨rfl, rfl⟩)⟩, Sample.admits_drop 9 h₁⟩

theorem no_event_passed_over_ordered : ∃ (c : Config services PyError)
    (w : World), Reach (inCommitOrder (Sample.worker "w"))
      (Config.idle (World.start Sample.merchants)) c ∧
    Eval (M := services) (fun _ _ => True) 0
      (RollupWorker.processBatch (Sample.worker "w")) c.world (.ok 0) w ∧
    w.db.raw_events.length = 2 ∧ w.db.Complete := by
  have hrun : (toTheEnd (fun w i s _ => commitsInOrder w i s && fetchesWhole w s)
      (Sample.worker "w") orderedRun
      [Sample.row first 1 3, Sample.row second 2 4]).map (fun p =>
        (p.1.world.txs.entries.length, p.2.db.raw_events.length)) =
      some (0, 2) := by decide +kernel
  obtain ⟨⟨c, w⟩, hend, hlen⟩ := Option.map_eq_some_iff.mp hrun
  obtain ⟨hidle, hraw⟩ := Prod.mk.inj hlen
  obtain ⟨hreach, he⟩ := of_toTheEnd
    (fun _ _ _ _ h => Bool.and_eq_true_iff.mp h) admits_orderedRun hend
  exact ⟨c, w, hreach, he, hraw, no_event_passed_over Sample.merchants
    (by decide) hreach (idle_of_no_entries hidle) he⟩

/-- Out of order, the event committed last is never processed. -/
theorem late_commit_passed_over :
    ¬ ∀ (merchants : List Merchant) (settings : Settings)
      (c : Config services PyError) (w : World),
      1 ≤ settings.worker_batch_size →
      Reach (oneWorker settings) (Config.idle (World.start merchants)) c →
      (∀ i, c.world.txs.get? i = none) →
      (c.world.db.raw_events.map (·.created_at)).Nodup →
      Eval (M := services) (fun _ _ => True) 0
        (RollupWorker.processBatch settings) c.world (.ok 0) w →
      w.db.Complete := by
  intro hall
  have hrun : (toTheEnd (fun _ _ _ _ => true) (Sample.worker "w") overtakenRun
      [Sample.row second 2 4, Sample.row first 1 3]).map (fun p =>
        (p.1.world.txs.entries.length,
          decide (p.1.world.db.raw_events.map (·.created_at)).Nodup,
          p.2.db.raw_events.all p.2.db.marked)) =
      some (0, true, false) := by decide +kernel
  obtain ⟨⟨c, w⟩, hend, hlen⟩ := Option.map_eq_some_iff.mp hrun
  obtain ⟨hidle, hrest⟩ := Prod.mk.inj hlen
  obtain ⟨hdistinct, hmarked⟩ := Prod.mk.inj hrest
  obtain ⟨hreach, he⟩ := of_toTheEnd (fun _ _ _ _ _ => trivial)
    admits_overtakenRun hend
  have hcomplete := hall _ _ c w (by decide) hreach (idle_of_no_entries hidle)
    (of_decide_eq_true hdistinct) he
  rw [List.all_eq_true.mpr hcomplete.marked] at hmarked
  cases hmarked

end Two

end AnalyticsPipeline
