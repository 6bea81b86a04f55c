import AnalyticsPipeline.Guarantees.LogPaging
import AnalyticsPipeline.Metatheory.SolitaryTransaction

/-!
# Retention

The worker keeps its place in the log by the id of the last event it fetched and
looks the `created_at` of that event up in the log. When the partition of the
event is dropped, the subquery is null, nothing is later than null, and the
worker takes the log for read to its end.
-/

namespace AnalyticsPipeline

open Framework

/-! ## Keeping up -/

/-- The worker goes on from the event it fetched last: what is fetched after it
begins with the oldest later event, and batch after batch every event of the log
comes to be marked. -/
structure GoesOn (settings : Settings) (i : ℕ) (last : RawEvent) (w : World) :
    Prop where
  oldest : ∀ limit, 1 ≤ limit → ∀ r w',
    Eval (M := services) noFailure i
      (sessionScope (EventRepository.getEventsAfter (some last.id) limit)) w r w' →
    ∃ e rest, r = .ok (e :: rest) ∧ e ∈ w.db.raw_events ∧
      last.created_at < e.created_at ∧
      ∀ later ∈ w.db.raw_events, last.created_at < later.created_at →
        e.created_at ≤ later.created_at
  ends : ∃ w', Drain noFailure settings i w w'
  marked : ∀ w', Drain (fun _ _ => True) settings i w w' →
    ∀ e ∈ w.db.raw_events,
      ⟨settings.worker_id, e.id⟩ ∈ w'.db.processed_rollup_events

section Fetch

variable {i : ℕ} {w : World} {last : Option UUID} {limit : ℕ}

/-- With distinct ids the query cannot fail. -/
theorem run_selectRawEventsAfter_ne_error {now : DateTime} {ch : Choice}
    {view : Db} {e : DbError} (hids : (view.raw_events.map (·.id)).Nodup) :
    (Stmt.selectRawEventsAfter last limit).run now ch view ≠ some (.error e) := by
  intro hrun
  cases ch with
  | rows scan =>
      simp only [Stmt.run] at hrun
      split at hrun
      · cases hafter : Stmt.eventsAfter view.raw_events last limit scan with
        | ok page =>
            rw [hafter] at hrun
            cases hrun
        | error err => exact eventsAfter_ne_error hids hafter
      · cases hrun
  | _ => cases hrun

/-- A fetch alone answers what the query says of the committed log. -/
theorem after_getEventsAfter (hidle : NoTx i w)
    (hids : (w.db.raw_events.map (·.id)).Nodup) :
    After (M := services) noFailure i
      (sessionScope (EventRepository.getEventsAfter last limit))
      (fun r _ => ∃ scan page : List RawEvent, scan.Perm w.db.raw_events ∧
        Stmt.eventsAfter w.db.raw_events last limit scan = .ok page ∧
        r = .ok page) w := by
  have hat : At i w.toHistory w.redis w.issued none w := ⟨rfl, rfl, rfl, hidle⟩
  refine after_sessionScope hat fun now w₁ hat₁ => ?_
  unfold EventRepository.getEventsAfter
  rw [execute_eq]
  refine after_call fun ch x w₂ _ he => ?_
  have he' : World.execSql w₁ i (.selectRawEventsAfter last limit) ch =
      some (x, w₂) := by
    cases ch <;> exact he
  rcases World.execSql_eq_some he' with ⟨-, -, haborted⟩ | ⟨tx, htx, -, -, hrun⟩
  · cases haborted _ hat₁.tx
  · obtain rfl := Option.some.inj (hat₁.tx.symm.trans htx)
    have hview : World.view w₁ ⟨now, false, ∅⟩ = w.db := by
      rw [hat₁.view, Db.empty_overlay]
    rw [hview] at hrun
    rcases hrun with ⟨e, hrun, -, -⟩ | ⟨page, ws, hrun, rfl, rfl⟩
    · exact absurd hrun (run_selectRawEventsAfter_ne_error hids)
    · obtain ⟨scan, -, hperm, hafter, -⟩ := Stmt.run_selectRawEventsAfter.mp hrun
      have hat₂ : At i _ w₁.redis w₁.issued _
          (w₁.observe w.db (.selectRawEventsAfter last limit) page) :=
        ⟨rfl, rfl, rfl, hat₁.tx⟩
      have hat₃ := hat₂.setTx ⟨now, false, ws.overlay ∅⟩
      exact after_ret ⟨_, _, _, _, hat₃, fun _ _ =>
        ⟨scan, page, hperm, hafter, rfl⟩⟩

theorem exists_eval_getEventsAfter (i : ℕ) (last : Option UUID) (limit : ℕ)
    (w : World) : ∃ r w', Eval (M := services) noFailure i
      (sessionScope (EventRepository.getEventsAfter last limit)) w r w' := by
  have hwaits : Prog.Within Call.waits 0
      (EventRepository.getEventsAfter last limit) :=
    within_execute (Call.waits_sql rfl)
  exact exists_eval_waitless false (within_sessionScope rfl rfl hwaits) w

end Fetch

section Marking

variable {settings : Settings} {i : ℕ} {h h' : History} {page new : List RawEvent}

/-- A batch marks its page and nothing else. -/
theorem BatchOutcome.mem_processed_iff
    (hout : BatchOutcome settings h (some (page, new)) h') (m : ProcessedMarker) :
    m ∈ h'.db.processed_rollup_events ↔ m ∈ h.db.processed_rollup_events ∨
      ∃ e ∈ page, m = ⟨settings.worker_id, e.id⟩ := by
  cases hout with
  | @page f new ws _ _ hbatch =>
      obtain ⟨ids, hmarks, -⟩ := hbatch.marks
      show m ∈ h.db.processed_rollup_events ++ ws.processed_rollup_events ↔ _
      rw [List.mem_append, hmarks.written, List.mem_map]
      constructor
      · rintro (hold | ⟨u, hu, rfl⟩)
        · exact .inl hold
        · obtain ⟨e, he, rfl⟩ := hmarks.paged u hu
          exact .inr ⟨e, he, rfl⟩
      · rintro (hold | ⟨e, he, rfl⟩)
        · exact .inl hold
        · rcases hmarks.covered e he with hold | hnew
          · exact .inl hold
          · exact .inr ⟨e.id, hnew, rfl⟩

theorem BatchOutcome.fetched_page
    (hout : BatchOutcome settings h (some (page, new)) h') :
    h'.fetched = h.fetched ++ page := by
  cases hout with
  | page _ _ _ => exact fetched_fetch h _

theorem BatchOutcome.nothing_changed (hout : BatchOutcome settings h none h') :
    h'.db = h.db ∧ h'.fetched = h.fetched := by
  cases hout with
  | @nothing f _ hpage =>
      refine ⟨rfl, ?_⟩
      rw [fetched_fetch, hpage, List.append_nil]

/-- **What a worker marks** until it finds nothing is what it fetches. -/
theorem Drain.mem_processed_iff {ok : Call → Choice → Prop} {w w' : World}
    (hd : Drain ok settings i w w') (hw : Coherent w) (hidle : NoTx i w) :
    ∃ events, w'.fetched = w.fetched ++ events ∧ ∀ m : ProcessedMarker,
      m ∈ w'.db.processed_rollup_events ↔ m ∈ w.db.processed_rollup_events ∨
        ∃ e ∈ events, m = ⟨settings.worker_id, e.id⟩ := by
  induction hd with
  | done he =>
      obtain ⟨-, -, x, hout, hn⟩ := eval_processBatch hw hidle he
      cases x with
      | none =>
          obtain ⟨hdb, hfetched⟩ := hout.nothing_changed
          refine ⟨[], hfetched.trans (List.append_nil _).symm, fun m => ?_⟩
          rw [hdb]
          simp
      | some p =>
          exact absurd (List.length_eq_zero_iff.mp hn.symm) hout.page_ne_nil
  | more he hne _ ih =>
      obtain ⟨hw₁, hidle₁, x, hout, hn⟩ := eval_processBatch hw hidle he
      cases x with
      | none => exact absurd hn hne
      | some p =>
          obtain ⟨events, hfetched, hmarked⟩ := ih hw₁ hidle₁
          refine ⟨p.1 ++ events, ?_, fun m => ?_⟩
          · rw [hfetched, hout.fetched_page, List.append_assoc]
          · rw [hmarked m, hout.mem_processed_iff m, or_assoc]
            simp only [List.mem_append, or_and_right, exists_or]

/-- With pairwise distinct `created_at` a worker fetches all it has not read. -/
theorem Drain.fetches_unread {ok : Call → Choice → Prop} {w w' : World}
    (hlimit : 1 ≤ settings.worker_batch_size) (hd : Drain ok settings i w w')
    (hw : Coherent w) (hidle : NoTx i w)
    (hids : (w.db.raw_events.map (·.id)).Nodup)
    (hcreated : (w.db.raw_events.map (·.created_at)).Nodup) :
    ∀ m : ProcessedMarker, m ∈ w'.db.processed_rollup_events ↔
      m ∈ w.db.processed_rollup_events ∨
        ∃ e ∈ w.toHistory.unread settings, m = ⟨settings.worker_id, e.id⟩ := by
  obtain ⟨pages, hpages, hread⟩ := hd.pages hlimit hw hidle hids
  obtain ⟨events, hfetched, hmarked⟩ := hd.mem_processed_iff hw hidle
  obtain rfl := List.append_cancel_left (hfetched.symm.trans hread)
  have hunread : ((w.toHistory.unread settings).map (·.created_at)).Nodup :=
    hcreated.sublist (remaining_sublist.map _)
  have hperm := hpages.perm_iff.mpr fun k => cleanCut_of_nodup hunread _
  intro m
  rw [hmarked m]
  refine or_congr_right (exists_congr fun e => and_congr_left fun _ => ?_)
  exact hperm.mem_iff

end Marking

/-! ## Dropping partitions -/

section Dropped

variable {settings : Settings} {i : ℕ} {db : Db} {redis : Redis}
  {days : List DateTime} {last : RawEvent}

theorem dropPartitions_sublist (db : Db) (days : List DateTime) :
    (db.dropPartitions days).raw_events.Sublist db.raw_events :=
  List.filter_sublist

/-- What the worker may still fetch once the partitions are gone. -/
theorem unread_dropped (hids : (db.raw_events.map (·.id)).Nodup)
    (hoffset : db.consumer_offsets.get? settings.worker_id =
      some ⟨some last.id, some last.occurred_at⟩)
    (hkept : last ∈ (db.dropPartitions days).raw_events) :
    (World.settled (db.dropPartitions days) redis).toHistory.unread settings =
      above RawEvent.created_at last.created_at
        (db.dropPartitions days).raw_events := by
  have hcursor : (World.settled (db.dropPartitions days) redis).toHistory.cursor
      settings = some last.id := by
    show (db.consumer_offsets.get? settings.worker_id).bind _ = _
    rw [hoffset]
    rfl
  rw [History.unread, hcursor]
  exact remaining_some (hids.sublist ((dropPartitions_sublist db days).map _)) hkept

/-- No row is left by the name of a dropped event. -/
theorem filter_dropped (hids : (db.raw_events.map (·.id)).Nodup)
    (hlast : last ∈ db.raw_events)
    (hdropped : last ∉ (db.dropPartitions days).raw_events) :
    ((db.dropPartitions days).raw_events.filter fun r => r.id = last.id) = [] := by
  rw [List.filter_eq_nil_iff]
  intro r hr hid
  apply hdropped
  have hsame : r = last := List.inj_on_of_nodup_map hids
    ((dropPartitions_sublist db days).subset hr) hlast (of_decide_eq_true hid)
  exact hsame ▸ hr

/-- A worker that goes on has its last event still in the log. -/
theorem GoesOn.kept (hids : (db.raw_events.map (·.id)).Nodup)
    (hlast : last ∈ db.raw_events)
    (h : GoesOn settings i last
      (World.settled (db.dropPartitions days) redis)) :
    last ∈ (db.dropPartitions days).raw_events := by
  have hids' := hids.sublist
    ((dropPartitions_sublist db days).map fun r => r.id)
  have hidle : NoTx i (World.settled (db.dropPartitions days) redis) := rfl
  by_contra hdropped
  obtain ⟨r, w', he⟩ := exists_eval_getEventsAfter i (some last.id) 1
    (World.settled (db.dropPartitions days) redis)
  obtain ⟨e, rest, hpage, -⟩ := h.oldest 1 (le_refl 1) r w' he
  obtain ⟨scan, page, -, hafter, hreturned⟩ :=
    after_getEventsAfter hidle hids' r w' he
  -- the subquery finds no row, so no row is later
  have hnil : Stmt.eventsAfter (db.dropPartitions days).raw_events
      (some last.id) 1 scan = .ok [] := by
    simp only [Stmt.eventsAfter, filter_dropped hids hlast hdropped]
  obtain rfl := Except.ok.inj (hafter.symm.trans hnil)
  cases hpage.symm.trans hreturned

/-- Such a worker has left nothing behind. -/
theorem GoesOn.behind (hlimit : 1 ≤ settings.worker_batch_size)
    (hids : (db.raw_events.map (·.id)).Nodup)
    (hcreated : (db.raw_events.map (·.created_at)).Nodup)
    (hoffset : db.consumer_offsets.get? settings.worker_id =
      some ⟨some last.id, some last.occurred_at⟩)
    (hkept : last ∈ (db.dropPartitions days).raw_events)
    (h : GoesOn settings i last
      (World.settled (db.dropPartitions days) redis)) {e : RawEvent}
    (he : e ∈ (db.dropPartitions days).raw_events)
    (hle : e.created_at ≤ last.created_at) :
    ⟨settings.worker_id, e.id⟩ ∈ db.processed_rollup_events := by
  have hsub := dropPartitions_sublist db days
  have hids' := hids.sublist (hsub.map fun r => r.id)
  have hcreated' := hcreated.sublist (hsub.map fun r => r.created_at)
  have hidle : NoTx i (World.settled (db.dropPartitions days) redis) := rfl
  obtain ⟨w', hd⟩ := h.ends
  have hmarked := h.marked w' (hd.weaken fun _ _ _ => trivial) e he
  rcases (hd.fetches_unread hlimit (coherent_settled redis hids') hidle hids'
    hcreated' _).mp hmarked with hold | ⟨e', he', hsame⟩
  · exact hold
  · -- what the worker fetches is later than its offset
    rw [unread_dropped hids hoffset hkept] at he'
    obtain ⟨hlog, hlt⟩ := List.mem_filter.mp he'
    have heq : e = e' := List.inj_on_of_nodup_map hids' he hlog
      (congrArg ProcessedMarker.event_id hsame)
    exact absurd (of_decide_eq_true hlt) (heq ▸ hle).not_gt

/-- The first of what remains is the oldest of what is later. -/
theorem oldest_of_eventsAfter {log scan page : List RawEvent} {limit : ℕ}
    (hids : (log.map (·.id)).Nodup) (hlast : last ∈ log) (hpos : 1 ≤ limit)
    (hlater : ∃ e ∈ log, last.created_at < e.created_at)
    (hperm : scan.Perm log)
    (hafter : Stmt.eventsAfter log (some last.id) limit scan = .ok page) :
    ∃ e rest, page = e :: rest ∧ e ∈ log ∧ last.created_at < e.created_at ∧
      ∀ later ∈ log, last.created_at < later.created_at →
        e.created_at ≤ later.created_at := by
  obtain ⟨l, hl, hsorted, rfl⟩ := eventsAfter_sorted hperm hafter
  rw [remaining_some hids hlast] at hl
  have hmem : ∀ e, e ∈ l ↔ e ∈ log ∧ last.created_at < e.created_at := fun e => by
    rw [hl.mem_iff, above, List.mem_filter, decide_eq_true_eq]
  obtain ⟨e, he⟩ := hlater
  cases l with
  | nil => cases (hmem e).mpr he
  | cons first rest =>
      obtain ⟨limit, rfl⟩ : ∃ n, limit = n + 1 := ⟨limit - 1, by omega⟩
      obtain ⟨hlog, hfirst⟩ := (hmem first).mp List.mem_cons_self
      refine ⟨first, rest.take limit, rfl, hlog, hfirst, ?_⟩
      intro later hlater hlt
      rcases List.mem_cons.mp ((hmem later).mpr ⟨hlater, hlt⟩) with rfl | hrest
      · exact le_refl _
      · exact List.rel_of_pairwise_cons hsorted hrest

/-- **Dropping partitions** leaves the worker going on exactly when the event
that its offset names is still there and it has left nothing behind. -/
theorem worker_goes_on_iff (settings : Settings) (i : ℕ) (db : Db)
    (redis : Redis) (days : List DateTime) (last : RawEvent)
    (hlimit : 1 ≤ settings.worker_batch_size)
    (hids : (db.raw_events.map (·.id)).Nodup)
    (hcreated : (db.raw_events.map (·.created_at)).Nodup)
    (hlast : last ∈ db.raw_events)
    (hoffset : db.consumer_offsets.get? settings.worker_id =
      some ⟨some last.id, some last.occurred_at⟩)
    (hlater : ∃ e ∈ (db.dropPartitions days).raw_events,
      last.created_at < e.created_at) :
    GoesOn settings i last (World.settled (db.dropPartitions days) redis) ↔
      last ∈ (db.dropPartitions days).raw_events ∧
      ∀ e ∈ (db.dropPartitions days).raw_events, e.created_at ≤ last.created_at →
        ⟨settings.worker_id, e.id⟩ ∈ db.processed_rollup_events := by
  have hsub := dropPartitions_sublist db days
  have hids' := hids.sublist (hsub.map fun r => r.id)
  have hcreated' := hcreated.sublist (hsub.map fun r => r.created_at)
  have hw := coherent_settled redis hids'
  have hidle : NoTx i (World.settled (db.dropPartitions days) redis) := rfl
  constructor
  · intro hgoes
    have hkept := hgoes.kept hids hlast
    exact ⟨hkept, fun e he hle =>
      hgoes.behind hlimit hids hcreated hoffset hkept he hle⟩
  · rintro ⟨hkept, hbehind⟩
    have hunread : (World.settled (db.dropPartitions days)
        redis).toHistory.unread settings = _ := unread_dropped hids hoffset hkept
    constructor
    · intro limit hpos r w' he
      obtain ⟨scan, page, hperm, hafter, rfl⟩ :=
        after_getEventsAfter hidle hids' r w' he
      obtain ⟨e, rest, rfl, hfirst⟩ :=
        oldest_of_eventsAfter hids' hkept hpos hlater hperm hafter
      exact ⟨e, rest, rfl, hfirst⟩
    · exact exists_drain (Nat.lt_succ_self _) hw (fun _ _ => rfl) hidle hids'
    · intro w' hd e he
      rw [hd.fetches_unread hlimit hw hidle hids' hcreated', hunread]
      by_cases hlt : last.created_at < e.created_at
      · exact .inr ⟨e, List.mem_filter.mpr ⟨he, decide_eq_true hlt⟩, rfl⟩
      · exact .inl (hbehind e he (not_lt.mp hlt))

end Dropped

/-! ## Two retentions -/

namespace Sample

def midnight (month day : ℕ) : DateTime :=
  (DateTime.ofDate? 2024 month day).getD default

/-- A row of an event without a client's time, ingested at the midnight of a
date. -/
def nightly (e : EventIngest) (id : UUID) (month day : ℕ) : RawEvent :=
  { e.rawValues id (midnight month day) with
    client_timestamp := none
    created_at := midnight month day }

/-- Three nights: the events of the first two are processed. -/
def threeNights : Db :=
  { (∅ : Db) with
    raw_events := [nightly (payment 'a' 250) 1 4 30,
      nightly (payment 'b' 100) 2 5 1, nightly (payment 'c' 70) 3 5 2]
    processed_rollup_events := [⟨"w", 1⟩, ⟨"w", 2⟩]
    consumer_offsets := (∅ : Dict String ConsumerOffset).set "w"
      ⟨some 2, some (midnight 5 1)⟩ }

end Sample

/-- The first night is dropped. -/
theorem worker_goes_on_iff_older : GoesOn (Sample.worker "w") 0
    (Sample.nightly (Sample.payment 'b' 100) 2 5 1)
    (World.settled (Sample.threeNights.dropPartitions [Sample.midnight 4 30])
      ∅) := by
  refine (worker_goes_on_iff (Sample.worker "w") 0 Sample.threeNights ∅
    [Sample.midnight 4 30] (Sample.nightly (Sample.payment 'b' 100) 2 5 1)
    (by decide) (by decide) (by decide +kernel) (by decide +kernel)
    (by decide +kernel) (by decide +kernel)).mpr ?_
  decide +kernel

/-- **Both nights are dropped**, every event of them processed, and the worker
does not go on to the third. -/
theorem worker_stalls :
    (∀ e ∈ Sample.threeNights.raw_events,
      e.occurred_at.truncDay ∈ [Sample.midnight 4 30, Sample.midnight 5 1] →
      ⟨"w", e.id⟩ ∈ Sample.threeNights.processed_rollup_events) ∧
    Sample.nightly (Sample.payment 'c' 70) 3 5 2 ∈
      (Sample.threeNights.dropPartitions
        [Sample.midnight 4 30, Sample.midnight 5 1]).raw_events ∧
    ¬ GoesOn (Sample.worker "w") 0
      (Sample.nightly (Sample.payment 'b' 100) 2 5 1)
      (World.settled (Sample.threeNights.dropPartitions
        [Sample.midnight 4 30, Sample.midnight 5 1]) ∅) := by
  refine ⟨by decide +kernel, by decide +kernel, fun h => ?_⟩
  have hkept := h.kept (by decide) (by decide +kernel)
  revert hkept
  decide +kernel

end AnalyticsPipeline
