import AnalyticsPipeline.Metatheory.SerialHistory

/-!
# Marked events

In every serial history the rollup tables summarize the marked events, one
summand for each marker (`Aggregated`): a batch adds the markers and the deltas
of the same events in one transaction. Whether an event is summarized more than
once is therefore a question about its markers alone.
-/

namespace AnalyticsPipeline

open Framework Relation

/-! ## Events by identifier -/

def Db.event? (db : Db) (u : UUID) : Option RawEvent :=
  db.raw_events.find? (·.id = u)

/-- The events that were aggregated, once for each of their markers. -/
def Db.markedEvents (db : Db) : List RawEvent :=
  db.processed_rollup_events.filterMap fun m => db.event? m.event_id

/-- The marked events are stored ones. -/
theorem markedEvents_subset (db : Db) : db.markedEvents ⊆ db.raw_events := by
  intro e he
  obtain ⟨m, -, hm⟩ := List.mem_filterMap.mp he
  exact List.mem_of_find?_eq_some hm

/-- Some consumer has processed the event. -/
def Db.marked (db : Db) (r : RawEvent) : Bool :=
  r.id ∈ db.processed_rollup_events.map (·.event_id)

section Events

variable {db : Db}

theorem event?_eq_some_iff (hnd : (db.raw_events.map (·.id)).Nodup) {u : UUID}
    {r : RawEvent} : db.event? u = some r ↔ r ∈ db.raw_events ∧ r.id = u := by
  constructor
  · intro h
    exact ⟨List.mem_of_find?_eq_some h, by simpa using List.find?_some h⟩
  · rintro ⟨hr, rfl⟩
    rw [Db.event?]
    cases h : db.raw_events.find? (fun x => decide (x.id = r.id)) with
    | none =>
        rw [List.find?_eq_none] at h
        exact absurd (h r hr) (by simp)
    | some r' =>
        have hid : r'.id = r.id := by simpa using List.find?_some h
        rw [List.inj_on_of_nodup_map hnd (List.mem_of_find?_eq_some h) hr hid]

theorem nodup_filterMap_event? (hnd : (db.raw_events.map (·.id)).Nodup)
    {ids : List UUID} (hids : ids.Nodup) : (ids.filterMap db.event?).Nodup := by
  refine hids.filterMap fun u u' r hu hu' => ?_
  rw [Option.mem_def, event?_eq_some_iff hnd] at hu hu'
  exact hu.2.symm.trans hu'.2

/-- If no event has two markers, the marked events are a part of the log. -/
theorem markedEvents_perm (hnd : (db.raw_events.map (·.id)).Nodup)
    (honce : (db.processed_rollup_events.map (·.event_id)).Nodup) :
    db.markedEvents.Perm (db.raw_events.filter db.marked) := by
  have heq : db.markedEvents =
      (db.processed_rollup_events.map (·.event_id)).filterMap db.event? := by
    rw [Db.markedEvents, List.filterMap_map]
    rfl
  rw [heq]
  refine (List.perm_ext_iff_of_nodup (nodup_filterMap_event? hnd honce)
    ((hnd.of_map _).filter _)).mpr fun r => ?_
  simp only [List.mem_filterMap, event?_eq_some_iff hnd, List.mem_filter,
    Db.marked, decide_eq_true_eq]
  constructor
  · rintro ⟨u, hu, hr, rfl⟩
    exact ⟨hr, hu⟩
  · rintro ⟨hr, hu⟩
    exact ⟨r.id, hu, hr, rfl⟩

end Events

/-! ## Pages -/

/-- A page is part of the log it was read from. -/
theorem Fetch.Valid.subperm {f : Fetch} (h : f.Valid) :
    f.page.Subperm f.seen := by
  obtain ⟨scan, hperm, hafter⟩ := h
  simp only [Stmt.eventsAfter] at hafter
  split at hafter
  · rw [← Except.ok.inj hafter]
    exact (List.take_sublist _ _).subperm.trans
      ((List.perm_insertionSort _ _).trans hperm).subperm
  · split at hafter
    · rw [← Except.ok.inj hafter]
      exact List.nil_subperm
    · rw [← Except.ok.inj hafter]
      exact ((List.take_sublist _ _).subperm.trans
        (List.perm_insertionSort _ _).subperm).trans
        (List.filter_sublist.subperm.trans hperm.subperm)
    · cases hafter

section Page

variable {settings : Settings} {h : History} {f : Fetch} {new : List RawEvent}
  {ws : Db}

theorem BatchTx.page_subset (hb : BatchTx settings h f new ws) :
    f.page ⊆ h.db.raw_events :=
  fun _ he => hb.seen.subset (hb.valid.subperm.subset he)

theorem BatchTx.nodup_page (hb : BatchTx settings h f new ws)
    (hd : Deduplicated h.db) : f.page.Nodup := by
  have hseen : (f.seen.map (·.id)).Nodup :=
    hd.ids.sublist (hb.seen.sublist.map _)
  obtain ⟨l, hl, hsub⟩ := hb.valid.subperm
  exact hl.nodup_iff.mp ((hseen.of_map _).sublist hsub)

/-- The new events of a batch are those its new markers name. -/
theorem Marks.new_perm {c : String} {page : List RawEvent} {ids : List UUID}
    {db ws : Db} (h : Marks c page ids db ws)
    (hnd : (db.raw_events.map (·.id)).Nodup) (hpage : page.Nodup)
    (hsub : page ⊆ db.raw_events) :
    (ids.filterMap db.event?).Perm (page.filter (·.id ∈ ids)) := by
  refine (List.perm_ext_iff_of_nodup (nodup_filterMap_event? hnd h.nodup)
    (hpage.filter _)).mpr fun r => ?_
  simp only [List.mem_filterMap, event?_eq_some_iff hnd, List.mem_filter,
    decide_eq_true_eq]
  constructor
  · rintro ⟨u, hu, hr, rfl⟩
    obtain ⟨e, he, heq⟩ := h.paged _ hu
    obtain rfl := List.inj_on_of_nodup_map hnd (hsub he) hr heq
    exact ⟨he, hu⟩
  · rintro ⟨hr, hu⟩
    exact ⟨r.id, hu, hsub hr, rfl⟩

end Page

/-! ## The invariant -/

structure Aggregated (db : Db) : Prop where
  nodup : db.processed_rollup_events.Nodup
  stored : ∀ m ∈ db.processed_rollup_events,
    ∃ r ∈ db.raw_events, r.id = m.event_id
  rollups : ∀ g k, (db.rollup g).get? k =
    Summary.collect (amountsAt g k db.markedEvents)

namespace Aggregated

variable {h : History}

theorem start (merchants : List Merchant) :
    Aggregated (History.start merchants).db :=
  ⟨List.nodup_nil, by simp [History.start], fun _ _ => rfl⟩

theorem processed_ingest {now : DateTime} {ws : Db} {answers : Answers}
    (hi : IngestTx h now ws answers) :
    (ws.overlay h.db).processed_rollup_events = h.db.processed_rollup_events := by
  rw [Db.overlay_processed, hi.events.others]
  exact List.append_nil _

/-- New events are not marked yet. -/
theorem markedEvents_ingest {now : DateTime} {ws : Db} {answers : Answers}
    (hagg : Aggregated h.db) (hi : IngestTx h now ws answers) :
    (ws.overlay h.db).markedEvents = h.db.markedEvents := by
  rw [Db.markedEvents, Db.markedEvents, processed_ingest hi]
  refine List.filterMap_congr fun m hm => ?_
  obtain ⟨r, hr, hid⟩ := hagg.stored m hm
  rw [Db.event?, Db.overlay_raw_events, List.find?_append, ← Db.event?]
  cases hev : h.db.event? m.event_id with
  | some r' => rfl
  | none =>
      rw [Db.event?, List.find?_eq_none] at hev
      exact absurd (hev r hr) (by simp [hid])

theorem ingest {now : DateTime} {ws : Db} {answers : Answers}
    (hagg : Aggregated h.db) (hi : IngestTx h now ws answers) :
    Aggregated (ws.overlay h.db) := by
  have hproc := processed_ingest hi
  refine ⟨hproc ▸ hagg.nodup, ?_, fun g k => ?_⟩
  · intro m hm
    obtain ⟨r, hr, hid⟩ := hagg.stored m (hproc ▸ hm)
    exact ⟨r, List.mem_append_left _ hr, hid⟩
  · rw [hagg.markedEvents_ingest hi, ← hagg.rollups g k,
      Db.get?_overlay_rollup, hi.events.others]
    rfl

section Batch

variable {settings : Settings} {f : Fetch} {new : List RawEvent} {ws : Db}

/-- A batch marks its new events. -/
theorem markedEvents_batch (hd : Deduplicated h.db)
    (hb : BatchTx settings h f new ws) :
    (ws.overlay h.db).markedEvents.Perm (h.db.markedEvents ++ new) := by
  obtain ⟨ids, hmarks, rfl⟩ := hb.marks
  have hevent : (ws.overlay h.db).event? = h.db.event? := by
    funext u
    rw [Db.event?, hb.raw_events, Db.event?]
  have hmarked : (ws.overlay h.db).markedEvents =
      h.db.markedEvents ++ ids.filterMap h.db.event? := by
    rw [Db.markedEvents, Db.overlay_processed, hmarks.written,
      List.filterMap_append, List.filterMap_map, hevent]
    rfl
  rw [hmarked]
  exact (hmarks.new_perm hd.ids (hb.nodup_page hd) hb.page_subset).append_left _

/-- A batch marks and summarizes the same events. -/
theorem batch (hd : Deduplicated h.db) (hagg : Aggregated h.db)
    (hb : BatchTx settings h f new ws) : Aggregated (ws.overlay h.db) := by
  have hmarked := markedEvents_batch hd hb
  obtain ⟨ids, hmarks, rfl⟩ := hb.marks
  have hproc : (ws.overlay h.db).processed_rollup_events =
      h.db.processed_rollup_events ++ ids.map fun u => ⟨settings.worker_id, u⟩ := by
    rw [Db.overlay_processed, hmarks.written]
  refine ⟨?_, ?_, fun g k => ?_⟩
  · rw [hproc, List.nodup_append]
    refine ⟨hagg.nodup, hmarks.nodup.map fun u u' heq => ?_, ?_⟩
    · exact congrArg ProcessedMarker.event_id heq
    · rintro m hm _ hm' rfl
      obtain ⟨u, hu, rfl⟩ := List.mem_map.mp hm'
      exact hmarks.fresh u hu hm
  · intro m hm
    rw [hproc, List.mem_append, List.mem_map] at hm
    rw [hb.raw_events]
    rcases hm with hm | ⟨u, hu, rfl⟩
    · exact hagg.stored m hm
    · obtain ⟨e, he, heq⟩ := hmarks.paged u hu
      exact ⟨e, hb.page_subset he, heq⟩
  · rw [Db.get?_overlay_rollup, hb.deltas g k, if_pos rfl, absorbed_or,
      Summary.collect_perm (amountsAt_perm hmarked), amountsAt_append,
      Summary.collect_append, hagg.rollups g k]

end Batch

theorem deleteOffset (hagg : Aggregated h.db) (c : String) :
    Aggregated (h.deleteOffset c).db :=
  ⟨hagg.nodup, hagg.stored, hagg.rollups⟩

end Aggregated

section Serial

variable {allowed : Settings → History → List RawEvent → Prop} {h h' : History}

/-- **Every serial history is aggregated.** -/
theorem Serial.aggregated (hd : Deduplicated h.db) (hagg : Aggregated h.db)
    (hs : Serial allowed h h') : Aggregated h'.db := by
  induction hs with
  | refl => exact hagg
  | @tail h₁ _ hs hstep ih =>
      have hd₁ : Deduplicated h₁.db := Serial.deduplicated hd hs
      cases hstep with
      | ingest hi => exact ih.ingest hi
      | batch _ hb => exact ih.batch hd₁ hb
      | fetch _ _ => exact ih
      | deleteOffset c => exact ih.deleteOffset c

/-- The rollups of a history in which no event has two markers. -/
theorem Aggregated.rollups_once {db : Db} (hagg : Aggregated db)
    (hd : Deduplicated db)
    (honce : (db.processed_rollup_events.map (·.event_id)).Nodup)
    (g : RollupGranularity) (k : RollupKey) :
    (db.rollup g).get? k =
      Summary.collect (amountsAt g k (db.raw_events.filter db.marked)) := by
  rw [hagg.rollups g k, Summary.collect_perm
    (amountsAt_perm (markedEvents_perm hd.ids honce))]

end Serial

end AnalyticsPipeline
