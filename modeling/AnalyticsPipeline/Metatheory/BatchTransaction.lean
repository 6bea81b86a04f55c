import AnalyticsPipeline.Metatheory.Aggregation
import AnalyticsPipeline.Metatheory.ProgramLogic

/-!
# The transaction of a worker batch

What a batch transaction has written when it commits (`BatchTx`), whatever
happened around it: markers for exactly the new events of a page it fetched,
the rollup rows of those events merged into the committed ones, and the offset
of the last event. The proof goes through the program once; what a particular
argument needs to know about the run is carried through by `BatchHooks`.
-/

namespace AnalyticsPipeline

open Framework

def Fetch.Valid (f : Fetch) : Prop :=
  ∃ scan, scan.Perm f.seen ∧
    Stmt.eventsAfter f.seen f.last_event_id f.limit scan = .ok f.page

/-- The markers a batch has written: one for each event of the page that had
none. -/
structure Marks (consumer_id : String) (page : List RawEvent) (ids : List UUID)
    (db ws : Db) : Prop where
  nodup : ids.Nodup
  written : ws.processed_rollup_events = ids.map fun u => ⟨consumer_id, u⟩
  paged : ∀ u ∈ ids, ∃ e ∈ page, e.id = u
  fresh : ∀ u ∈ ids, ⟨consumer_id, u⟩ ∉ db.processed_rollup_events
  covered : ∀ e ∈ page,
    ⟨consumer_id, e.id⟩ ∈ db.processed_rollup_events ∨ e.id ∈ ids

/-- The rollup rows a batch has written at the granularities in `gs`. -/
def Deltas (gs : RollupGranularity → Bool) (new : List RawEvent) (db ws : Db) :
    Prop :=
  ∀ g k, (ws.rollup g).get? k =
    if gs g then
      absorbed ((db.rollup g).get? k) (Summary.collect (amountsAt g k new))
    else none

/-- A complete batch transaction about to commit. -/
structure BatchTx (settings : Settings) (h : History) (f : Fetch)
    (new : List RawEvent) (ws : Db) : Prop where
  fetched : f ∈ h.fetches
  valid : f.Valid
  limit : f.limit = settings.worker_batch_size
  seen : f.seen <+: h.db.raw_events
  marks : ∃ ids, Marks settings.worker_id f.page ids h.db ws ∧
    new = f.page.filter (·.id ∈ ids)
  deltas : Deltas (fun _ => true) new h.db ws
  offset : ∃ last, f.page.getLast? = some last ∧ ws.consumer_offsets =
    (∅ : Dict _ _).set settings.worker_id ⟨some last.id, some last.occurred_at⟩
  appends : ws.merchants = [] ∧ ws.raw_events = [] ∧
    ws.event_idempotency = [] ∧ ws.leaderboard_snapshots = ∅

section Commit

variable {settings : Settings} {h : History} {f : Fetch} {new : List RawEvent}
  {ws : Db}

/-- A batch records no event. -/
theorem BatchTx.raw_events (hb : BatchTx settings h f new ws) :
    (ws.overlay h.db).raw_events = h.db.raw_events := by
  rw [Db.overlay_raw_events, hb.appends.2.1, List.append_nil]

theorem BatchTx.event_idempotency (hb : BatchTx settings h f new ws) :
    (ws.overlay h.db).event_idempotency = h.db.event_idempotency := by
  rw [Db.overlay_event_idempotency, hb.appends.2.2.1, List.append_nil]

/-- The offset is left at the last event of the page. -/
theorem BatchTx.get?_offset (hb : BatchTx settings h f new ws) :
    ∃ last, f.page.getLast? = some last ∧
      (ws.overlay h.db).consumer_offsets.get? settings.worker_id =
        some ⟨some last.id, some last.occurred_at⟩ := by
  obtain ⟨last, hlast, hoffset⟩ := hb.offset
  refine ⟨last, hlast, ?_⟩
  simp [Db.overlay, hoffset]

end Commit

/-! ## Stability -/

section Stability

variable {i : ℕ} {w w' : World} {tx : Tx} {consumer_id : String}
  {page new : List RawEvent} {ids : List UUID} {gs : RollupGranularity → Bool}

theorem Marks.frame (hf : Frame i w w') (htx : w.txs.get? i = some tx)
    (h : Marks consumer_id page ids w.db tx.writes) :
    Marks consumer_id page ids w'.db tx.writes where
  nodup := h.nodup
  written := h.written
  paged := h.paged
  fresh := fun u hu => by
    have hlock : Lock.marker ⟨consumer_id, u⟩ ∈ tx.writes.locks := by
      rw [Db.marker_mem_locks, h.written]
      exact List.mem_map_of_mem (f := fun u => (⟨consumer_id, u⟩ :
        ProcessedMarker)) hu
    have hsame : w.db.AgreesAt w'.db (.marker ⟨consumer_id, u⟩) :=
      hf.locked htx _ hlock
    exact fun hmem => h.fresh u hu (hsame.mp hmem)
  covered := fun e he => (h.covered e he).imp_left fun hm =>
    hf.processed.subset hm

theorem Deltas.frame (hf : Frame i w w') (htx : w.txs.get? i = some tx)
    (h : Deltas gs new w.db tx.writes) : Deltas gs new w'.db tx.writes := by
  intro g k
  rw [h g k]
  by_cases hg : gs g = true
  · rw [if_pos hg, if_pos hg]
    cases hd : Summary.collect (amountsAt g k new) with
    | none => rfl
    | some d =>
        have hlock : Lock.rollup g k ∈ tx.writes.locks := by
          rw [Db.rollup_mem_locks, Dict.mem_keys_iff, h g k, if_pos hg, hd]
          exact ⟨_, rfl⟩
        have hsame : w.db.AgreesAt w'.db (.rollup g k) := hf.locked htx _ hlock
        rw [show (w'.db.rollup g).get? k = (w.db.rollup g).get? k from hsame]
  · rw [if_neg hg, if_neg hg]

/-- The markers an `INSERT ... ON CONFLICT DO NOTHING` has written. -/
theorem Marks.insert (consumer_id : String) (page : List RawEvent) (db : Db)
    {rows : List ProcessedMarker}
    (hrows : rows = freshBy id db.processed_rollup_events
      ((page.map (·.id)).map fun u => ⟨consumer_id, u⟩)) :
    Marks consumer_id page (rows.map (·.event_id)) db
      ((Stmt.markerWrites rows).overlay ∅) := by
  have hmem : ∀ m ∈ rows, ∃ e ∈ page, m = ⟨consumer_id, e.id⟩ := by
    intro m hm
    have hm' := freshBy_sublist.subset (hrows ▸ hm)
    simpa [eq_comm] using hm'
  have hfresh : ∀ m : ProcessedMarker, m ∈ rows ↔
      m ∈ (page.map (·.id)).map (fun u => ⟨consumer_id, u⟩) ∧
        m ∉ db.processed_rollup_events := by
    intro m
    have hiff := @mem_map_freshBy_iff _ _ _ id m
      ((page.map (·.id)).map fun u => ⟨consumer_id, u⟩)
      db.processed_rollup_events
    rw [List.map_id, List.map_id] at hiff
    rw [hrows]
    exact hiff
  -- the rows are the markers of their identifiers
  have hback : rows = (rows.map (·.event_id)).map fun u => ⟨consumer_id, u⟩ := by
    rw [List.map_map]
    conv_lhs => rw [← List.map_id rows]
    refine List.map_congr_left fun m hm => ?_
    obtain ⟨e, -, rfl⟩ := hmem m hm
    rfl
  refine ⟨?_, by simpa [Stmt.markerWrites] using hback, ?_, ?_, ?_⟩
  · have hnd : rows.Nodup := by
      have hmap := @nodup_map_freshBy _ _ _ id
        ((page.map (·.id)).map fun u => (⟨consumer_id, u⟩ : ProcessedMarker))
        db.processed_rollup_events
      rwa [List.map_id, ← hrows] at hmap
    rw [hback] at hnd
    exact hnd.of_map _
  · intro u hu
    obtain ⟨m, hm, rfl⟩ := List.mem_map.mp hu
    obtain ⟨e, he, rfl⟩ := hmem m hm
    exact ⟨e, he, rfl⟩
  · intro u hu
    obtain ⟨m, hm, rfl⟩ := List.mem_map.mp hu
    obtain ⟨e, he, rfl⟩ := hmem m hm
    exact ((hfresh _).mp hm).2
  · intro e he
    by_cases h : (⟨consumer_id, e.id⟩ : ProcessedMarker) ∈
        db.processed_rollup_events
    · exact .inl h
    · refine .inr (List.mem_map.mpr ⟨⟨consumer_id, e.id⟩, ?_, rfl⟩)
      refine (hfresh _).mpr ⟨?_, h⟩
      exact List.mem_map_of_mem (f := fun u => (⟨consumer_id, u⟩ :
        ProcessedMarker)) (List.mem_map_of_mem he)

/-- Nothing to aggregate, nothing to upsert. -/
theorem Deltas.of_nil {db ws : Db} (h : Deltas (fun _ => false) new db ws)
    (hnew : new = []) : Deltas gs new db ws := by
  intro g k
  rw [h g k, hnew]
  simp [absorbed]

end Stability

/-! ## One upsert -/

section Upsert

variable {pol : ServicePolicy} {S : History → Prop} {i : ℕ} {α : Type}
  {P : History → Redis → Prop}

/-- The state between two upserts of a batch. -/
structure Upserting (consumer_id : String) (page : List RawEvent)
    (ids : List UUID) (new : List RawEvent) (gs : RollupGranularity → Bool)
    (db : Db) (tx : Tx) : Prop where
  isOpen : tx.aborted = false
  marks : Marks consumer_id page ids db tx.writes
  deltas : Deltas gs new db tx.writes
  others : tx.writes.merchants = [] ∧ tx.writes.raw_events = [] ∧
    tx.writes.event_idempotency = [] ∧ tx.writes.leaderboard_snapshots = ∅ ∧
    tx.writes.consumer_offsets = ∅

theorem Upserting.frame {consumer_id : String} {page new : List RawEvent}
    {ids : List UUID} {gs : RollupGranularity → Bool} {w w' : World} {tx : Tx}
    (hf : Frame i w w') (htx : w.txs.get? i = some tx)
    (h : Upserting consumer_id page ids new gs w.db tx) :
    Upserting consumer_id page ids new gs w'.db tx :=
  ⟨h.isOpen, h.marks.frame hf htx, h.deltas.frame hf htx, h.others⟩

theorem Upserting.upsert {consumer_id : String} {page new : List RawEvent}
    {ids : List UUID} {gs : RollupGranularity → Bool} {db : Db} {tx : Tx}
    {g : RollupGranularity} (hg : gs g = false)
    (h : Upserting consumer_id page ids new gs db tx) :
    Upserting consumer_id page ids new (fun g' => g' = g || gs g') db
      { tx with writes := (Stmt.rollupWrites g (Dict.ofList
          ((aggregateBy g new).values.map (Stmt.absorb
            ((tx.writes.overlay db).rollup g))))).overlay tx.writes } where
  isOpen := h.isOpen
  marks := ⟨h.marks.nodup, by simpa [Stmt.rollupWrites] using h.marks.written,
    h.marks.paged, h.marks.fresh, h.marks.covered⟩
  others := by
    obtain ⟨h₁, h₂, h₃, h₄, h₅⟩ := h.others
    simp [Stmt.rollupWrites, Db.overlay, h₁, h₂, h₃, h₄, h₅]
  deltas := by
    intro g' k
    rw [Db.get?_overlay_rollup]
    have hnone : (tx.writes.rollup g).get? k = none := by
      rw [h.deltas g k, hg]
      rfl
    by_cases hg' : g' = g
    · subst hg'
      rw [if_pos (by simp), hnone, Option.or_none]
      simp only [Stmt.rollupWrites, if_true]
      rw [get?_absorb, row_aggregateBy, Db.get?_overlay_rollup, hnone,
        Option.none_or]
    · have hws : ((Stmt.rollupWrites g (Dict.ofList
          ((aggregateBy g new).values.map (Stmt.absorb
            ((tx.writes.overlay db).rollup g))))).rollup g').get? k = none := by
        simp [Stmt.rollupWrites, hg']
      rw [hws, Option.none_or, h.deltas g' k]
      simp [hg']

/-- An empty map: the upsert is skipped. -/
theorem Upserting.upsert_nil {consumer_id : String} {page new : List RawEvent}
    {ids : List UUID} {gs : RollupGranularity → Bool} {db : Db} {tx : Tx}
    {g : RollupGranularity} (hg : gs g = false)
    (hempty : (aggregateBy g new).entries = [])
    (h : Upserting consumer_id page ids new gs db tx) :
    Upserting consumer_id page ids new (fun g' => g' = g || gs g') db tx where
  isOpen := h.isOpen
  marks := h.marks
  others := h.others
  deltas := by
    intro g' k
    rw [h.deltas g' k]
    by_cases hg' : g' = g
    · subst hg'
      have hnone : (aggregateBy g' new).get? k = none := by
        rw [Dict.get?_eq_none_iff, Dict.keys, hempty]
        exact List.not_mem_nil
      rw [hg, ← row_aggregateBy, hnone]
      simp [absorbed]
    · simp [hg']

theorem wp_batchUpsert {Q : Except PyError α → World → Prop} {w : World}
    {tx : Tx} {consumer_id : String} {page new : List RawEvent}
    {ids : List UUID} {gs : RollupGranularity → Bool} {g : RollupGranularity}
    {f : Unit → Service α} (hP : Stable pol S i P)
    (hw : P w.toHistory w.redis) (hg : gs g = false)
    (htx : w.txs.get? i = some tx)
    (h : Upserting consumer_id page ids new gs w.db tx)
    (hnext : ∀ w' tx', P w'.toHistory w'.redis →
      w'.txs.get? i = some tx' →
      Upserting consumer_id page ids new (fun g' => g' = g || gs g') w'.db tx' →
      Wp pol (Inv S) i (f ()) Q w') :
    Wp pol (Inv S) i
      (RollupRepository.batchUpsert g (aggregateBy g new) >>= f) Q w := by
  unfold RollupRepository.batchUpsert
  split
  · rename_i hempty
    exact hnext w tx hw htx (h.upsert_nil hg hempty)
  · rw [execute_bind]
    refine wp_sql htx h.isOpen (by simp) ?_ ?_
    · intro w' ch x ws hr hi htx' _ hrun _
      simp only [Stmt.run] at hrun
      split at hrun
      · cases hrun
        have hup := (h.frame (frame_of_rely hr) htx).upsert hg
        have hw' := hP hr hi hw
        refine ⟨hi.2, hnext (w'.setTx i _) _ hw' ?_ hup⟩
        rw [World.get?_setTx, if_pos rfl]
        rfl
      · cases hrun
    · intro w' ch e hr hi htx' hrun _
      simp only [Stmt.run] at hrun
      split at hrun
      · cases hrun
      · rename_i hdup
        exact absurd (aggregateBy g new).nodup_values hdup

/-- The three upserts of a batch, or none when nothing is new. -/
theorem wp_upsertDeltas {Q : Except PyError α → World → Prop} {w : World}
    {tx : Tx} {consumer_id : String} {page new : List RawEvent}
    {ids : List UUID} {f : Unit → Service α} (hP : Stable pol S i P)
    (hw : P w.toHistory w.redis) (htx : w.txs.get? i = some tx)
    (h : Upserting consumer_id page ids new (fun _ => false) w.db tx)
    (hnext : ∀ w' tx', P w'.toHistory w'.redis →
      w'.txs.get? i = some tx' →
      Upserting consumer_id page ids new (fun _ => true) w'.db tx' →
      Wp pol (Inv S) i (f ()) Q w') :
    Wp pol (Inv S) i (RollupWorker.upsertDeltas new >>= f) Q w := by
  unfold RollupWorker.upsertDeltas
  split
  · rename_i hnew
    exact hnext w tx hw htx ⟨h.isOpen, h.marks, h.deltas.of_nil hnew, h.others⟩
  · rw [aggregateBatch_eq]
    simp only [bind_assoc]
    refine wp_batchUpsert hP hw rfl htx h fun w₁ tx₁ hw₁ htx₁ h₁ => ?_
    refine wp_batchUpsert hP hw₁ (by simp) htx₁ h₁ fun w₂ tx₂ hw₂ htx₂ h₂ => ?_
    refine wp_batchUpsert hP hw₂ (by simp) htx₂ h₂ fun w₃ tx₃ hw₃ htx₃ h₃ => ?_
    have hall : (fun g' => decide (g' = RollupGranularity.day) ||
        (decide (g' = .hour) || (decide (g' = .minute) || false))) =
        fun _ => true := by
      funext g'
      cases g' <;> rfl
    exact hnext w₃ tx₃ hw₃ htx₃ (hall ▸ h₃)

end Upsert

/-! ## The whole transaction -/

/-- What an argument about batches tracks while one runs, and what it must show
at the three points where a batch meets the shared state: the offset it reads,
the page it fetches, the commit. -/
structure BatchHooks (pol : ServicePolicy) (S : History → Prop) (i : ℕ)
    (settings : Settings) where
  start : History → Redis → Prop
  cursor : Option UUID → History → Redis → Prop
  fetched : Fetch → History → Redis → Prop
  done : Option (List RawEvent × List RawEvent) → History → Redis → Prop
  failed : History → Redis → Prop
  stable_start : Stable pol S i start
  stable_cursor : ∀ last, Stable pol S i (cursor last)
  stable_fetched : ∀ f, Stable pol S i (fetched f)
  stable_done : ∀ x, Stable pol S i (done x)
  stable_failed : Stable pol S i failed
  offset : ∀ {w : World}, Inv S w → start w.toHistory w.redis →
    cursor ((w.db.consumer_offsets.get? settings.worker_id).bind
      ConsumerOffset.last_event_id) w.toHistory w.redis
  fetch : ∀ {w : World} {last : Option UUID} {ch : Choice} {f : Fetch},
    Inv S w → cursor last w.toHistory w.redis →
    pol.call w i
      (.sql (.selectRawEventsAfter last settings.worker_batch_size)) ch →
    f.Valid → f.last_event_id = last → f.limit = settings.worker_batch_size →
    f.seen = w.db.raw_events →
    S (w.toHistory.fetch f) ∧
      if f.page = [] then done none (w.toHistory.fetch f) w.redis
      else fetched f (w.toHistory.fetch f) w.redis
  fetch_error : ∀ {w : World} {last : Option UUID} {scan : List RawEvent}
    {e : DbError}, Inv S w → cursor last w.toHistory w.redis →
    scan.Perm w.db.raw_events →
    Stmt.eventsAfter w.db.raw_events last settings.worker_batch_size scan =
      .error e →
    failed w.toHistory w.redis
  commit : ∀ {w : World} {f : Fetch} {new : List RawEvent} {tx : Tx},
    Inv S w → fetched f w.toHistory w.redis → w.txs.get? i = some tx →
    tx.aborted = false → pol.call w i (.commit []) .auto →
    BatchTx settings w.toHistory f new tx.writes →
    S (w.toHistory.install tx.writes []) ∧
      done (some (f.page, new)) (w.toHistory.install tx.writes []) w.redis

section Transaction

variable {pol : ServicePolicy} {S : History → Prop} {i : ℕ}
  {settings : Settings}

def BatchHooks.post (H : BatchHooks pol S i settings)
    (r : Except PyError (Option (List RawEvent × List RawEvent))) (w : World) :
    Prop :=
  match r with
  | .ok x => H.done x w.toHistory w.redis
  | .error _ => H.failed w.toHistory w.redis

/-- The fetch a batch has just made, as the rest of it remembers it. -/
def BatchHooks.paged (H : BatchHooks pol S i settings) (f : Fetch)
    (h : History) (r : Redis) : Prop :=
  H.fetched f h r ∧ f ∈ h.fetches ∧ f.seen <+: h.db.raw_events

theorem BatchHooks.stable_paged (H : BatchHooks pol S i settings) (f : Fetch) :
    Stable pol S i (H.paged f) := by
  rintro w w' hr hi ⟨hf, hmem, hseen⟩
  have hframe := frame_of_rely hr
  exact ⟨H.stable_fetched f hr hi hf, hframe.fetches.subset hmem,
    hseen.trans hframe.raw_events⟩

/-- The offset and the commit. -/
theorem wp_offset (H : BatchHooks pol S i settings) {w : World} {f : Fetch}
    {last : RawEvent} {tx : Tx} {ids : List UUID}
    (htx : w.txs.get? i = some tx)
    (h : Upserting settings.worker_id f.page ids
      (f.page.filter (·.id ∈ ids)) (fun _ => true) w.db tx)
    (hlast : f.page.getLast? = some last) (hvalid : f.Valid)
    (hlimit : f.limit = settings.worker_batch_size)
    (hw : H.paged f w.toHistory w.redis) :
    Wp pol (Inv S) i
      (do
        RollupRepository.upsertConsumerOffset settings.worker_id last.id
          last.occurred_at
        perform (.commit [])
        pure (some (f.page, f.page.filter (·.id ∈ ids)))) H.post w := by
  unfold RollupRepository.upsertConsumerOffset
  rw [execute_bind]
  refine wp_sql htx h.isOpen (by simp) ?_ ?_
  · intro w₁ ch x ws hr hi _ _ hrun _
    simp only [Stmt.run, Option.some.injEq, Except.ok.injEq,
      Prod.mk.injEq] at hrun
    obtain ⟨-, rfl⟩ := hrun
    refine ⟨hi.2, ?_⟩
    generalize hws : (Stmt.offsetWrites settings.worker_id
      ⟨some last.id, some last.occurred_at⟩).overlay tx.writes = ws
    have hup := h.frame (frame_of_rely hr) htx
    -- marks and deltas are those written before; the offset adds none
    have hw₁ := H.stable_paged f hr hi hw
    have hmarks : Marks settings.worker_id f.page ids w₁.db ws :=
      ⟨hup.marks.nodup,
        by simpa [← hws, Stmt.offsetWrites] using hup.marks.written,
        hup.marks.paged, hup.marks.fresh, hup.marks.covered⟩
    have hdeltas : Deltas (fun _ => true) (f.page.filter (·.id ∈ ids)) w₁.db
        ws := by
      intro g k
      rw [← hws, Db.get?_overlay_rollup, ← hup.deltas g k]
      simp [Stmt.offsetWrites]
    have hset : (w₁.setTx i { tx with writes := ws }).txs.get? i =
        some { tx with writes := ws } := by
      rw [World.get?_setTx, if_pos rfl]
    refine wp_commit hset ?_ ?_
    · intro hab
      exact absurd hab (by simp [h.isOpen])
    · intro _ w₂ hr₂ hi₂ htx₂ hpol
      have hframe : Frame i (w₁.setTx i { tx with writes := ws }) w₂ :=
        frame_of_rely hr₂
      have hw₂ := H.stable_paged f hr₂ hi₂ hw₁
      obtain ⟨h₁, h₂, h₃, h₄, h₅⟩ := h.others
      -- what the commit installs
      have hbatch : BatchTx settings w₂.toHistory f
          (f.page.filter (·.id ∈ ids)) ws :=
        { fetched := hw₂.2.1
          valid := hvalid
          limit := hlimit
          seen := hw₂.2.2
          marks := ⟨ids, hmarks.frame hframe hset, rfl⟩
          deltas := hdeltas.frame hframe hset
          offset := ⟨last, hlast, by
            simp [← hws, Db.overlay, h₅, Stmt.offsetWrites, Dict.overlay,
              Dict.set, Dict.alter, Dict.alterEntries]⟩
          appends := by
            simp [← hws, Db.overlay, h₁, h₂, h₃, h₄, Stmt.offsetWrites] }
      obtain ⟨hS, hdone⟩ := H.commit hi₂ hw₂.1 htx₂ h.isOpen hpol hbatch
      exact ⟨hS, wp_ret fun w₃ hr₃ hi₃ => H.stable_done _ hr₃ hi₃ hdone⟩
  · intro w₁ ch e _ _ _ hrun _
    simp [Stmt.run] at hrun

/-- The markers and everything after them. -/
theorem wp_markers (H : BatchHooks pol S i settings) {w : World} {f : Fetch}
    {last : RawEvent} {tx : Tx} (htx : w.txs.get? i = some tx)
    (hopen : tx.aborted = false) (hempty : tx.writes = ∅)
    (hlast : f.page.getLast? = some last) (hvalid : f.Valid)
    (hlimit : f.limit = settings.worker_batch_size)
    (hw : H.paged f w.toHistory w.redis) :
    Wp pol (Inv S) i
      (do
        let new_ids ← RollupWorker.insertProcessedMarkers settings.worker_id
          (f.page.map (·.id))
        let new_events := f.page.filter (·.id ∈ new_ids)
        RollupWorker.upsertDeltas new_events
        RollupRepository.upsertConsumerOffset settings.worker_id last.id
          last.occurred_at
        perform (.commit [])
        pure (some (f.page, new_events))) H.post w := by
  unfold RollupWorker.insertProcessedMarkers
  rw [execute_bind]
  refine wp_sql htx hopen (by simp) ?_ ?_
  · intro w₁ ch x ws hr hi htx₁ _ hrun _
    simp only [Stmt.run, Option.some.injEq, Except.ok.injEq,
      Prod.mk.injEq] at hrun
    obtain ⟨rfl, rfl⟩ := hrun
    have hview : (w₁.view tx).processed_rollup_events =
        w₁.db.processed_rollup_events := by
      simp [World.view, hempty]
    rw [hview, hempty]
    refine ⟨hi.2, ?_⟩
    generalize hrows : freshBy id w₁.db.processed_rollup_events
      ((f.page.map (·.id)).map fun u => ⟨settings.worker_id, u⟩) = rows
    have hmarks := Marks.insert settings.worker_id f.page w₁.db hrows.symm
    have hw₁ := H.stable_paged f hr hi hw
    have hup : Upserting settings.worker_id f.page (rows.map (·.event_id))
        (f.page.filter (·.id ∈ rows.map (·.event_id))) (fun _ => false) w₁.db
        { tx with writes := (Stmt.markerWrites rows).overlay ∅ } :=
      ⟨hopen, hmarks, fun g k => by simp [Stmt.markerWrites],
        by simp [Stmt.markerWrites, Db.overlay]⟩
    refine wp_upsertDeltas (w := w₁.setTx i _) (P := H.paged f)
      (H.stable_paged f) hw₁ ?_ hup ?_
    · rw [World.get?_setTx, if_pos rfl]
    · intro w₂ tx₂ hw₂ htx₂ h₂
      exact wp_offset H htx₂ h₂ hlast hvalid hlimit hw₂
  · intro w₁ ch e _ _ _ hrun _
    simp [Stmt.run] at hrun

theorem wp_batchTransaction (H : BatchHooks pol S i settings) {w : World}
    {tx : Tx} (htx : w.txs.get? i = some tx) (hopen : tx.aborted = false)
    (hempty : tx.writes = ∅) (hw : H.start w.toHistory w.redis) :
    Wp pol (Inv S) i (RollupWorker.batchTransaction settings) H.post w := by
  unfold RollupWorker.batchTransaction RollupRepository.getConsumerOffset
    EventRepository.getEventsAfter
  rw [execute_bind]
  refine wp_read (by simp) (fun _ _ _ => rfl) (fun _ _ _ => rfl) htx hopen ?_
  intro w₁ hr₁ hi₁ htx₁
  have hview₁ : w₁.view tx = w₁.db := by
    rw [World.view, hempty, Db.empty_overlay]
  -- the offset fixes the cursor of the page
  have hcursor := H.offset hi₁ (H.stable_start hr₁ hi₁ hw)
  rw [hview₁]
  simp only
  generalize (w₁.db.consumer_offsets.get? settings.worker_id).bind
    ConsumerOffset.last_event_id = last_event_id at hcursor ⊢
  rw [execute_bind]
  refine wp_sql htx₁ hopen (by simp) ?_ ?_
  · intro w₂ ch page ws hr₂ hi₂ htx₂ hpol hrun _
    have hview₂ : w₂.view tx = w₂.db := by
      rw [World.view, hempty, Db.empty_overlay]
    rw [hview₂] at hrun ⊢
    obtain ⟨scan, rfl, hperm, hafter, rfl⟩ :=
      Stmt.run_selectRawEventsAfter.mp hrun
    have hfetch := H.fetch hi₂ (H.stable_cursor _ hr₂ hi₂ hcursor) hpol
      (f := ⟨last_event_id, settings.worker_batch_size, w₂.db.raw_events, page⟩)
      ⟨scan, hperm, hafter⟩ rfl rfl rfl
    obtain ⟨hS, hpage⟩ := hfetch
    refine ⟨hS, ?_⟩
    dsimp only
    -- an empty page ends the batch; the last row of another is the new offset
    cases hlast : page.getLast? with
    | none =>
        rw [if_pos (List.getLast?_eq_none_iff.mp hlast)] at hpage
        refine wp_ret (Q := H.post) fun w₃ hr₃ hi₃ => ?_
        exact H.stable_done none hr₃ hi₃ hpage
    | some last =>
        have hne : page ≠ [] := by
          rintro rfl
          simp at hlast
        rw [if_neg hne] at hpage
        generalize hf : (⟨last_event_id, settings.worker_batch_size,
          w₂.db.raw_events, page⟩ : Fetch) = f at hpage
        have hpaged : H.paged f (w₂.toHistory.fetch f) w₂.redis := by
          refine ⟨hpage, List.mem_append_right _ (List.mem_singleton.mpr rfl), ?_⟩
          exact hf ▸ List.prefix_rfl
        subst hf
        have hset : (World.setTx (w₂.observe w₂.db
            (.selectRawEventsAfter last_event_id settings.worker_batch_size)
            page) i { tx with writes := (∅ : Db).overlay tx.writes }).txs.get? i =
            some { tx with writes := (∅ : Db).overlay tx.writes } := by
          rw [World.get?_setTx, if_pos rfl]
        exact wp_markers H hset hopen ((Db.empty_overlay _).trans hempty) hlast
          ⟨scan, hperm, hafter⟩ rfl hpaged
  · intro w₂ ch e hr₂ hi₂ htx₂ hrun _
    have hview₂ : w₂.view tx = w₂.db := by
      rw [World.view, hempty, Db.empty_overlay]
    rw [hview₂] at hrun
    have hcursor₂ := H.stable_cursor _ hr₂ hi₂ hcursor
    -- only an identifier that two rows of the log share makes the query fail
    have hfailed : H.failed w₂.toHistory w₂.redis := by
      cases ch with
      | rows scan =>
          simp only [Stmt.run] at hrun
          split at hrun
          · rename_i hperm
            cases hafter : Stmt.eventsAfter w₂.db.raw_events last_event_id
                settings.worker_batch_size scan with
            | ok page => simp [hafter, Except.map] at hrun
            | error e' => exact H.fetch_error hi₂ hcursor₂ hperm hafter
          · cases hrun
      | _ => simp [Stmt.run] at hrun
    exact wp_ret fun w₃ hr₃ hi₃ => H.stable_failed hr₃ hi₃ hfailed

/-- **A worker batch under interference**: whatever the other sessions do, it
meets the shared state only through the hooks. -/
theorem wp_batchScope (H : BatchHooks pol S i settings) {w : World}
    (hidle : w.txs.get? i = none) (hw : H.start w.toHistory w.redis) :
    Wp pol (Inv S) i
      (sessionScope (RollupWorker.batchTransaction settings))
      (fun r w => w.txs.get? i = none ∧ H.post r w) w := by
  refine wp_sessionScope (R := H.post) hidle ?_ ?_
  · intro w₁ t hr hi _
    refine wp_batchTransaction H (by rw [World.get?_setTx, if_pos rfl]) rfl rfl ?_
    have hstart := H.stable_start hr hi hw
    exact hstart
  · intro r w₁ w₂ _ hpost hr hi
    refine ⟨?_, ?_⟩
    · rw [(frame_of_rely hr).tx, World.get?_dropTx, if_pos rfl]
    · cases r with
      | ok x => exact H.stable_done x hr hi hpost
      | error e => exact H.stable_failed hr hi hpost

end Transaction

end AnalyticsPipeline
