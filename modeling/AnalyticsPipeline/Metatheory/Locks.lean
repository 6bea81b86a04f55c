import AnalyticsPipeline.Framework.Traversal
import AnalyticsPipeline.Model.World

/-!
# Locks

The keys a statement locks, the keys it writes, and what installing rows
elsewhere does to the rows under a lock: nothing.
-/

namespace AnalyticsPipeline

open Framework

/-! ## Rows at a key -/

/-- The two databases hold the same rows at the key. -/
def Db.AgreesAt (d d' : Db) : Lock → Prop
  | .merchant id => ∀ m, m.id = id → (m ∈ d'.merchants ↔ m ∈ d.merchants)
  | .rawEvent id t => ∀ r, r.id = id → r.occurred_at = t →
      (r ∈ d'.raw_events ↔ r ∈ d.raw_events)
  | .idempotency key => ∀ r, r.idempotency_key = key →
      (r ∈ d'.event_idempotency ↔ r ∈ d.event_idempotency)
  | .marker m => m ∈ d'.processed_rollup_events ↔ m ∈ d.processed_rollup_events
  | .rollup g k => (d'.rollup g).get? k = (d.rollup g).get? k
  | .offset c => d'.consumer_offsets.get? c = d.consumer_offsets.get? c
  | .snapshot k =>
      d'.leaderboard_snapshots.get? k = d.leaderboard_snapshots.get? k

namespace Db.AgreesAt

theorem refl (d : Db) (l : Lock) : d.AgreesAt d l := by
  cases l <;> simp [Db.AgreesAt]

theorem trans {d d' d'' : Db} {l : Lock} (h : d.AgreesAt d' l)
    (h' : d'.AgreesAt d'' l) : d.AgreesAt d'' l := by
  cases l with
  | merchant id => exact fun m hm => (h' m hm).trans (h m hm)
  | rawEvent id t => exact fun r hr ht => (h' r hr ht).trans (h r hr ht)
  | idempotency key => exact fun r hr => (h' r hr).trans (h r hr)
  | marker m => exact Iff.trans h' h
  | rollup g k => exact Eq.trans h' h
  | offset c => exact Eq.trans h' h
  | snapshot k => exact Eq.trans h' h

/-- Writing rows elsewhere leaves the key alone. -/
theorem overlay {ws : Db} (d : Db) {l : Lock} (h : l ∉ ws.locks) :
    d.AgreesAt (ws.overlay d) l := by
  cases l with
  | merchant id =>
      intro m hm
      have hnot : m ∉ ws.merchants := fun hmem =>
        h (merchant_mem_locks.mpr ⟨m, hmem, hm⟩)
      simp [hnot]
  | rawEvent id t =>
      intro r hr ht
      have hnot : r ∉ ws.raw_events := fun hmem =>
        h (rawEvent_mem_locks.mpr ⟨r, hmem, hr, ht⟩)
      simp [hnot]
  | idempotency key =>
      intro r hr
      have hnot : r ∉ ws.event_idempotency := fun hmem =>
        h (idempotency_mem_locks.mpr ⟨r, hmem, hr⟩)
      simp [hnot]
  | marker m =>
      have hnot : m ∉ ws.processed_rollup_events := fun hmem =>
        h (marker_mem_locks.mpr hmem)
      simp [Db.AgreesAt, hnot]
  | rollup g k =>
      have hnone : (ws.rollup g).get? k = none :=
        Dict.get?_eq_none_iff.mpr fun hk => h (rollup_mem_locks.mpr hk)
      simp [Db.AgreesAt, hnone]
  | offset c =>
      have hnone : ws.consumer_offsets.get? c = none :=
        Dict.get?_eq_none_iff.mpr fun hk => h (offset_mem_locks.mpr hk)
      simp [Db.AgreesAt, hnone]
  | snapshot k =>
      have hnone : ws.leaderboard_snapshots.get? k = none :=
        Dict.get?_eq_none_iff.mpr fun hk => h (snapshot_mem_locks.mpr hk)
      simp [Db.AgreesAt, hnone]

end Db.AgreesAt

theorem Db.mem_locks_overlay {ws base : Db} {l : Lock} :
    l ∈ (ws.overlay base).locks ↔ l ∈ ws.locks ∨ l ∈ base.locks := by
  cases l with
  | merchant id =>
      simp only [Db.merchant_mem_locks, Db.overlay_merchants, List.mem_append,
        or_and_right, exists_or]
      exact or_comm
  | rawEvent id t =>
      simp only [Db.rawEvent_mem_locks, Db.overlay_raw_events, List.mem_append,
        or_and_right, exists_or]
      exact or_comm
  | idempotency key =>
      simp only [Db.idempotency_mem_locks, Db.overlay_event_idempotency,
        List.mem_append, or_and_right, exists_or]
      exact or_comm
  | marker m =>
      simp only [Db.marker_mem_locks, Db.overlay_processed, List.mem_append]
      exact or_comm
  | rollup g k =>
      rw [Db.rollup_mem_locks, Db.rollup_mem_locks, Db.rollup_mem_locks]
      exact Dict.mem_keys_overlay
  | offset c =>
      rw [Db.offset_mem_locks, Db.offset_mem_locks, Db.offset_mem_locks]
      exact Dict.mem_keys_overlay
  | snapshot k =>
      rw [Db.snapshot_mem_locks, Db.snapshot_mem_locks, Db.snapshot_mem_locks]
      exact Dict.mem_keys_overlay

/-! ## What a statement writes -/

namespace Stmt

@[simp] theorem locks_rawWrites (rows : List RawEvent) :
    (rawWrites rows).locks =
      rows.map fun r => .rawEvent r.id r.occurred_at := by
  simp [rawWrites, Db.locks, Dict.keys]

@[simp] theorem locks_idempotencyWrites (rows : List EventIdempotency) :
    (idempotencyWrites rows).locks =
      rows.map fun r => .idempotency r.idempotency_key := by
  simp [idempotencyWrites, Db.locks, Dict.keys]

@[simp] theorem locks_markerWrites (rows : List ProcessedMarker) :
    (markerWrites rows).locks = rows.map .marker := by
  simp [markerWrites, Db.locks, Dict.keys]

@[simp] theorem locks_rollupWrites (g : RollupGranularity) (rows : RollupTable) :
    (rollupWrites g rows).locks = rows.keys.map (.rollup g) := by
  cases g <;> simp [rollupWrites, Db.locks, Dict.keys]

@[simp] theorem locks_offsetWrites (c : String) (row : ConsumerOffset) :
    (offsetWrites c row).locks = [.offset c] := by
  simp [offsetWrites, Db.locks, Dict.keys, Dict.set, Dict.alter,
    Dict.alterEntries]

@[simp] theorem locks_snapshotWrites (k : SnapshotKey) (row : SnapshotRow) :
    (snapshotWrites k row).locks = [.snapshot k] := by
  simp [snapshotWrites, Db.locks, Dict.keys, Dict.set, Dict.alter,
    Dict.alterEntries]

end Stmt

/-! ## Columns -/

theorem integerColumn_eq_ok {n n' : ℤ} (h : integerColumn n = .ok n') :
    n' = n := by
  simp only [integerColumn] at h
  split at h
  · exact (Except.ok.inj h).symm
  · cases h

theorem textColumn_eq_ok {s s' : String} (h : textColumn s = .ok s') :
    s' = s := by
  simp only [textColumn] at h
  split at h
  · cases h
  · exact (Except.ok.inj h).symm

@[simp] theorem timestamptzColumn_utc (t : DateTime) :
    timestamptzColumn (.aware (.utc t)) = .ok t := by
  simp [timestamptzColumn]

/-- Every column of `u` holds what `v` supplies for it. -/
structure Holds (v : RawValues PyDateTime) (u : RawValues DateTime) : Prop where
  id : u.id = v.id
  event_type : u.event_type = v.event_type
  merchant_id : u.merchant_id = v.merchant_id
  amount_cents : integerColumn v.amount_cents = .ok u.amount_cents
  currency : charColumn 3 v.currency = .ok u.currency
  idempotency_key : textColumn v.idempotency_key = .ok u.idempotency_key
  occurred_at : u.occurred_at = v.occurred_at
  client_timestamp :
    v.client_timestamp.mapM timestamptzColumn = .ok u.client_timestamp
  metadata : jsonColumn v.metadata = .ok u.metadata

theorem RawValues.stored_eq_ok_iff {v : RawValues PyDateTime}
    {u : RawValues DateTime} : v.stored = .ok u ↔ Holds v u := by
  constructor
  · intro h
    simp only [RawValues.stored, bind, Except.bind] at h
    repeat' split at h
    all_goals cases h
    rename_i _ _ hamount _ _ hcurrency _ _ hkey _ _ htime _ _ hmetadata
    exact ⟨rfl, rfl, rfl, hamount, hcurrency, hkey, rfl, htime, hmetadata⟩
  · intro h
    obtain ⟨_, _, _, amount, currency, key, _, time, metadata⟩ := u
    obtain ⟨rfl, rfl, rfl, hamount, hcurrency, hkey, rfl, htime, hmetadata⟩ := h
    simp only [RawValues.stored, hamount, hcurrency, hkey, htime, hmetadata, bind,
      Except.bind]

/-- What of a row identifies it. -/
def RawValues.identity {τ : Type} (v : RawValues τ) : UUID × String × DateTime :=
  (v.id, v.idempotency_key, v.occurred_at)

theorem RawValues.identity_stored {v : RawValues PyDateTime}
    {v' : RawValues DateTime} (h : v.stored = .ok v') :
    RawValues.identity v' = RawValues.identity v := by
  have hcols := RawValues.stored_eq_ok_iff.mp h
  rw [RawValues.identity, RawValues.identity, hcols.id,
    textColumn_eq_ok hcols.idempotency_key, hcols.occurred_at]

/-- Storing changes no identity. -/
theorem mapM_stored_identity {vs : List (RawValues PyDateTime)}
    {vs' : List (RawValues DateTime)}
    (h : vs.mapM RawValues.stored = .ok vs') :
    vs'.map RawValues.identity = vs.map RawValues.identity :=
  map_eq_of_mapM_ok RawValues.identity_stored h

/-- Nor any amount. -/
theorem mapM_stored_amounts {vs : List (RawValues PyDateTime)}
    {vs' : List (RawValues DateTime)}
    (h : vs.mapM RawValues.stored = .ok vs') :
    vs'.map (·.amount_cents) = vs.map (·.amount_cents) :=
  map_eq_of_mapM_ok (fun hv =>
    integerColumn_eq_ok (RawValues.stored_eq_ok_iff.mp hv).amount_cents) h

namespace Stmt

variable {now : DateTime} {ch : Choice} {view : Db}

theorem run_selectRawEventsAfter {last : Option UUID} {limit : ℕ}
    {x : List RawEvent} {ws : Db} :
    (selectRawEventsAfter last limit).run now ch view = some (.ok (x, ws)) ↔
      ∃ scan, ch = .rows scan ∧ scan.Perm view.raw_events ∧
        eventsAfter view.raw_events last limit scan = .ok x ∧ ws = ∅ := by
  cases ch with
  | rows scan =>
      simp only [run, Choice.rows.injEq, exists_eq_left']
      by_cases hp : scan.Perm view.raw_events
      · rw [if_pos hp]
        cases eventsAfter view.raw_events last limit scan with
        | error e => simp [Except.map]
        | ok page => simp [Except.map, hp, eq_comm (a := ws)]
      · simp [hp]
  | _ => simp [run]

theorem run_insertIdempotency {values x : List EventIdempotency} {ws : Db} :
    (insertIdempotency values).run now ch view = some (.ok (x, ws)) ↔
      values.any (hasNul ·.idempotency_key) = false ∧
        x = freshBy (·.idempotency_key)
          (view.event_idempotency.map (·.idempotency_key)) values ∧
        ws = idempotencyWrites x := by
  simp only [run]
  cases values.any (hasNul ·.idempotency_key) with
  | true => simp
  | false =>
      simp only [Bool.false_eq_true, if_false, Option.some.injEq,
        Except.ok.injEq, Prod.mk.injEq, true_and]
      constructor
      · rintro ⟨rfl, rfl⟩
        exact ⟨rfl, rfl⟩
      · rintro ⟨rfl, rfl⟩
        exact ⟨rfl, rfl⟩

theorem run_insertRawEvents {values : List (RawValues PyDateTime)}
    {x : List RawEvent} {ws : Db} :
    (insertRawEvents values).run now ch view = some (.ok (x, ws)) ↔
      ∃ stored, values.mapM RawValues.stored = .ok stored ∧
        x = stored.map (fun v => { v with created_at := now }) ∧
        ((view.raw_events ++ x).map RawEvent.primaryKey).Nodup ∧
        ws = rawWrites x := by
  simp only [run]
  cases values.mapM RawValues.stored with
  | error e => simp
  | ok stored =>
      simp only [Except.ok.injEq, exists_eq_left']
      split
      · rename_i hnd
        simp only [Option.some.injEq, Except.ok.injEq, Prod.mk.injEq]
        constructor
        · rintro ⟨rfl, rfl⟩
          exact ⟨rfl, hnd, rfl⟩
        · rintro ⟨rfl, -, rfl⟩
          exact ⟨rfl, rfl⟩
      · rename_i hnd
        simp only [Option.some.injEq, reduceCtorEq, false_iff]
        rintro ⟨rfl, hnd', -⟩
        exact hnd hnd'

/-- A statement writes only keys it locks. -/
theorem run_locks : ∀ {s : Stmt} {x : s.Result} {ws : Db},
    s.run now ch view = some (.ok (x, ws)) → ∀ l ∈ ws.locks, l ∈ s.locks := by
  intro s x ws h l hl
  cases s with
  | insertIdempotency values =>
      obtain ⟨-, rfl, rfl⟩ := run_insertIdempotency.mp h
      rw [locks_idempotencyWrites, List.mem_map] at hl
      obtain ⟨r, hr, rfl⟩ := hl
      exact List.mem_map_of_mem (freshBy_sublist.subset hr)
  | insertRawEvents values =>
      obtain ⟨stored, hstored, rfl, -, rfl⟩ := run_insertRawEvents.mp h
      rw [locks_rawWrites, List.mem_map] at hl
      obtain ⟨r, hr, rfl⟩ := hl
      obtain ⟨v, hv, rfl⟩ := List.mem_map.mp hr
      -- storing keeps the columns that name the row
      have hmem : RawValues.identity v ∈ values.map RawValues.identity :=
        mapM_stored_identity hstored ▸ List.mem_map_of_mem hv
      obtain ⟨v₀, hv₀, heq⟩ := List.mem_map.mp hmem
      simp only [RawValues.identity, Prod.mk.injEq] at heq
      obtain ⟨h₁, -, h₂⟩ := heq
      exact List.mem_map.mpr ⟨v₀, hv₀, by rw [h₁, h₂]⟩
  | insertProcessedMarkers c ids =>
      simp only [run] at h
      cases h
      rw [locks_markerWrites, List.mem_map] at hl
      obtain ⟨m, hm, rfl⟩ := hl
      obtain ⟨u, hu, rfl⟩ := List.mem_map.mp (freshBy_sublist.subset hm)
      exact List.mem_map_of_mem hu
  | upsertRollup g values =>
      simp only [run] at h
      split at h
      · rename_i hnd
        cases h
        -- absorbing a delta keeps its key
        have hfst : (values.map (absorb (view.rollup g))).map Prod.fst =
            values.map Prod.fst := by
          simp [absorb, Function.comp_def]
        rw [locks_rollupWrites, List.mem_map] at hl
        obtain ⟨k, hk, rfl⟩ := hl
        rw [Dict.mem_keys_ofList (hfst ▸ hnd), hfst] at hk
        obtain ⟨v, hv, rfl⟩ := List.mem_map.mp hk
        exact List.mem_map_of_mem (f := fun v => Lock.rollup g v.1) hv
      · cases h
  | upsertConsumerOffset c id t =>
      simp only [run] at h
      cases h
      simpa [locks] using hl
  | upsertRollupRow g key count_delta amount_cents =>
      simp only [run] at h
      cases h
      simpa [locks, Dict.keys, Dict.set, Dict.alter, Dict.alterEntries] using hl
  | overwriteDayRow entry =>
      simp only [run] at h
      cases h
      simpa [locks, Dict.keys, Dict.set, Dict.alter, Dict.alterEntries] using hl
  | upsertSnapshot key row =>
      simp only [run] at h
      cases h
      simpa [locks] using hl
  | selectRawEventsAfter last limit =>
      obtain ⟨scan, -, -, -, rfl⟩ := run_selectRawEventsAfter.mp h
      simp at hl
  | pgNotify payload =>
      simp only [run] at h
      split at h <;> cases h
      simp at hl
  | selectLeaderboard _ _ _ | aggregateHours _ _ | selectDiscrepancies _ _
  | selectDailyVolumes _ _ | selectHistory _ _ =>
      simp only [run] at h
      repeat' split at h
      all_goals cases h
      simp at hl
  | selectOutcomes m start stop =>
      simp only [run] at h
      split at h <;> cases h <;> simp at hl
  | selectMerchantIds _ | selectIdempotency _ | selectRawEventsById _
  | selectRawEventsByKeys _ | selectConsumerOffset _ | selectBuckets _ _ _ _
  | selectSparkline _ _ =>
      cases h
      simp at hl

end Stmt

end AnalyticsPipeline
