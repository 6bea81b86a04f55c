import AnalyticsPipeline.Metatheory.SolitaryTransaction

/-!
# An ingest request alone

What a single event and a batch become when nobody interferes, in every case:
refused, found, stored, or lost because the notification aborted the
transaction.
-/

namespace AnalyticsPipeline

open Framework

/-! ## What can be stored -/

/-- The event as its columns store it, or the first one that refuses. The
identifier and the instant are not part of it. -/
def EventIngest.columns (e : EventIngest) : Except DbError (RawValues DateTime) :=
  (e.rawValues 0 default).stored

/-- A row without what is generated for it. -/
def RawEvent.content (r : RawEvent) : RawValues DateTime :=
  { r.toRawValues with id := 0, occurred_at := default }

/-- The keys that were claimed. -/
def Db.claimedKeys (db : Db) : List String :=
  db.event_idempotency.map (·.idempotency_key)

def Db.hasMerchant (db : Db) (id : UUID) : Prop := ∃ m ∈ db.merchants, m.id = id

/-- The event that a claimed key leads to, if each table has one. -/
def Db.storedEvent? (db : Db) (key : String) : Option RawEvent :=
  match db.event_idempotency.filter (·.idempotency_key = key) with
  | [c] =>
      match db.raw_events.filter (·.id = c.event_id) with
      | [row] => some row
      | _ => none
  | _ => none

theorem Deduplicated.storedEvent? {db : Db} {key : String}
    (hd : Deduplicated db) (hkey : key ∈ db.claimedKeys) :
    ∃ row ∈ db.raw_events, row.idempotency_key = key ∧
      db.storedEvent? key = some row := by
  obtain ⟨c, hc, rfl⟩ := List.mem_map.mp hkey
  obtain ⟨row, hrow, rfl⟩ := (hd.claims c).mp hc
  refine ⟨row, hrow, rfl, ?_⟩
  rw [Db.storedEvent?, filter_key_eq hd.keys hc]
  dsimp only
  rw [show row.claim.event_id = row.id from rfl, filter_key_eq hd.ids hrow]

/-- The event can be ingested: it is a duplicate, or its columns can be
stored. -/
structure Ingestible (db : Db) (e : EventIngest) : Prop where
  merchant : db.hasMerchant e.merchant_id
  key_text : hasNul e.idempotency_key = false
  columns : e.idempotency_key ∈ db.claimedKeys ∨ ∃ v, e.columns = .ok v

/-- What an ingest transaction writes. -/
def ingestWrites (rows : List RawEvent) (claims : List EventIdempotency) : Db :=
  { (∅ : Db) with raw_events := rows, event_idempotency := claims }

section Columns

variable {e : EventIngest} {v : RawValues DateTime}

theorem stored_rawValues (e : EventIngest) (u : UUID) (t : DateTime) :
    (e.rawValues u t).stored =
      e.columns.map fun v => { v with id := u, occurred_at := t } := by
  simp only [EventIngest.columns, RawValues.stored, EventIngest.rawValues]
  cases integerColumn e.amount_cents with
  | error err => rfl
  | ok n =>
      cases charColumn 3 e.currency with
      | error err => rfl
      | ok c =>
          cases textColumn e.idempotency_key with
          | error err => rfl
          | ok k =>
              cases e.client_timestamp.mapM timestamptzColumn with
              | error err => rfl
              | ok t =>
                  cases jsonColumn e.metadata with
                  | error err => rfl
                  | ok m => rfl

theorem key_of_columns (h : e.columns = .ok v) :
    v.idempotency_key = e.idempotency_key ∧ v.id = 0 ∧ v.occurred_at = default := by
  have hident := RawValues.identity_stored h
  simp only [RawValues.identity, EventIngest.rawValues, Prod.mk.injEq] at hident
  exact ⟨hident.2.1, hident.1, hident.2.2⟩

theorem hasNul_of_stored {v : RawValues PyDateTime} {v' : RawValues DateTime}
    (h : v.stored = .ok v') : hasNul v.idempotency_key = false := by
  have htext := (RawValues.stored_eq_ok_iff.mp h).idempotency_key
  unfold textColumn at htext
  split at htext
  · cases htext
  · rename_i hnul
    exact Bool.eq_false_of_not_eq_true hnul

theorem hasNul_of_columns (h : e.columns = .ok v) :
    hasNul e.idempotency_key = false := hasNul_of_stored h

theorem rawWrites_overlay (rows : List RawEvent)
    (claims : List EventIdempotency) :
    (Stmt.rawWrites rows).overlay ((Stmt.idempotencyWrites claims).overlay ∅) =
      ingestWrites rows claims := by
  rw [overlay_idempotencyWrites]
  simp [Stmt.rawWrites, Stmt.idempotencyWrites, Db.overlay, ingestWrites,
    Db.rollup_empty]

end Columns

/-- `IngestionService.ingestEvent`, whatever counts the event. -/
def ingestEventWith (record : ℕ → Service Unit) (event : EventIngest) :
    Service (EventIngestResponse × Bool) := do
  let found ← EventRepository.merchantExists event.merchant_id
  if found then do
    let occurred_at ← perform .now
    let (row, is_duplicate) ← EventRepository.insertEvent event occurred_at
    if is_duplicate then pure (row.response true, true)
    else do
      notifyBestEffort row.id
      record 1
      pure (row.response false, false)
  else throw (.merchantNotFound event.merchant_id.str)

/-- `IngestionService.announce`, whatever counts the rows. -/
def announceWith (record : ℕ → Service Unit) (inserted_rows : List RawEvent) :
    Service Unit :=
  match inserted_rows.getLast? with
  | none => pure ()
  | some last => do
      record inserted_rows.length
      notifyBestEffort last.id

/-- `IngestionService.ingestBatch`, whatever counts its rows. -/
def ingestBatchWith (record : ℕ → Service Unit) (events : List EventIngest) :
    Service BatchIngestResponse := do
  let merchant_ids := (events.map (·.merchant_id)).dedup
  let missing_merchants ← EventRepository.missingMerchantIds merchant_ids
  match missing_merchants with
  | missing :: _ => throw (.merchantNotFound missing.str)
  | [] => do
      let occurred_at ← perform .now
      let (inserted_rows, duplicate_count) ←
        EventRepository.insertBatch events occurred_at
      announceWith record inserted_rows
      let responses ←
        IngestionService.batchResponses events occurred_at inserted_rows
      pure ⟨inserted_rows.length, duplicate_count, responses⟩

/-- The counter counts while Redis is as in `j`, whatever Redis holds. -/
structure Records (fails : Bool) (i : ℕ) (r j : Redis)
    (record : ℕ → Service Unit) : Prop where
  after : ∀ {n : ℕ} {h : History} {d : Dict UUID ℕ} {t : Option Tx} {w : World}
    {Q : Except PyError Unit → World → Prop}, At i h r d t w →
    (Counts j → ∀ r' w', Counts r' → At i h r' d t w' → Q (.ok ()) w') →
    (¬ Counts j → ∀ err r' w', At i h r' d t w' → Q (.error err) w') →
    After (notifying fails) (M := services) i (record n) Q w

theorem records_recordIngestion (fails : Bool) (i : ℕ) (r : Redis) :
    Records fails i r r RedisRepository.recordIngestion := by
  constructor
  intro n h d t w Q hat hok herror
  refine after_write hat fun w' hat' => ?_
  by_cases hcounts : Counts r
  · obtain ⟨hres, hcounts'⟩ := hcounts.record n
    rw [hres]
    exact hok hcounts _ w' hcounts' hat'
  · obtain ⟨err, hres⟩ := not_counts_record hcounts n
    rw [hres]
    exact herror hcounts _ _ w' hat'

/-! ## A single event -/

section Event

variable {i : ℕ} {h : History} {r j : Redis} {d : Dict UUID ℕ} {w : World}
  {fails : Bool} {now occurred_at : DateTime} {e : EventIngest}
  {v : RawValues DateTime} {record : ℕ → Service Unit}

/-- The row of an event whose columns are `v`. -/
def EventIngest.newRow (v : RawValues DateTime) (u : UUID)
    (occurred_at now : DateTime) : RawEvent :=
  { v with id := u, occurred_at := occurred_at, created_at := now }

/-- The table under its primary key. -/
def Db.Keyed (db : Db) : Prop := (db.raw_events.map RawEvent.primaryKey).Nodup

theorem Deduplicated.keyed {db : Db} (h : Deduplicated db) : db.Keyed := by
  refine List.Nodup.of_map Prod.fst ?_
  rw [List.map_map]
  exact h.ids

theorem Db.Keyed.append {db : Db} (hk : db.Keyed) {rows : List RawEvent}
    (hids : (rows.map (·.id)).Nodup)
    (hnew : ∀ row ∈ rows, ∀ r ∈ db.raw_events, r.id ≠ row.id) :
    ((db.raw_events ++ rows).map RawEvent.primaryKey).Nodup := by
  have hrows : (rows.map RawEvent.primaryKey).Nodup := by
    refine List.Nodup.of_map Prod.fst ?_
    rwa [List.map_map]
  rw [List.map_append, List.nodup_append]
  refine ⟨hk, hrows, ?_⟩
  rintro _ hr _ hrow rfl
  obtain ⟨r, hr', rfl⟩ := List.mem_map.mp hr
  obtain ⟨row, hrow', heq⟩ := List.mem_map.mp hrow
  exact hnew row hrow' r hr' (congrArg Prod.fst heq).symm

theorem after_one {α : Type} {l : List α} {Q : Except PyError α → World → Prop}
    (hone : ∀ x, l = [x] → Q (.ok x) w)
    (hraise : (∀ x, l ≠ [x]) → ∀ err, Q (.error err) w) :
    After (notifying fails) (M := services) i (one l) Q w := by
  match l with
  | [] => exact after_ret (hraise (by simp) _)
  | [x] => exact after_ret (hone x rfl)
  | _ :: _ :: _ => exact after_ret (hraise (by simp) _)

theorem after_existingEvent {key : String} {tx : Tx}
    (hat : At i h r d (some tx) w) (hopen : tx.aborted = false)
    (hempty : tx.writes = ∅) :
    After (notifying fails) (M := services) i (EventRepository.existingEvent key)
      (fun x w' => At i h r d (some tx) w' ∧
        match h.db.storedEvent? key with
        | some row => x = .ok row
        | none => ∃ err, x = .error err) w := by
  have hview : tx.writes.overlay h.db = h.db := by
    rw [hempty, Db.empty_overlay]
  rw [EventRepository.existingEvent, Db.storedEvent?]
  refine after_bind (after_read hat hopen (by simp) (fun ch => rfl) ?_)
  intro w₁ hat₁
  dsimp only
  rw [hview]
  refine after_bind (after_one ?_ ?_)
  · intro c hc
    rw [hc]
    refine after_bind (after_read hat₁ hopen (by simp) (fun ch => rfl) ?_)
    intro w₂ hat₂
    dsimp only
    rw [hview]
    refine after_one (fun x hx => ⟨hat₂, by rw [hx]⟩) fun hne err => ⟨hat₂, ?_⟩
    split
    · rename_i row hrow
      split at hrow
      · rename_i row' hone
        exact absurd hone (hne row')
      · cases hrow
    · exact ⟨err, rfl⟩
  · intro hne err
    refine ⟨hat₁, ?_⟩
    split
    · rename_i row hrow
      split at hrow
      · rename_i c hone
        exact absurd hone (hne c)
      · cases hrow
    · exact ⟨err, rfl⟩

/-- The notification succeeds, or aborts the transaction unnoticed. -/
def Tx.notified (fails : Bool) (tx : Tx) : Tx :=
  if fails then { tx with aborted := true, writes := ∅ } else tx

theorem after_notify {tx : Tx} {id : UUID}
    {Q : Except PyError Unit → World → Prop} (hat : At i h r d (some tx) w)
    (hopen : tx.aborted = false)
    (hQ : ∀ w', At i h r d (some (tx.notified fails)) w' → Q (.ok ()) w') :
    After (notifying fails) (M := services) i (notifyBestEffort id) Q w := by
  rw [notifyBestEffort, EventRepository.notifyNewEvent]
  cases fails with
  | false =>
      refine after_tryCatch (@after_writes _ _ _ _ _ _ _ _ _ () ∅ hat hopen
        (by simp) (fun ch hch => ?_) fun w' hat' => ?_)
      · cases ch <;> simp_all [Stmt.run, notifying]
      · rw [Db.empty_overlay] at hat'
        exact hQ w' hat'
  | true =>
      refine after_tryCatch (after_fails hat hopen (by simp) (e := .notifyFailed)
        (fun ch hch => ?_) fun w' hat' => after_ret (hQ w' hat'))
      cases ch <;> simp_all [Stmt.run, notifying]

/-- A new event, its merchant known and its columns storable as `v`. -/
structure NewEvent (db : Db) (e : EventIngest) (v : RawValues DateTime) : Prop where
  merchant : db.hasMerchant e.merchant_id
  unclaimed : e.idempotency_key ∉ db.claimedKeys
  columns : e.columns = .ok v

/-- The request for the event succeeds: it finds the event of its key, or
stores and counts a new one. -/
structure Acceptable (db : Db) (r : Redis) (e : EventIngest) : Prop where
  merchant : db.hasMerchant e.merchant_id
  key_text : hasNul e.idempotency_key = false
  found : e.idempotency_key ∈ db.claimedKeys →
    ∃ row, db.storedEvent? e.idempotency_key = some row
  new : e.idempotency_key ∉ db.claimedKeys →
    (∃ v, e.columns = .ok v) ∧ Counts r

theorem Ingestible.acceptable {db : Db} (h : Ingestible db e)
    (hd : Deduplicated db) (hcounts : Counts r) : Acceptable db r e where
  merchant := h.merchant
  key_text := h.key_text
  found := fun hkey => by
    obtain ⟨row, -, -, hrow⟩ := hd.storedEvent? hkey
    exact ⟨row, hrow⟩
  new := fun hkey => ⟨h.columns.resolve_left hkey, hcounts⟩

theorem Acceptable.ingestible {db : Db} (h : Acceptable db r e) :
    Ingestible db e where
  merchant := h.merchant
  key_text := h.key_text
  columns := by
    by_cases hkey : e.idempotency_key ∈ db.claimedKeys
    · exact .inl hkey
    · exact .inr (h.new hkey).1

theorem NewEvent.acceptable {db : Db} (h : NewEvent db e v)
    (hcounts : Counts r) : Acceptable db r e where
  merchant := h.merchant
  key_text := hasNul_of_columns h.columns
  found := fun hkey => absurd hkey h.unclaimed
  new := fun _ => ⟨⟨v, h.columns⟩, hcounts⟩

/-- How the request for one event can end: what it answers and the tables it
leaves. A new event is answered the same whether it is stored or lost. -/
inductive EventOutcome (fails : Bool) (db : Db) (r : Redis) (e : EventIngest) :
    Except PyError (EventIngestResponse × Bool) → Db → Prop where
  | refused {err : PyError} : ¬ Acceptable db r e →
      EventOutcome fails db r e (.error err) db
  | found {row : RawEvent} : Acceptable db r e →
      e.idempotency_key ∈ db.claimedKeys →
      db.storedEvent? e.idempotency_key = some row →
      EventOutcome fails db r e (.ok (row.response true, true)) db
  | new {v : RawValues DateTime} {row : RawEvent} : NewEvent db e v → Counts r →
      row.content = v → row.idempotency_key = e.idempotency_key →
      EventOutcome fails db r e (.ok (row.response false, false))
        (if fails then db
        else (ingestWrites [row] [row.claim]).overlay db)

/-- What the body of the request leaves for `get_db`. -/
def EventReady (fails : Bool) (i : ℕ) (h : History) (r : Redis)
    (e : EventIngest) (x : Except PyError (EventIngestResponse × Bool))
    (w : World) : Prop :=
  ∃ r' d' tx, At i h r' d' (some tx) w ∧ (Counts r → Counts r') ∧
    EventOutcome fails h.db r e x (match x with
      | .ok _ => if tx.aborted then h.db else tx.writes.overlay h.db
      | .error _ => h.db)

/-- A new event after its insertion. -/
theorem after_announceEvent (hrecord : Records fails i r j record)
    {row : RawEvent}
    (hat : At i h r d (some ⟨now, false, ingestWrites [row] [row.claim]⟩) w)
    (hnew : NewEvent h.db e v) (hcontent : row.content = v)
    (hkey : row.idempotency_key = e.idempotency_key) :
    After (notifying fails) (M := services) i
      (do
        notifyBestEffort row.id
        record 1
        pure (row.response false, false)) (EventReady fails i h j e) w := by
  refine after_bind (after_notify hat rfl fun w₁ hat₁ => ?_)
  refine after_bind (hrecord.after hat₁ ?_ ?_)
  · intro hcounts r' w₂ hcounts' hat₂
    refine after_ret ⟨r', d, _, hat₂, fun _ => hcounts', ?_⟩
    have houtcome := @EventOutcome.new fails _ _ _ _ _ hnew hcounts hcontent hkey
    cases fails with
    | true => exact houtcome
    | false => exact houtcome
  · intro hcounts err r' w₂ hat₂
    exact ⟨r', d, _, hat₂, fun hc => absurd hc hcounts,
      .refused fun hacc => hcounts (hacc.new hnew.unclaimed).2⟩

theorem run_insertIdempotency_error {values : List EventIdempotency} {view : Db}
    {ch : Choice} {err : DbError}
    (hrun : (Stmt.insertIdempotency values).run now ch view =
      some (.error err)) :
    values.any (hasNul ·.idempotency_key) = true := by
  simp only [Stmt.run] at hrun
  split at hrun
  · assumption
  · cases hrun

theorem run_insertRawEvents_error {values : List (RawValues PyDateTime)} {view : Db}
    {err : DbError} (hstored : values.mapM RawValues.stored = .error err)
    (ch : Choice) :
    (Stmt.insertRawEvents values).run now ch view = some (.error err) := by
  rw [Stmt.run, hstored]

/-- The event of a key that was taken is found. -/
theorem after_foundEvent {Q : Except PyError (RawEvent × Bool) → World → Prop}
    {tx : Tx} (hat : At i h r d (some tx) w) (hopen : tx.aborted = false)
    (hempty : tx.writes = ∅) (hkey : e.idempotency_key ∈ h.db.claimedKeys)
    (hfound : ∀ row w', h.db.storedEvent? e.idempotency_key = some row →
      At i h r d (some tx) w' → Q (.ok (row, true)) w')
    (hrefused : ∀ err w', ¬ Acceptable h.db j e →
      At i h r d (some tx) w' → Q (.error err) w') :
    After (notifying fails) (M := services) i
      (do
        let existing_row ← EventRepository.existingEvent e.idempotency_key
        pure (existing_row, true)) Q w := by
  refine after_bind (After.mono ?_ (after_existingEvent hat hopen hempty))
  rintro x w₁ ⟨hat₁, hx⟩
  cases hfind : h.db.storedEvent? e.idempotency_key with
  | some row =>
      rw [hfind] at hx
      subst hx
      exact after_ret (hfound row w₁ hfind hat₁)
  | none =>
      rw [hfind] at hx
      obtain ⟨err, rfl⟩ := hx
      refine hrefused err w₁ (fun hacc => ?_) hat₁
      obtain ⟨row, hrow⟩ := hacc.found hkey
      rw [hfind] at hrow
      cases hrow

/-- The event of a key that was won is stored, unless a column refuses it. -/
theorem after_storeEvent {Q : Except PyError (RawEvent × Bool) → World → Prop}
    {u : UUID} (hat : At i h r d
      (some ⟨now, false, Stmt.idempotencyWrites [⟨e.idempotency_key, u⟩]⟩) w)
    (hpk : h.db.Keyed) (hunused : ∀ row ∈ h.db.raw_events, row.id ≠ u)
    (hkey : e.idempotency_key ∉ h.db.claimedKeys)
    (hnew : ∀ v row w', e.columns = .ok v → row.content = v →
      row.idempotency_key = e.idempotency_key →
      At i h r d (some ⟨now, false, ingestWrites [row] [row.claim]⟩) w' →
      Q (.ok (row, false)) w')
    (hrefused : ∀ err tx w', ¬ Acceptable h.db j e →
      At i h r d (some tx) w' → Q (.error err) w') :
    After (notifying fails) (M := services) i
      (do
        let rows ← execute (.insertRawEvents [e.rawValues u occurred_at])
        let row ← one rows
        pure (row, false)) Q w := by
  cases hcol : e.columns with
  | error err =>
      refine after_bind (after_fails hat rfl (by simp) (e := err)
        (fun ch _ => .inl (run_insertRawEvents_error ?_ ch)) ?_)
      · simp [stored_rawValues, hcol, Except.map]
      · intro w₁ hat₁
        refine hrefused _ _ w₁ (fun hacc => ?_) hat₁
        obtain ⟨⟨v, hv⟩, -⟩ := hacc.new hkey
        rw [hcol] at hv
        cases hv
  | ok v =>
      have hview : ((Stmt.idempotencyWrites
          [⟨e.idempotency_key, u⟩]).overlay h.db).raw_events =
          h.db.raw_events := by
        simp [Stmt.idempotencyWrites]
      refine after_bind (after_writes hat rfl (by simp)
        (x := [EventIngest.newRow v u occurred_at now])
        (fun ch _ => .inl (Stmt.run_insertRawEvents.mpr
          ⟨[{ v with id := u, occurred_at := occurred_at }], ?_, rfl, ?_, rfl⟩))
        ?_)
      · simp [stored_rawValues, hcol, Except.map]
      · rw [hview]
        refine hpk.append (by simp) ?_
        simp only [List.mem_singleton, forall_eq]
        exact hunused
      · intro w₁ hat₁
        obtain ⟨hk, hid, hoccurred⟩ := key_of_columns hcol
        refine after_ret (hnew v (EventIngest.newRow v u occurred_at now)
          w₁ hcol ?_ hk ?_)
        · rw [RawEvent.content, EventIngest.newRow, ← hid, ← hoccurred]
        · rw [← overlay_idempotencyWrites, rawWrites_overlay] at hat₁
          rwa [RawEvent.claim, show (EventIngest.newRow v u occurred_at
            now).idempotency_key = e.idempotency_key from hk]

/-- The insertion of an event: stored, found, or refused. -/
theorem after_insertEvent {Q : Except PyError (RawEvent × Bool) → World → Prop}
    (hat : At i h r d (some ⟨now, false, ∅⟩) w) (hraw : RawIssued h d)
    (hpk : h.db.Keyed)
    (hnew : ∀ v row d' w', e.idempotency_key ∉ h.db.claimedKeys →
      e.columns = .ok v → row.content = v →
      row.idempotency_key = e.idempotency_key →
      At i h r d' (some ⟨now, false, ingestWrites [row] [row.claim]⟩) w' →
      Q (.ok (row, false)) w')
    (hfound : ∀ row d' w', hasNul e.idempotency_key = false →
      e.idempotency_key ∈ h.db.claimedKeys →
      h.db.storedEvent? e.idempotency_key = some row →
      At i h r d' (some ⟨now, false, ∅⟩) w' → Q (.ok (row, true)) w')
    (hrefused : ∀ err d' tx w', ¬ Acceptable h.db j e →
      At i h r d' (some tx) w' → Q (.error err) w') :
    After (notifying fails) (M := services) i
      (EventRepository.insertEvent e occurred_at) Q w := by
  rw [EventRepository.insertEvent]
  refine after_uuid4 hat fun u w₁ hu hat₁ => ?_
  have hview : ((∅ : Db).overlay h.db) = h.db := Db.empty_overlay _
  refine after_bind (after_execute hat₁ rfl (by simp) ?_ ?_)
  · intro ch claimed ws w₂ _ hrun hat₂
    obtain ⟨hnul, rfl, rfl⟩ := Stmt.run_insertIdempotency.mp hrun
    rw [hview, overlay_idempotencyWrites] at hat₂
    rw [hview]
    -- the claim is lost to an earlier event, or won
    by_cases hkey : e.idempotency_key ∈ h.db.claimedKeys
    · have hnone : freshBy (·.idempotency_key) h.db.claimedKeys
          [(⟨e.idempotency_key, u⟩ : EventIdempotency)] = [] := by
        rw [freshBy, if_pos hkey, freshBy]
      rw [Db.claimedKeys] at hnone
      rw [hnone] at hat₂ ⊢
      exact after_foundEvent hat₂ rfl rfl hkey
        (fun row w₃ hfind hat₃ =>
          hfound row _ w₃ (by simpa using hnul) hkey hfind hat₃)
        (fun err w₃ hacc hat₃ => hrefused err _ _ w₃ hacc hat₃)
    · have hone : freshBy (·.idempotency_key) h.db.claimedKeys
          [(⟨e.idempotency_key, u⟩ : EventIdempotency)] =
          [⟨e.idempotency_key, u⟩] := freshBy_eq_self (by simp) (by simpa using hkey)
      rw [Db.claimedKeys] at hone
      rw [hone] at hat₂ ⊢
      exact after_storeEvent hat₂ hpk
        (fun row hrow heq => hraw row hrow (heq ▸ hu)) hkey
        (fun v row w₃ hcol hcontent hk hat₃ =>
          hnew v row _ w₃ hkey hcol hcontent hk hat₃)
        (fun err tx w₃ hacc hat₃ => hrefused err _ tx w₃ hacc hat₃)
  · intro ch err w₂ _ hrun hat₂
    have hnul : hasNul e.idempotency_key = true := by
      simpa using run_insertIdempotency_error hrun
    exact hrefused _ _ _ w₂ (fun hacc => by simp [hacc.key_text] at hnul) hat₂

theorem merchantExists_iff {db : Db} {id : UUID} :
    (!((db.merchants.filter (·.id ∈ [id])).map (·.id)).isEmpty) = true ↔
      db.hasMerchant id := by
  simp [Db.hasMerchant, List.filter_eq_nil_iff]

theorem after_ingestEvent (hrecord : Records fails i r j record)
    (hkept : Counts j → Counts r) (hat : At i h r d (some ⟨now, false, ∅⟩) w)
    (hraw : RawIssued h d) (hpk : h.db.Keyed) :
    After (notifying fails) (M := services) i (ingestEventWith record e)
      (EventReady fails i h j e) w := by
  have hview : ((∅ : Db).overlay h.db) = h.db := Db.empty_overlay _
  rw [ingestEventWith, EventRepository.merchantExists]
  refine after_bind (after_bind (after_read hat rfl (by simp) (fun ch => rfl) ?_))
  intro w₁ hat₁
  refine after_ret ?_
  dsimp only
  rw [hview]
  split
  · rename_i hmerchant
    rw [merchantExists_iff] at hmerchant
    refine after_now fun occurred_at => ?_
    refine after_bind (after_insertEvent (j := j) hat₁ hraw hpk ?_ ?_ ?_)
    · intro v row d' w₂ hkey hcol hcontent hk hat₂
      exact after_announceEvent hrecord hat₂ ⟨hmerchant, hkey, hcol⟩ hcontent hk
    · intro row d' w₂ htext hkey hrow hat₂
      refine after_ret ⟨r, d', _, hat₂, hkept, ?_⟩
      dsimp only
      rw [if_neg Bool.false_ne_true, hview]
      exact .found ⟨hmerchant, htext, fun _ => ⟨row, hrow⟩, absurd hkey⟩ hkey hrow
    · intro err d' tx w₂ hno hat₂
      exact ⟨r, d', tx, hat₂, hkept, .refused hno⟩
  · rename_i hmerchant
    rw [merchantExists_iff] at hmerchant
    exact after_ret ⟨r, d, _, hat₁, hkept,
      .refused fun hacc => hmerchant hacc.merchant⟩

/-- **One event alone**: every way its request can end. -/
theorem after_eventRequest (hrecord : Records fails i r j record)
    (hkept : Counts j → Counts r) (hat : At i h r d none w)
    (hraw : RawIssued h d) (hpk : h.db.Keyed) :
    After (notifying fails) (M := services) i
      (getDb (fun r => [(e.idempotency_key, r.1)]) (ingestEventWith record e))
      (fun x w' => ∃ h' r' d', At i h' r' d' none w' ∧ (Counts j → Counts r') ∧
        EventOutcome fails h.db j e x h'.db) w := by
  refine after_getDb_outcome (C := fun r' => Counts j → Counts r')
    (P := EventOutcome fails h.db j e) hat fun now w₁ hat₁ => ?_
  refine After.mono ?_ (after_ingestEvent hrecord hkept hat₁ hraw hpk)
  rintro x w₂ ⟨r', d', tx, hat₂, hcounts, hout⟩
  refine ⟨r', d', tx, hat₂, hcounts, ?_⟩
  cases x with
  | ok a => exact hout
  | error err => exact hout

theorem after_ingestEventRequest (hat : At i h r d none w)
    (hraw : RawIssued h d) (hpk : h.db.Keyed) :
    After (notifying fails) (M := services) i (ingestEventRequest e)
      (fun x w' => ∃ h' r' d', At i h' r' d' none w' ∧ (Counts r → Counts r') ∧
        EventOutcome fails h.db r e x h'.db) w :=
  after_eventRequest (records_recordIngestion fails i r) id hat hraw hpk

end Event

end AnalyticsPipeline
