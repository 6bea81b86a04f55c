import AnalyticsPipeline.Model.World

/-!
# Event repository

`raw_events` and its deduplication table. A single event is written in two
statements, the idempotency key first; a batch the same way with one statement
each.
-/

namespace AnalyticsPipeline

open Framework

/-- `result.scalars().one()` -/
def one {α : Type} : List α → Service α
  | [] => throw .noResultFound
  | [x] => pure x
  | _ => throw .multipleResultsFound

/-- The `INSERT INTO raw_events` values of an event. -/
def EventIngest.rawValues (e : EventIngest) (id : UUID) (occurred_at : DateTime) :
    RawValues PyDateTime where
  id := id
  event_type := e.event_type
  merchant_id := e.merchant_id
  amount_cents := e.amount_cents
  currency := e.currency
  idempotency_key := e.idempotency_key
  occurred_at := occurred_at
  client_timestamp := e.client_timestamp
  metadata := e.metadata

namespace EventRepository

/-- The event stored under a key that was already claimed. -/
def existingEvent (idempotency_key : String) : Service RawEvent := do
  let idem_rows ← execute (.selectIdempotency idempotency_key)
  let idem_row ← one idem_rows
  let rows ← execute (.selectRawEventsById idem_row.event_id)
  one rows

/-- The event record, and whether the key was a duplicate. -/
def insertEvent (event : EventIngest) (occurred_at : DateTime) :
    Service (RawEvent × Bool) := do
  let event_id ← perform .uuid4
  let claimed ← execute (.insertIdempotency [⟨event.idempotency_key, event_id⟩])
  if claimed = [] then do
    let existing_row ← existingEvent event.idempotency_key
    pure (existing_row, true)
  else do
    let rows ← execute (.insertRawEvents [event.rawValues event_id occurred_at])
    let row ← one rows
    pure (row, false)

/-- `{e.idempotency_key: uuid.uuid4() for e in events}` -/
def eventIdMap : List EventIngest → Dict String UUID →
    Service (Dict String UUID)
  | [], map => pure map
  | e :: events, map => do
      let event_id ← perform .uuid4
      eventIdMap events (map.set e.idempotency_key event_id)

/-- The `raw_values` of `insert_batch`: one row for each event whose key was
claimed, repeated keys included. -/
def rawValuesOf (events : List EventIngest) (claimed_keys : List String)
    (event_id_map : Dict String UUID) (occurred_at : DateTime) :
    List (RawValues PyDateTime) :=
  (events.filter (·.idempotency_key ∈ claimed_keys)).filterMap fun e =>
    (event_id_map.get? e.idempotency_key).map fun id =>
      e.rawValues id occurred_at

/-- The inserted rows, and the number of duplicates. -/
def insertBatch (events : List EventIngest) (occurred_at : DateTime) :
    Service (List RawEvent × ℤ) := do
  let event_id_map ← eventIdMap events ∅
  let claimed ← execute (.insertIdempotency
    (event_id_map.entries.map fun p => ⟨p.1, p.2⟩))
  let claimed_keys := claimed.map (·.idempotency_key)
  let duplicate_count : ℤ := events.length - claimed_keys.length
  if claimed_keys = [] then pure ([], duplicate_count)
  else do
    let inserted ← execute (.insertRawEvents
      (rawValuesOf events claimed_keys event_id_map occurred_at))
    pure (inserted, duplicate_count)

def getEventsAfter (last_event_id : Option UUID) (limit : ℕ) :
    Service (List RawEvent) :=
  execute (.selectRawEventsAfter last_event_id limit)

def notifyNewEvent (event_id : UUID) : Service Unit :=
  execute (.pgNotify event_id.str)

def missingMerchantIds (merchant_ids : List UUID) : Service (List UUID) := do
  if merchant_ids = [] then pure []
  else do
    let found ← execute (.selectMerchantIds merchant_ids)
    pure (merchant_ids.filter (· ∉ found))

def merchantExists (merchant_id : UUID) : Service Bool := do
  let rows ← execute (.selectMerchantIds [merchant_id])
  pure (!rows.isEmpty)

/-- The stored events of the keys; of several rows with one key the last. -/
def getByIdempotencyKeys (keys : List String) :
    Service (Dict String RawEvent) := do
  if keys = [] then pure ∅
  else do
    let rows ← execute (.selectRawEventsByKeys keys)
    pure (Dict.ofList (rows.map fun r => (r.idempotency_key, r)))

end EventRepository

end AnalyticsPipeline
