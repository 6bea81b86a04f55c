import AnalyticsPipeline.Model.EventRepository
import AnalyticsPipeline.Model.RedisRepository

/-!
# Ingestion service

The write path of `POST /events` and `POST /events/batch`, and the requests as
`get_db` runs them: one transaction each, committed when the service returns.
-/

namespace AnalyticsPipeline

open Framework

/-- `try: await notify_new_event(...) except Exception: log`. -/
def notifyBestEffort (event_id : UUID) : Service Unit :=
  tryCatch (EventRepository.notifyNewEvent event_id) fun _ => pure ()

def RawEvent.response (row : RawEvent) (duplicate : Bool) :
    EventIngestResponse :=
  ⟨row.id, row.idempotency_key, row.occurred_at, duplicate⟩

namespace IngestionService

def ingestEvent (event : EventIngest) : Service (EventIngestResponse × Bool) := do
  let found ← EventRepository.merchantExists event.merchant_id
  if found then do
    let occurred_at ← perform .now
    let (row, is_duplicate) ← EventRepository.insertEvent event occurred_at
    if is_duplicate then pure (row.response true, true)
    else do
      notifyBestEffort row.id
      RedisRepository.recordIngestion 1
      pure (row.response false, false)
  else throw (.merchantNotFound event.merchant_id.str)

/-- One response of a batch; the id `0` stands for an event that is neither
inserted nor found. -/
def batchResponse (occurred_at : DateTime)
    (inserted_by_key existing_by_key : Dict String RawEvent)
    (event : EventIngest) : EventIngestResponse :=
  match inserted_by_key.get? event.idempotency_key with
  | some row => row.response false
  | none =>
      match existing_by_key.get? event.idempotency_key with
      | some existing =>
          ⟨existing.id, event.idempotency_key, existing.occurred_at, true⟩
      | none => ⟨0, event.idempotency_key, occurred_at, true⟩

/-- What follows the insertion: the responses, in the order of the events. -/
def batchResponses (events : List EventIngest) (occurred_at : DateTime)
    (inserted_rows : List RawEvent) : Service (List EventIngestResponse) := do
  let inserted_by_key :=
    Dict.ofList (inserted_rows.map fun r => (r.idempotency_key, r))
  let duplicate_keys := (events.map (·.idempotency_key)).filter
    (· ∉ inserted_by_key.keys)
  let existing_by_key ← EventRepository.getByIdempotencyKeys duplicate_keys
  pure (events.map (batchResponse occurred_at inserted_by_key existing_by_key))

/-- `if inserted_rows:` the ingestion counter, then the notification. -/
def announce (inserted_rows : List RawEvent) : Service Unit :=
  match inserted_rows.getLast? with
  | none => pure ()
  | some last => do
      RedisRepository.recordIngestion inserted_rows.length
      notifyBestEffort last.id

/-- A batch whose merchants exist. -/
def storeBatch (events : List EventIngest) : Service BatchIngestResponse := do
  let occurred_at ← perform .now
  let (inserted_rows, duplicate_count) ←
    EventRepository.insertBatch events occurred_at
  announce inserted_rows
  let responses ← batchResponses events occurred_at inserted_rows
  pure ⟨inserted_rows.length, duplicate_count, responses⟩

def ingestBatch (events : List EventIngest) : Service BatchIngestResponse := do
  let merchant_ids := (events.map (·.merchant_id)).dedup
  let missing_merchants ← EventRepository.missingMerchantIds merchant_ids
  match missing_merchants with
  | missing :: _ => throw (.merchantNotFound missing.str)
  | [] => storeBatch events

end IngestionService

/-! ## Requests -/

def ingestEventRequest (payload : EventIngest) :
    Service (EventIngestResponse × Bool) :=
  getDb (fun r => [(payload.idempotency_key, r.1)])
    (IngestionService.ingestEvent payload)

def ingestBatchRequest (payload : BatchEventIngest) :
    Service BatchIngestResponse :=
  getDb (fun r => (payload.events.map (·.idempotency_key)).zip r.events)
    (IngestionService.ingestBatch payload.events)

end AnalyticsPipeline
