import AnalyticsPipeline.Framework.Solitary
import AnalyticsPipeline.Model.Redis
import AnalyticsPipeline.Model.Statements

/-!
# The world the services run in

PostgreSQL at READ COMMITTED, Redis, the clocks and `uuid4`. A statement sees
the rows committed when it starts and those its own transaction wrote; it waits
while another open transaction holds a key it inserts or updates; a statement
that fails aborts its transaction, and committing an aborted transaction rolls
it back without raising.

`History` is what remains of a run: the committed tables, and two ledgers kept
for the statements of the theorems alone, the answers given by each committed
transaction and the pages of the event log that were fetched.
-/

namespace AnalyticsPipeline

open Framework

/-! ## State -/

/-- A page of the event log: what was asked, what the log held, what came. -/
structure Fetch where
  last_event_id : Option UUID
  limit : ℕ
  seen : List RawEvent
  page : List RawEvent

/-- What a request says about each event it submitted, by the event's key. -/
abbrev Answers := List (String × EventIngestResponse)

structure History where
  db : Db
  answered : List Answers
  fetches : List Fetch

/-- An open transaction; `now` is its start, the value of `NOW()`. -/
structure Tx where
  now : DateTime
  aborted : Bool
  writes : Db

/-- `issued` remembers which session drew each `uuid4`. -/
structure World extends History where
  redis : Redis
  txs : Dict ℕ Tx
  issued : Dict UUID ℕ

namespace World

def setTx (w : World) (i : ℕ) (tx : Tx) : World :=
  { w with txs := w.txs.set i tx }

def dropTx (w : World) (i : ℕ) : World := { w with txs := w.txs.erase i }

def view (w : World) (tx : Tx) : Db := tx.writes.overlay w.db

/-- Some session in `who` holds one of the keys. -/
def held (w : World) (who : ℕ → Bool) (keys : List Lock) : Bool :=
  w.txs.entries.any fun p => who p.1 && keys.any fun l => l ∈ p.2.writes.locks

def blocked (w : World) (i : ℕ) (keys : List Lock) : Bool :=
  w.held (fun j => j ≠ i) keys

/-- Enter a fetched page in the ledger. -/
def observe (w : World) (view : Db) : (s : Stmt) → s.Result → World
  | .selectRawEventsAfter last_event_id limit, page =>
      { w with
        fetches := w.fetches ++ [⟨last_event_id, limit, view.raw_events, page⟩] }
  | _, _ => w

def install (w : World) (ws : Db) (answers : Answers) : World :=
  { w with db := ws.overlay w.db, answered := w.answered ++ [answers] }

end World

/-! ## Calls -/

inductive Call where
  | begin
  | sql (s : Stmt)
  /-- `answers` is what the request says when the commit succeeds. -/
  | commit (answers : Answers)
  | rollback
  | uuid4
  | now
  | monotonic
  | redisGet (key : String)
  | redisExists (key : String)
  | redisRange (key : String) (start : ℕ) (stop : ℤ)
  | redisWrite (transaction : Bool) (ops : List RedisOp)

abbrev Call.Res : Call → Type
  | begin => Unit
  | sql s => Except DbError s.Result
  | commit _ => Unit
  | rollback => Unit
  | uuid4 => UUID
  | now => DateTime
  | monotonic => ℚ
  | redisGet _ => Except RedisError (Option Document)
  | redisExists _ => Except RedisError Bool
  | redisRange _ _ _ => Except RedisError (List (String × ℤ))
  | redisWrite _ _ => Except RedisError Unit

inductive WorldEvent where
  /-- An operator deletes a `consumer_offsets` row: replay from the start. -/
  | deleteOffset (consumer_id : String)
  /-- Redis drops a key: flush, LRU eviction or expiry. -/
  | evict (key : String)

namespace World

def execSql (w : World) (i : ℕ) (s : Stmt) (ch : Choice) :
    Option (Except DbError s.Result × World) :=
  match w.txs.get? i with
  | none => some (.error .inFailedTransaction, w)
  | some tx =>
      if tx.aborted then some (.error .inFailedTransaction, w)
      else if w.blocked i s.locks then none
      else
        match s.run tx.now ch (w.view tx) with
        | none => none
        | some (.error e) =>
            some (.error e, w.setTx i { tx with aborted := true, writes := ∅ })
        | some (.ok (x, ws)) =>
            some (.ok x, (w.observe (w.view tx) s x).setTx i
              { tx with writes := ws.overlay tx.writes })

def execCommit (w : World) (i : ℕ) (answers : Answers) :
    World :=
  match w.txs.get? i with
  | none => w
  | some tx =>
      (if tx.aborted then w else w.install tx.writes answers).dropTx i

def exec (i : ℕ) : (c : Call) → Choice → World → Option (c.Res × World)
  | .begin, .clock t, w =>
      match w.txs.get? i with
      | none => some ((), w.setTx i ⟨t, false, ∅⟩)
      | some _ => some ((), w)
  | .sql s, ch, w => w.execSql i s ch
  | .commit answers, .auto, w => some ((), w.execCommit i answers)
  | .rollback, .auto, w => some ((), w.dropTx i)
  | .uuid4, .uuid u, w =>
      if w.issued.get? u = none then
        some (u, { w with issued := w.issued.set u i })
      else none
  | .now, .clock t, w => some (t, w)
  | .monotonic, .seconds q, w => some (q, w)
  | .redisGet key, .auto, w => some (w.redis.getDocument key, w)
  | .redisGet _, .fail _, w => some (.error .connectionError, w)
  | .redisExists key, .auto, w => some (.ok (w.redis.get? key).isSome, w)
  | .redisExists _, .fail _, w => some (.error .connectionError, w)
  | .redisRange key start stop, .auto, w =>
      some (w.redis.zrevrange key start stop, w)
  | .redisRange _ _ _, .fail _, w => some (.error .connectionError, w)
  | .redisWrite _ ops, .auto, w =>
      some ((w.redis.runAll ops).1, { w with redis := (w.redis.runAll ops).2 })
  | .redisWrite transaction ops, .fail n, w =>
      some (.error .connectionError,
        { w with redis := w.redis.runBroken transaction n ops })
  | _, _, _ => none

def handle (w : World) : WorldEvent → Option World
  | .deleteOffset c =>
      if w.held (fun _ => true) [.offset c] then none
      else some { w with
        db := { w.db with consumer_offsets := w.db.consumer_offsets.erase c } }
  | .evict key => some { w with redis := w.redis.erase key }

end World

/-- A crashed session loses its connection: its transaction is rolled back. -/
abbrev services : Machine Call.Res where
  World := World
  Choice := Choice
  Event := WorldEvent
  exec := World.exec
  crash := fun i w => w.dropTx i
  env := fun e w => w.handle e

/-! ## Programs -/

inductive PyError where
  | db (e : DbError)
  | redis (e : RedisError)
  | merchantNotFound (merchant_id : String)
  | noResultFound
  | multipleResultsFound
  | typeError
  | valueError
  | validationError
  | overflowError
  | attributeError
  | httpException (status_code : ℕ) (detail : String)
deriving DecidableEq

abbrev Service := Prog Call.Res PyError

def perform (c : Call) : Service c.Res := Prog.perform c

/-- `await session.execute(statement)` -/
def execute (s : Stmt) : Service s.Result := do
  match ← perform (.sql s) with
  | .ok x => pure x
  | .error e => throw (.db e)

/-- The answer of Redis, or its exception raised. -/
def redisResult {α : Type} : Except RedisError α → Service α
  | .ok x => pure x
  | .error e => throw (.redis e)

/-- `async with session_factory() as session`: leaving the block closes the
session, which rolls back what was not committed. -/
def sessionScope {α : Type} (body : Service α) : Service α := do
  perform .begin
  let x ← tryCatch body fun e => do
    perform .rollback
    throw e
  perform .rollback
  pure x

/-- The `get_db` dependency around a request. -/
def getDb {α : Type} (answers : α → Answers)
    (body : Service α) : Service α :=
  sessionScope do
    tryCatch
      (do
        let x ← body
        perform (.commit (answers x))
        pure x)
      fun e => do
        perform .rollback
        throw e

end AnalyticsPipeline
