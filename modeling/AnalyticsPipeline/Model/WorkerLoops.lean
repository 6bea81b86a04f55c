import AnalyticsPipeline.Framework.Transitions
import AnalyticsPipeline.Model.World

/-!
# The loops of the worker

`RollupWorker.start` gathers two coroutines on one event loop: `_process_loop`
takes batch after batch, `_listen_notify_loop` holds a connection that listens
for `new_events`. A coroutine runs undisturbed from one `await` to the next, so
one step is what lies between two of them, and the event is what the `await`
came to. Sleeps and timeouts may end at any time.
-/

namespace AnalyticsPipeline

open Framework

/-- The `await` at which `_process_loop` stands. -/
inductive ProcessLoop where
  | created
  /-- `self._process_batch()` -/
  | batch
  /-- `asyncio.wait_for(self._notify_event.wait(), timeout=...)` -/
  | wait
  /-- `asyncio.sleep(1)`, after an exception -/
  | pause
  | stopped
deriving DecidableEq

/-- The `await` at which `_listen_notify_loop` stands. -/
inductive ListenLoop where
  | created
  /-- `self._asyncpg_pool.acquire()` -/
  | acquire
  /-- `conn.add_listener("new_events", _handler)` -/
  | addListener
  /-- `asyncio.sleep(1)` of the inner loop: the listener is active -/
  | listen
  /-- `conn.remove_listener("new_events", _handler)` -/
  | removeListener
  /-- `self._asyncpg_pool.release(conn)` -/
  | release
  /-- `asyncio.sleep(5)` -/
  | backoff
  | stopped
deriving DecidableEq

/-- The last three fields are kept for the statements of the theorems alone. -/
structure WorkerState where
  running : Bool
  notify_event : Bool
  process : ProcessLoop
  listener : ListenLoop
  /-- Calls of `_handler` that are scheduled and have not run. -/
  handlers : ℕ
  /-- Connections taken from the pool and not given back. -/
  acquired : ℕ
  pool_open : Bool
  batches : ℕ
  /-- Notifications received since the last batch began. -/
  unseen : ℕ
  failed_releases : ℕ
deriving DecidableEq

inductive WorkerEvent where
  | processStarts
  | batchEnds (result : Except PyError ℕ)
  /-- The wait ends because the event is set. -/
  | wakes
  | timesOut
  | pauseEnds
  | listenStarts
  | acquires (ok : Bool)
  | adds (ok : Bool)
  | napEnds
  | removes (ok : Bool)
  | releases (ok : Bool)
  | backoffEnds
  /-- A notification arrives: asyncpg schedules `_handler`. -/
  | notification
  | handlerRuns
  /-- `SIGTERM` or `SIGINT` -/
  | signal
  /-- `start` closes the pool when both loops have returned. -/
  | poolCloses

namespace RollupWorker

/-- `min_size=1, max_size=2` -/
def poolSize : ℕ := 2

/-- `while self._running:` of `_process_loop`. -/
def processHead (s : WorkerState) : WorkerState :=
  if s.running then
    { s with process := .batch, batches := s.batches + 1, unseen := 0 }
  else { s with process := .stopped }

/-- `while self._running:` of `_listen_notify_loop`. -/
def listenHead (s : WorkerState) : WorkerState :=
  if s.running then { s with listener := .acquire }
  else { s with listener := .stopped }

/-- The inner `while self._running:`. -/
def napHead (s : WorkerState) : WorkerState :=
  if s.running then { s with listener := .listen }
  else { s with listener := .removeListener }

/-- `if self._running: await asyncio.sleep(5)` -/
def listenTail (s : WorkerState) : WorkerState :=
  if s.running then { s with listener := .backoff } else listenHead s

def handleShutdown (s : WorkerState) : WorkerState :=
  { s with running := false, notify_event := true }

def processStep? (s : WorkerState) : WorkerEvent → Option WorkerState
  | .processStarts =>
      if s.process = .created then some (processHead s) else none
  | .batchEnds result =>
      if s.process = .batch then
        match result with
        | .ok 0 => some { s with process := .wait }
        | .ok _ => some (processHead s)
        | .error _ => some { s with process := .pause }
      else none
  | .wakes =>
      if s.process = .wait ∧ s.notify_event then
        some (processHead { s with notify_event := false })
      else none
  | .timesOut =>
      if s.process = .wait then
        some (processHead { s with notify_event := false })
      else none
  | .pauseEnds => if s.process = .pause then some (processHead s) else none
  | _ => none

def listenStep? (s : WorkerState) : WorkerEvent → Option WorkerState
  | .listenStarts =>
      if s.listener = .created then some (listenHead s) else none
  | .acquires ok =>
      if s.listener = .acquire then
        if ok then
          if s.acquired < poolSize then
            some { s with listener := .addListener, acquired := s.acquired + 1 }
          else none
        else some (listenTail s)
      else none
  | .adds ok =>
      if s.listener = .addListener then
        if ok then some (napHead s) else some { s with listener := .removeListener }
      else none
  | .napEnds => if s.listener = .listen then some (napHead s) else none
  | .removes _ =>
      -- an exception is swallowed
      if s.listener = .removeListener then some { s with listener := .release }
      else none
  | .releases ok =>
      if s.listener = .release then
        if ok then some (listenTail { s with acquired := s.acquired - 1 })
        else some (listenTail { s with failed_releases := s.failed_releases + 1 })
      else none
  | .backoffEnds => if s.listener = .backoff then some (listenHead s) else none
  | _ => none

/-- What happens to the worker from outside its loops. -/
def outsideStep? (s : WorkerState) : WorkerEvent → Option WorkerState
  | .notification =>
      if s.listener = .listen then
        some { s with handlers := s.handlers + 1, unseen := s.unseen + 1 }
      else none
  | .handlerRuns =>
      if 0 < s.handlers then
        some { s with handlers := s.handlers - 1, notify_event := true }
      else none
  | .signal => some (handleShutdown s)
  | .poolCloses =>
      if s.process = .stopped ∧ s.listener = .stopped ∧ s.pool_open ∧
          s.acquired = 0 then some { s with pool_open := false }
      else none
  | _ => none

def next? (s : WorkerState) (e : WorkerEvent) : Option WorkerState :=
  (processStep? s e).or ((listenStep? s e).or (outsideStep? s e))

/-- `asyncio.gather(self._process_loop(), self._listen_notify_loop())`: the pool
is there, the handlers of the signals are installed. -/
def gathered : WorkerState where
  running := true
  notify_event := false
  process := .created
  listener := .created
  handlers := 0
  acquired := 0
  pool_open := true
  batches := 0
  unseen := 0
  failed_releases := 0

end RollupWorker

end AnalyticsPipeline
