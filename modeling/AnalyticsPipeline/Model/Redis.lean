import AnalyticsPipeline.Framework.Dict
import AnalyticsPipeline.Model.Schemas
import Mathlib.Data.List.Sort

/-!
# Redis

One keyspace of typed values. A cached document is kept as the fields it was
dumped from (the JSON text and back is the identity on them); a sorted-set
score is a binary64 number, so every score written is rounded.

A pipeline reaches the server in one write and runs in one step, with or without
a transaction around it: no command of another session comes between its own. A
connection lost on the way tells the two apart (`runBroken`).
-/

namespace AnalyticsPipeline

open Framework

/-! ## Documents -/

inductive Scalar where
  | null
  | bool (b : Bool)
  | int (n : ℤ)
  | float (q : ℚ)
  | uuid (u : UUID)
  | datetime (t : AwareDateTime)
  | granularity (g : RollupGranularity)
deriving DecidableEq

abbrev ScalarObject := List (String × Scalar)

inductive FieldValue where
  | scalar (s : Scalar)
  | objects (os : List ScalarObject)
deriving DecidableEq

inductive Document where
  | object (fields : List (String × FieldValue))
  | array (items : List ScalarObject)
  | number (n : ℤ)
deriving DecidableEq

/-- `bool(document)`: empty containers and zero are false. -/
def Document.truthy : Document → Bool
  | .object fields => !fields.isEmpty
  | .array items => !items.isEmpty
  | .number n => n ≠ 0

/-! ## The keyspace -/

inductive RedisValue where
  | zset (scores : Dict String ℤ)
  | document (d : Document)
  | timestamp (t : DateTime)

structure RedisEntry where
  value : RedisValue
  ttl : Option ℕ

abbrev Redis := Dict String RedisEntry

inductive RedisError where
  | connectionError
  | wrongType
  | invalidExpireTime
deriving DecidableEq

inductive RedisOp where
  | set (key : String) (value : RedisValue) (ex : ℕ)
  | delete (key : String)
  | incrby (key : String) (amount : ℤ)
  | expire (key : String) (seconds : ℕ)
  | zincrby (key : String) (amount : ℤ) (member : String)
  | zadd (key : String) (member : String) (score : ℤ)

namespace Redis

/-- The sorted set at `key`, an absent key being the empty one. -/
def scores? (r : Redis) (key : String) : Except RedisError (Dict String ℤ) :=
  match r.get? key with
  | none => .ok ∅
  | some ⟨.zset scores, _⟩ => .ok scores
  | some _ => .error .wrongType

def ttl? (r : Redis) (key : String) : Option ℕ :=
  (r.get? key).bind RedisEntry.ttl

/-- Store a sorted set at `key`; the key's time to live stays. -/
def putScores (r : Redis) (key : String) (scores : Dict String ℤ) : Redis :=
  r.set key ⟨.zset scores, r.ttl? key⟩

def run (r : Redis) : RedisOp → Except RedisError Redis
  | .set key value ex =>
      if ex = 0 then .error .invalidExpireTime
      else .ok (r.set key ⟨value, some ex⟩)
  | .delete key => .ok (r.erase key)
  | .incrby key amount =>
      match r.get? key with
      | none => .ok (r.set key ⟨.document (.number amount), none⟩)
      | some ⟨.document (.number n), ttl⟩ =>
          .ok (r.set key ⟨.document (.number (n + amount)), ttl⟩)
      | some _ => .error .wrongType
  | .expire key seconds =>
      match r.get? key with
      | none => .ok r
      | some e =>
          if seconds = 0 then .ok (r.erase key)
          else .ok (r.set key { e with ttl := some seconds })
  | .zincrby key amount member =>
      (r.scores? key).map fun scores =>
        r.putScores key (scores.alter member fun old =>
          roundDouble (old.getD 0 + roundDouble amount))
  | .zadd key member score =>
      (r.scores? key).map fun scores =>
        r.putScores key (scores.set member (roundDouble score))

/-- The commands of a pipeline one after another. A command that fails changes
nothing and does not stop the others; the first error is the caller's. -/
def runAll (r : Redis) : List RedisOp → Except RedisError Unit × Redis
  | [] => (.ok (), r)
  | op :: ops =>
      match r.run op with
      | .ok r' => r'.runAll ops
      | .error e => (.error e, (r.runAll ops).2)

/-- A pipeline whose connection breaks after `n` commands: outside a
transaction the commands sent so far have run, inside one all or none. -/
def runBroken (r : Redis) (transaction : Bool) (n : ℕ) (ops : List RedisOp) :
    Redis :=
  if transaction then
    if n = 0 then r else (r.runAll ops).2
  else (r.runAll (ops.take n)).2

/-- `GET key`, read back by `json.loads`; text that is no document is `none`. -/
def getDocument (r : Redis) (key : String) :
    Except RedisError (Option Document) :=
  match r.get? key with
  | some ⟨.document d, _⟩ => .ok (some d)
  | some ⟨.zset _, _⟩ => .error .wrongType
  | some ⟨.timestamp _, _⟩ => .ok none
  | none => .ok none

/-- Scores in the order of `ZREVRANGE`: highest first, equal scores by member,
last first. -/
def ranked (scores : Dict String ℤ) : List (String × ℤ) :=
  scores.entries.insertionSort fun a b =>
    b.2 < a.2 ∨ (a.2 = b.2 ∧ b.1 ≤ a.1)

/-- `ZREVRANGE key start stop`; a negative `stop` counts from the end. -/
def zrevrange (r : Redis) (key : String) (start : ℕ) (stop : ℤ) :
    Except RedisError (List (String × ℤ)) :=
  (r.scores? key).map fun scores =>
    let last := if stop < 0 then stop + scores.entries.length else stop
    ((ranked scores).take (last + 1).toNat).drop start

end Redis

end AnalyticsPipeline
