import AnalyticsPipeline.Framework.Traversal
import AnalyticsPipeline.Model.RedisRepository

/-!
# The Redis keyspace

Every command names one key and leaves the others alone. What the services keep
at a key is of one kind: a counter, a cached document, a sorted set.
-/

namespace AnalyticsPipeline

open Framework

/-- The key a command names. -/
def RedisOp.key : RedisOp → String
  | .set key _ _ => key
  | .delete key => key
  | .incrby key _ => key
  | .expire key _ => key
  | .zincrby key _ _ => key
  | .zadd key _ _ => key

/-- The keys of heartbeats begin with their own letter. -/
theorem head?_heartbeat (worker_id : String) :
    (s!"worker:heartbeat:{worker_id}").toList.head? = some 'w' := by
  have h : s!"worker:heartbeat:{worker_id}" = "worker:heartbeat:" ++ worker_id :=
    rfl
  rw [h, String.toList_append]
  rfl

section Frame

variable {r r' : Redis} {key : String}

theorem run_get?_of_ne {op : RedisOp} (hne : op.key ≠ key)
    (hrun : r.run op = .ok r') : r'.get? key = r.get? key := by
  have hset : ∀ e, (r.set op.key e).get? key = r.get? key := fun e => by
    rw [Dict.get?_set, if_neg (Ne.symm hne)]
  have herase : (r.erase op.key).get? key = r.get? key := by
    rw [Dict.get?_erase, if_neg (Ne.symm hne)]
  cases op with
  | set k value ex =>
      simp only [Redis.run] at hrun
      split at hrun
      · cases hrun
      · cases hrun
        exact hset _
  | delete k =>
      cases hrun
      exact herase
  | incrby k amount =>
      simp only [Redis.run] at hrun
      split at hrun
      · cases hrun
        exact hset _
      · cases hrun
        exact hset _
      · cases hrun
  | expire k seconds =>
      simp only [Redis.run] at hrun
      split at hrun
      · cases hrun
        rfl
      · split at hrun
        · cases hrun
          exact herase
        · cases hrun
          exact hset _
  | zincrby k amount member =>
      obtain ⟨scores, -, rfl⟩ := exists_of_map_ok hrun
      exact hset _
  | zadd k member score =>
      obtain ⟨scores, -, rfl⟩ := exists_of_map_ok hrun
      exact hset _

/-- A pipeline leaves the keys alone that no command names. -/
theorem runAll_get?_of_ne {ops : List RedisOp} (hne : ∀ op ∈ ops, op.key ≠ key) :
    (r.runAll ops).2.get? key = r.get? key := by
  induction ops generalizing r with
  | nil => rfl
  | cons op ops ih =>
      have hrest := fun {r : Redis} => ih (r := r) fun op' hop' =>
        hne op' (.tail op hop')
      rw [Redis.runAll]
      split
      · rename_i r' hrun
        rw [hrest, run_get?_of_ne (hne op List.mem_cons_self) hrun]
      · exact hrest

end Frame

/-! ## Counters -/

/-- What is at the key, if anything, is a number. -/
def CountsAt (key : String) (r : Redis) : Prop :=
  ∀ entry, r.get? key = some entry → ∃ n, entry.value = .document (.number n)

theorem CountsAt.incrby {key : String} {r : Redis} (h : CountsAt key r) (n : ℤ) :
    ∃ m ttl, r.run (.incrby key n) =
      .ok (r.set key ⟨.document (.number m), ttl⟩) := by
  cases hget : r.get? key with
  | none => exact ⟨n, none, by rw [Redis.run, hget]⟩
  | some entry =>
      obtain ⟨m, hm⟩ := h entry hget
      obtain ⟨value, ttl⟩ := entry
      simp only at hm
      subst hm
      exact ⟨m + n, ttl, by rw [Redis.run, hget]⟩

/-- Counting succeeds and leaves a counter. -/
theorem CountsAt.record {key : String} {r : Redis} (h : CountsAt key r) (n : ℤ)
    (seconds : ℕ) :
    (r.runAll [.incrby key n, .expire key seconds]).1 = .ok () ∧
      CountsAt key (r.runAll [.incrby key n, .expire key seconds]).2 := by
  obtain ⟨m, ttl, hrun⟩ := h.incrby n
  rw [Redis.runAll, hrun]
  simp only [Redis.runAll, Redis.run, Dict.get?_set, if_true]
  by_cases hs : seconds = 0
  · simp [hs, CountsAt]
  · simp [hs, CountsAt]

theorem not_countsAt_incrby {key : String} {r : Redis} (h : ¬ CountsAt key r)
    (n : ℤ) : r.run (.incrby key n) = .error .wrongType := by
  simp only [CountsAt, not_forall, not_exists] at h
  obtain ⟨⟨value, ttl⟩, hget, hvalue⟩ := h
  rw [Redis.run, hget]
  cases value with
  | document doc =>
      cases doc with
      | number m => exact absurd rfl (hvalue m)
      | object fields => rfl
      | array items => rfl
  | zset scores => rfl
  | timestamp t => rfl

/-! ## Cached documents -/

theorem runAll_set {r : Redis} {key : String} {value : RedisValue} {ttl : ℕ} :
    r.runAll [.set key value ttl] =
      if ttl = 0 then (.error .invalidExpireTime, r)
      else (.ok (), r.set key ⟨value, some ttl⟩) := by
  by_cases h : ttl = 0
  · simp [Redis.runAll, Redis.run, h]
  · simp [Redis.runAll, Redis.run, h]

end AnalyticsPipeline
