import AnalyticsPipeline.Guarantees.CacheKeys
import AnalyticsPipeline.Metatheory.Footprints

/-!
# The kinds of values in Redis

One keyspace holds counters, cached responses, leaderboards and heartbeats, and
a command on a value of another kind is an error. The text of a key tells what
is kept there, and each pipeline keeps it so.
-/

namespace AnalyticsPipeline

open Framework

/-! ## Kinds -/

inductive KeyKind where
  | counter
  | metrics
  | sparkline
  | leaderboard
  | heartbeat
  | unused
deriving DecidableEq

def counterKeys : List String :=
  ["metrics:ingestion_rate", "metrics:cache_hits", "metrics:cache_misses",
    "metrics:leaderboard_rebuilds"]

def keyKind (key : String) : KeyKind :=
  if key ∈ counterKeys then .counter
  else if key.toList.head? = some 'm' then .metrics
  else if key.toList.head? = some 's' then .sparkline
  else if key.toList.head? = some 'l' then .leaderboard
  else if key.toList.head? = some 'w' then .heartbeat
  else .unused

/-- The value is one the services keep at such a key. -/
def RedisValue.Fits : KeyKind → RedisValue → Prop
  | .counter, v => ∃ n, v = .document (.number n)
  | .metrics, v => ∃ r : MetricsResponse, v = .document r.dump
  | .sparkline, v => ∃ data : List BucketDataPoint,
      v = .document (.array (data.map BucketDataPoint.dump))
  | .leaderboard, v => ∃ scores, v = .zset scores ∧
      ∀ member ∈ scores.keys, IsMember member
  | .heartbeat, v => ∃ t, v = .timestamp t
  | .unused, _ => False

/-- Every value fits its key. -/
def Redis.Typed (r : Redis) : Prop :=
  ∀ key entry, r.get? key = some entry → entry.value.Fits (keyKind key)

theorem typed_empty : Redis.Typed ∅ := fun _ _ h => by cases h

theorem length_of_mem_counterKeys {key : String} (h : key ∈ counterKeys) :
    key.length ≤ 28 := by
  revert key
  decide

section Keys

variable {key : String} {c : Char}

theorem not_counter_of_head (h : key.toList.head? = some c) (hc : c ≠ 'm') :
    key ∉ counterKeys := by
  intro hmem
  have hhead : ∀ k ∈ counterKeys, k.toList.head? = some 'm' := by decide
  rw [hhead key hmem] at h
  exact hc (Option.some.inj h).symm

theorem keyKind_counter (h : key ∈ counterKeys) : keyKind key = .counter :=
  if_pos h

theorem keyKind_metrics (m : UUID) (start stop : AwareDateTime) (g : String) :
    keyKind (metricCacheKey m start stop g) = .metrics := by
  have hlong := length_metricCacheKey m start stop g
  rw [keyKind, if_neg fun h => by
    have := length_of_mem_counterKeys h
    omega, if_pos]
  rw [toList_metricCacheKey]
  rfl

theorem keyKind_sparkline (m : UUID) (window : ℤ) :
    keyKind (sparklineCacheKey m window) = .sparkline := by
  have hkey : sparklineCacheKey m window =
      "sparkline:" ++ m.str ++ ":" ++ toString window := rfl
  have hhead : (sparklineCacheKey m window).toList.head? = some 's' := by
    rw [hkey]
    simp only [String.toList_append, List.append_assoc]
    rfl
  rw [keyKind, if_neg (not_counter_of_head hhead (by decide)), hhead,
    if_neg (by decide), if_pos rfl]

theorem keyKind_leaderboard (period : String) :
    keyKind (leaderboardKey period) = .leaderboard := by
  have hkey : leaderboardKey period = "leaderboard:volume:" ++ period := rfl
  have hhead : (leaderboardKey period).toList.head? = some 'l' := by
    rw [hkey, String.toList_append]
    rfl
  rw [keyKind, if_neg (not_counter_of_head hhead (by decide)), hhead,
    if_neg (by decide), if_neg (by decide), if_pos rfl]

theorem keyKind_heartbeat (worker_id : String) :
    keyKind s!"worker:heartbeat:{worker_id}" = .heartbeat := by
  have hhead := head?_heartbeat worker_id
  rw [keyKind, if_neg (not_counter_of_head hhead (by decide)), hhead,
    if_neg (by decide), if_neg (by decide), if_neg (by decide), if_pos rfl]

end Keys

-- From here on a key's kind is known by these lemmas, never computed.
attribute [irreducible] keyKind

/-! ## Commands -/

/-- The command suits the kind of its key. -/
def RedisOp.Fits : RedisOp → Prop
  | .set key value _ => value.Fits (keyKind key)
  | .delete _ => True
  | .incrby key _ => keyKind key = .counter
  | .expire _ _ => True
  | .zincrby key _ member => keyKind key = .leaderboard ∧ IsMember member
  | .zadd key member _ => keyKind key = .leaderboard ∧ IsMember member

namespace Redis.Typed

variable {r r' : Redis} {key : String}

theorem erase (h : r.Typed) (key : String) : Redis.Typed (Dict.erase r key) := by
  intro k entry hget
  rw [Dict.get?_erase] at hget
  split at hget
  · cases hget
  · exact h k entry hget

theorem set (h : r.Typed) {entry : RedisEntry}
    (hentry : entry.value.Fits (keyKind key)) :
    Redis.Typed (Dict.set r key entry) := by
  intro k e hget
  rw [Dict.get?_set] at hget
  split at hget
  · rename_i hk
    cases hget
    rw [hk]
    exact hentry
  · exact h k e hget

/-- At the key of a leaderboard there is a sorted set or nothing. -/
theorem scores (h : r.Typed) (hkey : keyKind key = .leaderboard) :
    ∃ scores, r.scores? key = .ok scores ∧
      ∀ member ∈ scores.keys, IsMember member := by
  unfold Redis.scores?
  cases hget : r.get? key with
  | none => exact ⟨∅, rfl, fun _ hm => absurd hm List.not_mem_nil⟩
  | some entry =>
      have hfits := h key entry hget
      rw [hkey] at hfits
      obtain ⟨scores, hvalue, hmembers⟩ := hfits
      obtain ⟨value, ttl⟩ := entry
      simp only at hvalue
      subst hvalue
      exact ⟨scores, rfl, hmembers⟩

theorem countsAt (h : r.Typed) (hkey : keyKind key = .counter) :
    CountsAt key r := by
  intro entry hget
  have hfits := h key entry hget
  rw [hkey] at hfits
  exact hfits

theorem putScores (h : r.Typed) (hkey : keyKind key = .leaderboard)
    {scores : Dict String ℤ} {member : String} (hmember : IsMember member)
    (hold : ∀ k ∈ scores.keys, IsMember k) (f : Option ℤ → ℤ) :
    Redis.Typed (r.putScores key (scores.alter member f)) := by
  refine h.set ?_
  show RedisValue.Fits (keyKind key) _
  rw [hkey]
  refine ⟨_, rfl, fun k hk => ?_⟩
  obtain ⟨v, hv⟩ := Dict.mem_keys_iff.mp hk
  rw [Dict.get?_alter] at hv
  split at hv
  · rename_i heq
    exact heq ▸ hmember
  · exact hold k (Dict.mem_keys_iff.mpr ⟨v, hv⟩)

/-- **A command that suits its key** keeps the kinds, and finds a value it can
work on. -/
theorem run {op : RedisOp} (h : r.Typed) (hop : op.Fits) :
    (∃ r', r.run op = .ok r' ∧ r'.Typed) ∨
      r.run op = .error .invalidExpireTime := by
  cases op with
  | set key value ex =>
      rw [Redis.run]
      split
      · exact .inr rfl
      · exact .inl ⟨_, rfl, h.set hop⟩
  | delete key => exact .inl ⟨_, rfl, h.erase key⟩
  | incrby key amount =>
      obtain ⟨m, ttl, hrun⟩ := (h.countsAt hop).incrby amount
      refine .inl ⟨_, hrun, h.set ?_⟩
      show RedisValue.Fits (keyKind key) _
      rw [hop]
      exact ⟨m, rfl⟩
  | expire key seconds =>
      rw [Redis.run]
      split
      · exact .inl ⟨_, rfl, h⟩
      · rename_i entry hget
        split
        · exact .inl ⟨_, rfl, h.erase key⟩
        · exact .inl ⟨_, rfl, h.set (h key entry hget)⟩
  | zincrby key amount member =>
      obtain ⟨scores, hscores, hold⟩ := h.scores hop.1
      rw [Redis.run, hscores]
      exact .inl ⟨_, rfl, h.putScores hop.1 hop.2 hold _⟩
  | zadd key member score =>
      obtain ⟨scores, hscores, hold⟩ := h.scores hop.1
      rw [Redis.run, hscores]
      exact .inl ⟨_, rfl, h.putScores hop.1 hop.2 hold _⟩

/-- So does a pipeline of them, and its only error is a time to live of zero. -/
theorem runAll {ops : List RedisOp} (hops : ∀ op ∈ ops, op.Fits)
    (h : r.Typed) : (r.runAll ops).2.Typed ∧
      ((r.runAll ops).1 = .ok () ∨
        (r.runAll ops).1 = .error .invalidExpireTime) := by
  induction ops generalizing r with
  | nil => exact ⟨h, .inl rfl⟩
  | cons op ops ih =>
      have hrest := fun {r : Redis} => ih (r := r) fun op' hop' =>
        hops op' (.tail op hop')
      rcases h.run (hops op List.mem_cons_self) with ⟨r', hrun, hr'⟩ | hrun
      · rw [Redis.runAll, hrun]
        exact hrest hr'
      · rw [Redis.runAll, hrun]
        exact ⟨(hrest h).1, .inr rfl⟩

theorem runBroken {ops : List RedisOp} (hops : ∀ op ∈ ops, op.Fits)
    (h : r.Typed) (transaction : Bool) (n : ℕ) :
    (r.runBroken transaction n ops).Typed := by
  unfold Redis.runBroken
  split
  · split
    · exact h
    · exact (h.runAll hops).1
  · exact (h.runAll fun op hop => hops op (List.mem_of_mem_take hop)).1

end Redis.Typed

/-! ## Times to live -/

/-- No key is stored with a time to live of zero. -/
def RedisOp.Lasts : RedisOp → Prop
  | .set _ _ ex => ex ≠ 0
  | _ => True

theorem run_ne_invalid {op : RedisOp} {r : Redis} (hop : op.Lasts) :
    r.run op ≠ .error .invalidExpireTime := by
  cases op with
  | set key value ex =>
      rw [Redis.run, if_neg hop]
      simp
  | delete key => simp [Redis.run]
  | incrby key amount =>
      rw [Redis.run]
      split <;> simp
  | expire key seconds =>
      rw [Redis.run]
      split
      · simp
      · split <;> simp
  | zincrby key amount member =>
      rw [Redis.run, Redis.scores?]
      split <;> simp [Except.map]
  | zadd key member score =>
      rw [Redis.run, Redis.scores?]
      split <;> simp [Except.map]

/-- A pipeline of lasting commands succeeds. -/
theorem Redis.Typed.runAll_ok {ops : List RedisOp} (hops : ∀ op ∈ ops, op.Fits)
    (hlast : ∀ op ∈ ops, op.Lasts) {r : Redis} (h : r.Typed) :
    (r.runAll ops).1 = .ok () := by
  induction ops generalizing r with
  | nil => rfl
  | cons op ops ih =>
      rcases h.run (hops op List.mem_cons_self) with ⟨r', hrun, hr'⟩ | hrun
      · rw [Redis.runAll, hrun]
        exact ih (fun op' hop' => hops op' (.tail op hop'))
          (fun op' hop' => hlast op' (.tail op hop')) hr'
      · exact absurd hrun (run_ne_invalid (hlast op List.mem_cons_self))

/-! ## Pipelines -/

theorem RedisOp.fits_set {key : String} {value : RedisValue} {k : KeyKind}
    (hkey : keyKind key = k) (h : value.Fits k) (ex : ℕ) :
    RedisOp.Fits (.set key value ex) := by
  rw [RedisOp.Fits, hkey]
  exact h

/-- Every command the services send suits its key. -/
theorem Pipeline.fits {transaction : Bool} {ops : List RedisOp}
    (h : Pipeline transaction ops) : ∀ op ∈ ops, op.Fits := by
  have hpair : ∀ {key : String} {n : ℤ} {s : ℕ}, key ∈ counterKeys →
      ∀ op ∈ [RedisOp.incrby key n, .expire key s], op.Fits := by
    intro key n s hkey op hop
    simp only [List.mem_cons, List.not_mem_nil, or_false] at hop
    rcases hop with rfl | rfl
    · exact keyKind_counter hkey
    · trivial
  intro op hop
  cases h with
  | record count => exact hpair (by decide) op hop
  | hit => exact hpair (by decide) op hop
  | miss => exact hpair (by decide) op hop
  | rebuilds =>
      obtain rfl := List.mem_singleton.mp hop
      exact keyKind_counter (by decide)
  | increments period increments hmembers =>
      rcases List.mem_append.mp hop with hop | hop
      · obtain ⟨p, hp, rfl⟩ := List.mem_map.mp hop
        exact ⟨keyKind_leaderboard period, hmembers p hp⟩
      · obtain rfl := List.mem_singleton.mp hop
        trivial
  | rebuild period entries ttl =>
      rcases List.mem_append.mp hop with hop | hop
      · rcases List.mem_append.mp hop with hop | hop
        · obtain rfl := List.mem_singleton.mp hop
          trivial
        · obtain ⟨e, -, rfl⟩ := List.mem_map.mp hop
          exact ⟨keyKind_leaderboard period, _, rfl⟩
      · obtain rfl := List.mem_singleton.mp hop
        trivial
  | heartbeat worker_id now =>
      obtain rfl := List.mem_singleton.mp hop
      exact RedisOp.fits_set (keyKind_heartbeat worker_id) ⟨now, rfl⟩ 60
  | metrics m start stop g response ttl =>
      obtain rfl := List.mem_singleton.mp hop
      exact RedisOp.fits_set (keyKind_metrics m start stop g) ⟨response, rfl⟩ ttl
  | sparkline m window data ttl =>
      obtain rfl := List.mem_singleton.mp hop
      exact RedisOp.fits_set (keyKind_sparkline m window) ⟨data, rfl⟩ ttl

end AnalyticsPipeline
