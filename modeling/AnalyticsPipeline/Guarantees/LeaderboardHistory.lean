import AnalyticsPipeline.Guarantees.DailySnapshot
import AnalyticsPipeline.Guarantees.DriftReport
import AnalyticsPipeline.Model.QueryService

/-!
# Leaderboard history

The rankings stored by the nightly compaction are read through `self._session`,
an attribute that no constructor sets: the request fails before it reaches the
database, whatever is stored and whatever is asked.
-/

namespace AnalyticsPipeline

open Framework

/-! ## A complete history -/

/-- The stored ranking of one period. -/
def Db.storedRanking (db : Db) (period : String) (start : DateTime) :
    List (UUID × ℕ × ℤ) :=
  (db.leaderboard_snapshots.entries.filter fun p =>
    p.1.period = period ∧ p.1.period_start = start).map fun p =>
      (p.1.merchant_id, p.2.rank, p.2.amount_sum_cents)

/-- The starts of the periods with a stored ranking, the latest first. -/
def Db.storedStarts (db : Db) (period : String) : List DateTime :=
  ((db.leaderboard_snapshots.keys.filter (·.period = period)).map
    (·.period_start)).dedup.insertionSort fun s t => t ≤ s

/-- `stop` is the start of the next day, week or month. -/
def LeaderboardPeriod.Next (start stop : DateTime) : LeaderboardPeriod → Prop
  | .daily => stop.micros = start.micros + DateTime.dayMicros
  | .weekly => stop.micros = start.micros + 7 * DateTime.dayMicros
  | .monthly => stop.truncDay = stop ∧ stop.day = 1 ∧
      stop.year * 12 + stop.month = start.year * 12 + start.month + 1

def LeaderboardEntry.stored (e : LeaderboardEntry) : UUID × ℕ × ℤ :=
  (e.merchant_id, e.rank, e.volume_cents)

/-- The latest `limit` rankings, each whole and in the order of its ranks. -/
structure CompleteHistory (db : Db) (period : LeaderboardPeriod) (limit : ℕ)
    (a : LeaderboardHistoryResponse) : Prop where
  starts : a.snapshots.map (·.period_start) =
    (db.storedStarts period.value).take limit
  ranking : ∀ s ∈ a.snapshots, (s.entries.map LeaderboardEntry.stored).Perm
    (db.storedRanking period.value s.period_start)
  ordered : ∀ s ∈ a.snapshots, (s.entries.map (·.rank)).Pairwise (· ≤ ·)
  stops : ∀ s ∈ a.snapshots, period.Next s.period_start s.period_end

/-! ## What the request does -/

section Request

variable {period : String} {limit i : ℕ} {w : World}

/-- `__init__` sets no `_session`. -/
theorem getattr_session :
    QueryService.getattr QueryService.init "_session" = throw .attributeError := rfl

theorem getLeaderboardHistory_fails (period : String) (limit : ℕ) :
    QueryService.getLeaderboardHistory QueryService.init period limit =
      throw .attributeError := by
  unfold QueryService.getLeaderboardHistory
  rw [getattr_session]
  rfl

/-- The whole request: the transaction it opens is rolled back, once by
`get_db` and once by the session it closes. -/
theorem leaderboardHistoryRequest_eq (period : String) (limit : ℕ) :
    leaderboardHistoryRequest period limit =
      .call .begin fun _ => .call .rollback fun _ => .call .rollback fun _ =>
        .ret (.error .attributeError) := by
  unfold leaderboardHistoryRequest
  rw [getLeaderboardHistory_fails]
  rfl

/-- Every run ends in the exception and leaves the tables alone. -/
theorem after_leaderboardHistoryRequest {ok : Call → Choice → Prop} :
    After ok (M := services) i (leaderboardHistoryRequest period limit)
      (fun r w' => r = .error .attributeError ∧ w'.toHistory = w.toHistory) w := by
  rw [leaderboardHistoryRequest_eq]
  refine after_call fun ch _ w₁ _ hbegin => ?_
  have h₁ : w₁.toHistory = w.toHistory := by
    cases ch with
    | clock t =>
        simp only [World.exec] at hbegin
        split at hbegin <;> cases hbegin <;> rfl
    | _ => cases hbegin
  refine after_call fun ch _ w₂ _ hrollback => ?_
  have h₂ : w₂.toHistory = w₁.toHistory := by
    cases ch with
    | auto => cases hrollback; rfl
    | _ => cases hrollback
  refine after_call fun ch _ w₃ _ hclose => after_ret ⟨rfl, ?_⟩
  have h₃ : w₃.toHistory = w₂.toHistory := by
    cases ch with
    | auto => cases hclose; rfl
    | _ => cases hclose
  exact h₃.trans (h₂.trans h₁)

theorem exists_eval_leaderboardHistoryRequest (period : String) (limit i : ℕ)
    (w : World) : ∃ r w', Eval (M := services) noFailure i
      (leaderboardHistoryRequest period limit) w r w' := by
  rw [leaderboardHistoryRequest_eq]
  have hbegin : ∃ w₁, World.exec i .begin (.clock default) w = some ((), w₁) := by
    simp only [World.exec]
    cases w.txs.get? i with
    | none => exact ⟨_, rfl⟩
    | some tx => exact ⟨_, rfl⟩
  obtain ⟨w₁, hbegin⟩ := hbegin
  have hclock : noFailure .begin (.clock default) :=
    noFailure_iff.mpr (by simp)
  have hauto : noFailure .rollback .auto :=
    noFailure_iff.mpr (by simp)
  exact ⟨_, _, .call hclock hbegin (.call hauto rfl (.call hauto rfl .ret))⟩

/-- **No history is ever returned**: from every world the request can be run,
and no run of it answers completely. -/
theorem leaderboard_history_never (period : LeaderboardPeriod) (limit i : ℕ)
    (w : World) :
    (∃ r w', Eval (M := services) noFailure i
      (leaderboardHistoryRequest period.value limit) w r w') ∧
    ∀ r w', Eval (M := services) noFailure i
      (leaderboardHistoryRequest period.value limit) w r w' →
        ¬ ∃ a, r = .ok a ∧ CompleteHistory w.db period limit a := by
  refine ⟨exists_eval_leaderboardHistoryRequest period.value limit i w, ?_⟩
  rintro r w' he ⟨a, hreturned, -⟩
  obtain ⟨hraised, -⟩ := after_leaderboardHistoryRequest r w' he
  rw [hraised] at hreturned
  cases hreturned

end Request

/-! ## A stored ranking -/

/-- The ranking a compaction has just stored is not returned. -/
theorem stored_ranking_unread : ∃ x w₁ r w₂,
    Eval (M := services) noFailure 1
      (NightlyCompaction.runCompaction (Sample.instant 0)) (compacting
        ((∅ : RollupTable).set paymentDay ⟨3, 30, some 10, some 10⟩) ∅) x w₁ ∧
    w₁.db.storedRanking "daily" (Sample.instant 0).truncDay = [(7, 1, 30)] ∧
    Eval (M := services) noFailure 2 (leaderboardHistoryRequest "daily" 1) w₁ r w₂ ∧
    ¬ ∃ a, r = .ok a ∧ CompleteHistory w₁.db .daily 1 a := by
  have hrun : (evalWith (M := services) (Call.lets false) 1
      [.clock (Sample.instant 6), .groups [], .groups [paymentDay],
        .merchants [7], .uuid 101, .auto, .auto, .auto]
      (NightlyCompaction.runCompaction (Sample.instant 0)) (compacting
        ((∅ : RollupTable).set paymentDay ⟨3, 30, some 10, some 10⟩) ∅)).map
      (fun r => decide ((World.toHistory r.2).db.storedRanking "daily"
        (Sample.instant 0).truncDay = [(7, 1, 30)])) = some true := by
    decide +kernel
  obtain ⟨⟨x, w₁⟩, hrun, hstored⟩ := Option.map_eq_some_iff.mp hrun
  have hcompaction := eval_of_evalWith (fun _ _ => notifying_of_lets) hrun
  obtain ⟨r, w₂, hrequest⟩ :=
    exists_eval_leaderboardHistoryRequest "daily" 1 2 w₁
  refine ⟨x, w₁, r, w₂, hcompaction, of_decide_eq_true hstored, hrequest, ?_⟩
  rintro ⟨a, hreturned, -⟩
  obtain ⟨hraised, -⟩ := after_leaderboardHistoryRequest r w₂ hrequest
  rw [hraised] at hreturned
  cases hreturned

end AnalyticsPipeline
