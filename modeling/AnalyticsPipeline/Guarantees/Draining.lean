import AnalyticsPipeline.Guarantees.LogPaging

/-!
# Draining

A worker alone with a table that does not change, from whatever offset. Each
call that does not find the log read to its end leaves its offset at an event
created after the one it came from, so there is one batch at most for every
`created_at` beyond the offset, whether or not the events are marked already.
-/

namespace AnalyticsPipeline

open Framework

/-- `_process_batch`, `n` times, not once returning 0. -/
inductive FullBatches (ok : Call → Choice → Prop) (settings : Settings) (i : ℕ) :
    ℕ → World → World → Prop where
  | refl (w : World) : FullBatches ok settings i 0 w w
  | step {n : ℕ} {w w₁ w' : World} {r : Except PyError ℕ} :
      Eval (M := services) ok i (RollupWorker.processBatch settings) w r w₁ →
      r ≠ .ok 0 → FullBatches ok settings i n w₁ w' →
      FullBatches ok settings i (n + 1) w w'

/-- The offset is left at an event created after the one it came from. -/
def MovesOn (settings : Settings) (h h' : History) : Prop :=
  ∃ e ∈ h.db.raw_events, h'.cursor settings = some e.id ∧
    ∀ last ∈ h.db.raw_events, h.cursor settings = some last.id →
      last.created_at < e.created_at

/-- The `created_at` values beyond the offset. -/
def History.ahead (h : History) (settings : Settings) : Finset DateTime :=
  ((h.unread settings).map RawEvent.created_at).toFinset

section Draining

variable {ok : Call → Choice → Prop} {settings : Settings} {i n : ℕ}
  {w w' : World} {r : Except PyError ℕ}

theorem eval_processBatch_outcome (hw : Coherent w) (hidle : NoTx i w)
    (he : Eval (M := services) ok i (RollupWorker.processBatch settings) w r w') :
    Stuck settings w.toHistory ∨
      Coherent w' ∧ NoTx i w' ∧
        (r = .ok 0 ∧ w'.redis = w.redis ∧
            BatchOutcome settings w.toHistory none w'.toHistory ∨
          r ≠ .ok 0 ∧ ∃ p,
            BatchOutcome settings w.toHistory (some p) w'.toHistory) := by
  rw [RollupWorker.processBatch] at he
  rcases eval_bind_iff.mp he with ⟨x, w₁, h₁, h₂⟩ | ⟨e, h₁, -⟩
  · right
    obtain ⟨hw₁, hnone, hout, hredis⟩ := eval_batchScope_ok hw hidle h₁
    cases x with
    | none =>
        obtain ⟨rfl, rfl⟩ := eval_ret_iff.mp h₂
        exact ⟨hw₁, hnone, .inl ⟨rfl, hredis, hout⟩⟩
    | some p =>
        -- The batch is committed; what follows keeps to Redis.
        have hquiet : ∃ redis, w' = { w₁ with redis } := by
          rcases eval_bind_iff.mp h₂ with ⟨_, w₂, h₃, h₄⟩ | ⟨e, h₃, -⟩
          · obtain ⟨-, rfl⟩ := eval_ret_iff.mp h₄
            exact eval_quietProgram (within_publish _ _) rfl h₃
          · exact eval_quietProgram (within_publish _ _) rfl h₃
        have hr : r ≠ .ok 0 := by
          rintro rfl
          rcases eval_bind_iff.mp h₂ with ⟨_, w₂, -, h₄⟩ | ⟨e, -, h⟩
          · have hlength := Except.ok.inj (eval_ret_iff.mp h₄).1
            exact hout.page_ne_nil (List.length_eq_zero_iff.mp hlength.symm)
          · cases h
        obtain ⟨redis, rfl⟩ := hquiet
        exact ⟨hw₁.of_eq rfl rfl rfl, hnone, .inr ⟨hr, p, hout⟩⟩
  · exact .inl (eval_batchScope_error hw hidle h₁)

/-- **One call**: nothing is left and nothing changes, or the offset moves on
and a `created_at` less lies ahead of it. -/
theorem eval_processBatch_moves (hw : Coherent w) (hidle : NoTx i w)
    (hids : (w.db.raw_events.map (·.id)).Nodup)
    (he : Eval (M := services) ok i (RollupWorker.processBatch settings) w r w') :
    (Coherent w' ∧ NoTx i w' ∧ w'.db.raw_events = w.db.raw_events) ∧
      (r = .ok 0 ∧ w'.db = w.db ∧ w'.redis = w.redis ∨
        r ≠ .ok 0 ∧ MovesOn settings w.toHistory w'.toHistory ∧
          (w'.toHistory.ahead settings).card <
            (w.toHistory.ahead settings).card) := by
  rcases eval_processBatch_outcome hw hidle he with hstuck | ⟨hw', hidle', hout⟩
  · exact absurd hstuck (not_stuck hids)
  rcases hout with ⟨hr, hredis, hout⟩ | ⟨hr, p, hout⟩
  · have hdb : w'.db = w.db := by
      generalize w'.toHistory = h' at hout
      cases hout with
      | nothing => rfl
    exact ⟨⟨hw', hidle', by rw [hdb]⟩, .inl ⟨hr, hdb, hredis⟩⟩
  · obtain ⟨hraw, -, e, later, hpage, hcursor, habove⟩ := hout.page_unread hids
    have hunread : e ∈ w.toHistory.unread settings :=
      hpage.perm.subset (List.mem_append_left _ hpage.last_mem)
    refine ⟨⟨hw', hidle', hraw⟩, .inr ⟨hr, ?_, ?_⟩⟩
    · refine ⟨e, remaining_subset hunread, hcursor, fun last hlast hat => ?_⟩
      unfold History.unread at hunread
      rw [hat, remaining_some hids hlast] at hunread
      exact of_decide_eq_true (List.mem_filter.mp hunread).2
    · unfold History.ahead
      rw [habove]
      exact card_keys_above_lt hunread

/-- **Every run of calls** stops in time, the tables readable as before. -/
theorem FullBatches.bounded (hb : FullBatches ok settings i n w w')
    (hw : Coherent w) (hidle : NoTx i w) (hids : (w.db.raw_events.map (·.id)).Nodup) :
    (Coherent w' ∧ NoTx i w' ∧ w'.db.raw_events = w.db.raw_events) ∧
      n + (w'.toHistory.ahead settings).card ≤
        (w.toHistory.ahead settings).card := by
  induction hb with
  | refl w => exact ⟨⟨hw, hidle, rfl⟩, by omega⟩
  | step he hr _ ih =>
      obtain ⟨⟨hw₁, hidle₁, hraw₁⟩, hmoves⟩ :=
        eval_processBatch_moves hw hidle hids he
      obtain ⟨⟨hw', hidle', hraw'⟩, hle⟩ := ih hw₁ hidle₁ (hraw₁ ▸ hids)
      refine ⟨⟨hw', hidle', hraw'.trans hraw₁⟩, ?_⟩
      rcases hmoves with ⟨hzero, -⟩ | ⟨-, -, hlt⟩
      · exact absurd hzero hr
      · omega

theorem FullBatches.alone (hb : FullBatches ok settings i n w w') (h : Alone i w) :
    Alone i w' := by
  induction hb with
  | refl => exact h
  | step he _ _ ih => exact ih (eval_alone h he)

end Draining

/-- **Draining** terminates, and the offset only moves forward. -/
theorem draining_terminates (settings : Settings) (i : ℕ) (db : Db)
    (redis : Redis) (hids : (db.raw_events.map (·.id)).Nodup) (n : ℕ) (w : World)
    (hb : FullBatches (fun _ _ => True) settings i n (World.settled db redis)
      w) :
    n ≤ ((World.settled db redis).toHistory.ahead settings).card ∧
    (∀ r w', Eval (M := services) (fun _ _ => True) i
        (RollupWorker.processBatch settings) w r w' →
      r = .ok 0 ∧ w'.db = w.db ∧ w'.redis = w.redis ∨
      r ≠ .ok 0 ∧ MovesOn settings w.toHistory w'.toHistory) ∧
    ∃ w', Drain noFailure settings i w w' := by
  have hw := coherent_settled redis hids
  obtain ⟨⟨hw', hidle, hraw⟩, hle⟩ := hb.bounded hw rfl hids
  have hids' : (w.db.raw_events.map (·.id)).Nodup := by
    rw [hraw]
    exact hids
  refine ⟨by omega, fun r w' he => ?_, ?_⟩
  · rcases (eval_processBatch_moves hw' hidle hids' he).2 with h | ⟨hr, hon, -⟩
    · exact .inl h
    · exact .inr ⟨hr, hon⟩
  · exact exists_drain (Nat.lt_succ_self _) hw' (hb.alone fun _ _ => rfl) hidle
      hids'

/-- After the first page of one event, of three. -/
theorem draining_terminates_paired : ∃ w,
    FullBatches (fun _ _ => True) (pagesOf 1) 0 1 (World.settled pairedLog ∅) w ∧
    1 ≤ ((World.settled pairedLog ∅).toHistory.ahead (pagesOf 1)).card ∧
    ∃ w', Drain noFailure (pagesOf 1) 0 w w' := by
  have hrun : (pairedRun.head?.bind fun chs =>
      (evalWith (M := services) (fun _ _ => true) 0 chs
        (RollupWorker.processBatch (pagesOf 1))
        (World.settled pairedLog ∅)).map fun p => p.1.toOption) =
      some (some 1) := by decide +kernel
  obtain ⟨chs, -, hrun⟩ := Option.bind_eq_some_iff.mp hrun
  obtain ⟨⟨r, w⟩, heval, hr⟩ := Option.map_eq_some_iff.mp hrun
  have hne : r ≠ .ok 0 := by
    rintro rfl
    cases hr
  have hb : FullBatches (fun _ _ => True) (pagesOf 1) 0 1
      (World.settled pairedLog ∅) w :=
    .step (eval_of_evalWith (fun _ _ _ => trivial) heval) hne (.refl w)
  obtain ⟨hle, -, hdrain⟩ :=
    draining_terminates (pagesOf 1) 0 pairedLog ∅ (by decide) 1 w hb
  exact ⟨w, hb, hle, hdrain⟩

end AnalyticsPipeline
