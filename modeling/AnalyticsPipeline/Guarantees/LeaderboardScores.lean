import AnalyticsPipeline.Guarantees.ExactlyOnce
import AnalyticsPipeline.Metatheory.SolitaryLeaderboard
import AnalyticsPipeline.Metatheory.Volumes

/-!
# Leaderboards and day rows

The worker adds the confirmed payments of a batch twice, to the day rows inside
its transaction and to the sorted sets of Redis after it. When Redis answers
every command and nothing else touches the sorted sets, the two stay in step.
-/

namespace AnalyticsPipeline

open Framework Relation

/-- The score of a merchant, zero when it has none. -/
def Redis.score (r : Redis) (period : String) (m : UUID) : ℤ :=
  ((r.board period).bind (·.get? m.str)).getD 0

/-- What happens between two batches of the workers, or is one: a request of
ingestion, whatever fails in it; a batch in which no command fails; a deleted
offset. -/
inductive Turn (worker : Settings → Prop) (w w' : World) : Prop where
  | ingest {i : ℕ} {p : Service Unit} {x : Except PyError Unit} :
      IngestProgram p → Eval (M := services) (fun _ _ => True) i p w x w' →
      Turn worker w w'
  | batch {i : ℕ} {settings : Settings} {x : Except PyError ℕ} :
      worker settings →
      Eval (M := services) noFailure i (RollupWorker.processBatch settings) w x
        w' →
      Turn worker w w'
  | deleteOffset {consumer_id : String} :
      w.handle (.deleteOffset consumer_id) = some w' → Turn worker w w'

/-- The volumes fit the 53 bits of a score. -/
def Exact (events : List RawEvent) : Prop :=
  ∀ period m, confirmedVolume period m events ≤ 2 ^ 53

/-- The scores are the volumes of the events. -/
def Tracks (r : Redis) (events : List RawEvent) : Prop :=
  ∀ period m, r.score period m = confirmedVolume period m events

section Published

variable {r r' r₁ : Redis} {events new : List RawEvent} {settings : Settings}

theorem score_congr {period : String}
    (h : r'.get? (leaderboardKey period) = r.get? (leaderboardKey period))
    (m : UUID) : r'.score period m = r.score period m := by
  rw [Redis.score, Redis.score, board_congr h]

/-- Publishing adds the volumes of the new events to the scores, rounding. -/
theorem Published.score (h : Published new r r') (period : String) (m : UUID) :
    r'.score period m =
      if amountsOf m.str (confirmedIn period new) = [] then r.score period m
      else roundDouble (r.score period m +
        roundDouble (confirmedVolume period m new)) := by
  by_cases hnew : confirmedIn period new = []
  · rw [score_congr (h.others _ fun p hp hkey =>
        hp (leaderboardKey_injective hkey ▸ hnew)) m, hnew]
    exact (if_pos rfl).symm
  · have hboard : r'.board period = some (gained ((r.board period).getD ∅)
        (confirmedIn period new)) := by
      rw [Redis.board, h.boards period hnew]
    have hscore : r.score period m =
        (((r.board period).getD ∅).get? m.str).getD 0 := by
      rw [Redis.score]
      cases r.board period <;> rfl
    rw [hscore, Redis.score, hboard, Option.bind_some, get?_gained]
    split <;> rfl

theorem Tracks.publish (h : Tracks r events) (hpub : Published new r r')
    (hevents : Credits events) (hnew : Credits new)
    (hexact : Exact (events ++ new)) : Tracks r' (events ++ new) := by
  intro period m
  have hold := @confirmedVolume_nonneg _ period m hevents
  have hadd := @confirmedVolume_nonneg _ period m hnew
  have hsum := hexact period m
  rw [hpub.score, h period m, confirmedVolume_append]
  rw [confirmedVolume_append] at hsum
  split
  · rename_i hnil
    have hzero : confirmedVolume period m new = 0 := by
      rw [confirmedVolume, hnil]
      rfl
    rw [hzero, add_zero]
  · rw [roundDouble_eq_self (n := confirmedVolume period m new) (by omega),
      roundDouble_eq_self (by omega)]

theorem Boards.publish (h : Boards r) (hpub : Published new r r') :
    Boards r' := by
  intro period entry hentry
  by_cases hnew : confirmedIn period new = []
  · rw [hpub.others _ fun p hp hkey =>
      hp (leaderboardKey_injective hkey ▸ hnew)] at hentry
    exact h period entry hentry
  · rw [hpub.boards period hnew] at hentry
    cases hentry
    exact ⟨_, rfl⟩

end Published

/-! ## Runs -/

/-- The state between two turns. -/
structure InStep (w : World) : Prop where
  quiescent : Quiescent w
  boards : Boards w.redis
  scores : Exact w.db.markedEvents → Tracks w.redis w.db.markedEvents

section Runs

variable {w w' : World}

theorem Exact.of_append {events new : List RawEvent}
    (h : Exact (events ++ new)) (hnew : Credits new) : Exact events := by
  intro period m
  have hadd := @confirmedVolume_nonneg _ period m hnew
  have hsum := h period m
  rw [confirmedVolume_append] at hsum
  omega

/-- Redis keeps the sorted sets, the tables the marked events. -/
theorem InStep.of_same (h : InStep w) (hq : Quiescent w')
    (hmarked : w'.db.markedEvents = w.db.markedEvents)
    (hkeys : ∀ period, w'.redis.get? (leaderboardKey period) =
      w.redis.get? (leaderboardKey period)) : InStep w' where
  quiescent := hq
  boards := fun period entry hentry =>
    h.boards period entry (hkeys period ▸ hentry)
  scores := by
    rw [hmarked]
    intro hexact period m
    rw [score_congr (hkeys period)]
    exact h.scores hexact period m

theorem InStep.batch {i : ℕ} {settings : Settings} {x : Except PyError ℕ}
    (h : InStep w) (he : Eval (M := services) noFailure i
      (RollupWorker.processBatch settings) w x w') : InStep w' := by
  obtain ⟨_, hvoid⟩ := he.void
  have hq := (h.quiescent.service (@ServiceProgram.processBatch (fun _ => True)
    settings trivial) hvoid).1
  obtain ⟨new, r, hmarked, hpub, hkeys⟩ := h.quiescent.processBatch h.boards he
  have hboard : ∀ period, w'.redis.get? (leaderboardKey period) =
      r.get? (leaderboardKey period) := fun period =>
    hkeys _ (heartbeatKey_ne settings period)
  have hcredits : Credits (w.db.markedEvents ++ new) := fun e he =>
    hq.credits e (markedEvents_subset _ (hmarked.symm.subset he))
  obtain ⟨hevents, hnew⟩ := List.forall_mem_append.mp hcredits
  refine ⟨hq, fun period entry hentry => ?_, fun hexact period m => ?_⟩
  · exact h.boards.publish hpub period entry (hboard period ▸ hentry)
  · have hexact' : Exact (w.db.markedEvents ++ new) := fun period m =>
      confirmedVolume_perm hmarked ▸ hexact period m
    have htracks := (h.scores (hexact'.of_append hnew)).publish hpub hevents
      hnew hexact'
    rw [score_congr (hboard period), htracks period m,
      confirmedVolume_perm hmarked]

theorem InStep.turn {worker : Settings → Prop} (h : InStep w)
    (ht : Turn worker w w') : InStep w' := by
  cases ht with
  | ingest hp he =>
      obtain ⟨hmarked, hkeys⟩ := h.quiescent.ingest hp he
      exact h.of_same (@Quiescent.service _ _ _ _ (fun _ => True) _ _ h.quiescent hp.service
        he).1 hmarked fun period =>
        hkeys _ (ne_leaderboardKey (by decide) period)
  | batch _ he => exact h.batch he
  | deleteOffset he =>
      simp only [World.handle] at he
      split at he
      · cases he
      · cases he
        exact h.of_same (h.quiescent.deleteOffset _) rfl fun _ => rfl

theorem inStep_start (merchants : List Merchant) :
    InStep (World.start merchants) where
  quiescent := quiescent_start merchants
  boards := fun _ _ h => nomatch h
  scores := fun _ _ _ => rfl

end Runs

/-- **Scores track the day rollups**: after any turns, while the volumes fit a
score, the score of every merchant in every period is the sum over its confirmed
day rows of the period. -/
theorem scores_track_day_rollups (merchants : List Merchant)
    {worker : Settings → Prop} {w : World}
    (hrun : ReflTransGen (Turn worker) (World.start merchants) w)
    (hexact : ∀ period m, w.db.volume period m ≤ 2 ^ 53) :
    ∀ period m, w.redis.score period m = w.db.volume period m := by
  have hw : InStep w := by
    clear hexact
    induction hrun with
    | refl => exact inStep_start merchants
    | tail _ ht ih => exact ih.turn ht
  intro period m
  rw [hw.quiescent.aggregated.volume]
  refine hw.scores (fun period m => ?_) period m
  rw [← hw.quiescent.aggregated.volume]
  exact hexact period m

namespace Sample

def confirmed (key : Char) (amount_cents : ℕ) : EventIngest :=
  { payment key amount_cents with event_type := .paymentConfirmed }

/-- The choices of the world in a request for one new event. -/
def ingestChoices (minute : ℕ) (id : UUID) : List Choice :=
  [.clock (instant minute), .auto, .clock (instant minute), .uuid id] ++
    List.replicate 6 .auto

/-- The choices of the world in a batch with new confirmed payments of
`periods` months. -/
def batchChoices (minute : ℕ) (scan : List RawEvent) (periods : ℕ) :
    List Choice :=
  [.clock (instant minute), .auto, .rows scan] ++ List.replicate 7 .auto ++
    List.replicate periods .auto ++ [.clock (instant minute), .auto]

end Sample

/-- A confirmed payment, ingested and processed. -/
def trackedRun : Option World :=
  (evalWith (M := services) (fun _ _ => true) 0 (Sample.ingestChoices 3 1)
    (ingestEventRequest (Sample.confirmed 'a' 250) >>= fun _ => pure ())
    (World.start Sample.merchants)).bind fun r =>
  (evalWith (M := services) (Call.lets false) 1
    (Sample.batchChoices 4 [Sample.row (Sample.confirmed 'a' 250) 1 3] 1)
    (RollupWorker.processBatch (Sample.worker "w")) r.2).map Prod.snd

theorem trackedRun_turns {w : World} (hw : trackedRun = some w) :
    ReflTransGen (Turn (·.worker_id = "w")) (World.start Sample.merchants) w := by
  obtain ⟨⟨x₁, w₁⟩, h₁, hrest⟩ := Option.bind_eq_some_iff.mp hw
  obtain ⟨⟨x₂, w₂⟩, h₂, rfl⟩ := Option.map_eq_some_iff.mp hrest
  exact .tail (.single (.ingest (.event (Sample.confirmed 'a' 250))
    (eval_of_evalWith (fun _ _ _ => trivial) h₁)))
    (.batch rfl (eval_of_evalWith (fun _ _ => notifying_of_lets) h₂))

namespace Sample

def lastMonth : DateTime :=
  { instant 0 with month := 4, month_range := by decide, day_range := by decide }

/-- A payment of the month before, by its client's time. -/
def backdated : EventIngest :=
  { confirmed 'b' 100 with client_timestamp := some (.naive lastMonth) }

end Sample

/-- The second payment comes, the offset is deleted, and a batch reads both. -/
def trackedReplay : Option World :=
  trackedRun.bind fun w =>
  (evalWith (M := services) (fun _ _ => true) 0 (Sample.ingestChoices 5 2)
    (ingestEventRequest Sample.backdated >>= fun _ => pure ()) w).bind fun r =>
  (r.2.handle (.deleteOffset "w")).bind fun w' =>
  (evalWith (M := services) (Call.lets false) 1
    (Sample.batchChoices 6 [Sample.row (Sample.confirmed 'a' 250) 1 3,
      { Sample.row Sample.backdated 2 5 with
        client_timestamp := some Sample.lastMonth }] 1)
    (RollupWorker.processBatch (Sample.worker "w")) w').map Prod.snd

theorem trackedReplay_turns {w : World} (hw : trackedReplay = some w) :
    ReflTransGen (Turn (·.worker_id = "w")) (World.start Sample.merchants) w := by
  obtain ⟨w₁, h₁, hrest⟩ := Option.bind_eq_some_iff.mp hw
  obtain ⟨⟨x₂, w₂⟩, h₂, hrest⟩ := Option.bind_eq_some_iff.mp hrest
  obtain ⟨w₃, h₃, hrest⟩ := Option.bind_eq_some_iff.mp hrest
  obtain ⟨⟨x₄, w₄⟩, h₄, rfl⟩ := Option.map_eq_some_iff.mp hrest
  have hingested := (trackedRun_turns h₁).tail (.ingest (.event Sample.backdated)
    (eval_of_evalWith (fun _ _ _ => trivial) h₂))
  exact (hingested.tail (.deleteOffset h₃)).tail
    (.batch rfl (eval_of_evalWith (fun _ _ => notifying_of_lets) h₄))

theorem scores_track_day_rollups_replayed : ∃ w,
    ReflTransGen (Turn (·.worker_id = "w")) (World.start Sample.merchants) w ∧
    w.redis.score "2024-05" 7 = 250 ∧ w.redis.score "2024-04" 7 = 100 := by
  have hrun : trackedReplay.map (fun w => (w.db.rollup .day).entries) =
      some [(⟨7, (Sample.instant 0).truncDay, .paymentConfirmed⟩,
          ⟨1, 250, some 250, some 250⟩),
        (⟨7, Sample.lastMonth.truncDay, .paymentConfirmed⟩,
          ⟨1, 100, some 100, some 100⟩)] := by decide +kernel
  obtain ⟨w, hw, hrows⟩ := Option.map_eq_some_iff.mp hrun
  have hturns := trackedReplay_turns hw
  have hscores := scores_track_day_rollups Sample.merchants hturns fun period m =>
    Db.volume_le hrows (by decide) (by decide) period m
  refine ⟨w, hturns, ?_, ?_⟩
  · rw [hscores, Db.volume, hrows]
    decide
  · rw [hscores, Db.volume, hrows]
    decide

end AnalyticsPipeline
