import AnalyticsPipeline.Metatheory.BatchTransaction
import AnalyticsPipeline.Metatheory.IngestTransaction

/-!
# Serial histories

The abstract system: transactions happen whole, one after another
(`SerialStep`). Every interleaving of the services, call by call, with crashes,
lost connections and operators deleting offsets, leaves a history that the
abstract system has as well (`sound_serial`), so what holds of serial histories
holds of the services.
-/

namespace AnalyticsPipeline

open Framework Relation

/-! ## The abstract system -/

def History.deleteOffset (h : History) (c : String) : History :=
  { h with db := { h.db with consumer_offsets := h.db.consumer_offsets.erase c } }

/-- One whole transaction, one fetch, or one operator's intervention;
`allowed` limits the batches. -/
inductive SerialStep (allowed : Settings → History → List RawEvent → Prop)
    (h : History) : History → Prop where
  | ingest {now : DateTime} {ws : Db} {answers : Answers} :
      IngestTx h now ws answers → SerialStep allowed h (h.install ws answers)
  | batch {settings : Settings} {f : Fetch} {new : List RawEvent} {ws : Db} :
      allowed settings h new → BatchTx settings h f new ws →
      SerialStep allowed h (h.install ws [])
  | fetch {f : Fetch} : f.Valid → f.seen = h.db.raw_events →
      SerialStep allowed h (h.fetch f)
  | deleteOffset (c : String) : SerialStep allowed h (h.deleteOffset c)

def Serial (allowed : Settings → History → List RawEvent → Prop) :
    History → History → Prop :=
  ReflTransGen (SerialStep allowed)

/-- Empty tables, apart from the merchants. -/
def History.start (merchants : List Merchant) : History :=
  ⟨{ (∅ : Db) with merchants := merchants }, [], []⟩

def World.start (merchants : List Merchant) : World :=
  { History.start merchants with redis := ∅, txs := ∅, issued := ∅ }

theorem coherent_start (merchants : List Merchant) :
    Coherent (World.start merchants) :=
  ⟨by simp [World.start], by simp [World.start],
    by simp [World.start, History.start]⟩

theorem deduplicated_start (merchants : List Merchant) :
    Deduplicated (History.start merchants).db :=
  Deduplicated.empty.of_eq rfl rfl

theorem BatchTx.deduplicates {settings : Settings} {h : History} {f : Fetch}
    {new : List RawEvent} {ws : Db} (hb : BatchTx settings h f new ws)
    (hd : Deduplicated h.db) : Deduplicated (ws.overlay h.db) :=
  hd.of_eq hb.event_idempotency hb.raw_events

section Serial

variable {allowed : Settings → History → List RawEvent → Prop} {h h' : History}

theorem SerialStep.deduplicated (hd : Deduplicated h.db)
    (hs : SerialStep allowed h h') : Deduplicated h'.db := by
  cases hs with
  | ingest hi => exact hi.events.deduplicates hd
  | batch _ hb => exact hb.deduplicates hd
  | fetch _ _ => exact hd
  | deleteOffset c => exact hd.of_eq rfl rfl

theorem Serial.deduplicated (hd : Deduplicated h.db) (hs : Serial allowed h h') :
    Deduplicated h'.db := by
  induction hs with
  | refl => exact hd
  | tail _ hstep ih => exact hstep.deduplicated ih

end Serial

/-! ## Programs of the services -/

/-- The programs a session may run, their results ignored. -/
inductive ServiceProgram (worker : Settings → Prop) : Service Unit → Prop where
  | processBatch (settings : Settings) : worker settings →
      ServiceProgram worker
        (RollupWorker.processBatch settings >>= fun _ => pure ())
  | ingestEvent (payload : EventIngest) :
      ServiceProgram worker (ingestEventRequest payload >>= fun _ => pure ())
  | ingestBatch (payload : BatchEventIngest) :
      ServiceProgram worker (ingestBatchRequest payload >>= fun _ => pure ())

section Quiet

theorem within_redisWrite {transaction : Bool} {ops : List RedisOp} :
    Prog.Within Call.loud 0 (RedisRepository.write transaction ops) := by
  refine .free rfl fun x => ?_
  cases x <;> exact .ret

theorem within_forM {cost : Call → ℕ} {β : Type} {f : β → Service Unit}
    (hf : ∀ b, Prog.Within cost 0 (f b)) :
    ∀ l : List β, Prog.Within cost 0 (l.forM f)
  | [] => .ret
  | b :: l => (hf b).bind fun _ => within_forM hf l

theorem within_updateLeaderboard (events : List RawEvent) :
    Prog.Within Call.loud 0 (RollupWorker.updateLeaderboard events) := by
  refine Prog.Within.tryCatch (m := 0) (n := 0) (within_forM (fun p => ?_) _)
    fun _ => .ret
  rw [RedisRepository.leaderboardIncrementBatch]
  split
  · exact .ret
  · exact within_redisWrite

theorem within_publish (settings : Settings) (events : List RawEvent) :
    Prog.Within Call.loud 0 (RollupWorker.publish settings events) := by
  have hbeat : Prog.Within Call.loud 0
      (RedisRepository.setWorkerHeartbeat settings.worker_id) :=
    .free rfl fun _ => within_redisWrite
  rw [RollupWorker.publish]
  split
  · exact (within_updateLeaderboard events).bind fun _ => hbeat
  · exact hbeat

end Quiet

section Sound

variable {pol : ServicePolicy} {S : History → Prop}

def NoTx (i : ℕ) (w : World) : Prop := w.txs.get? i = none

theorem wp_void {α : Type} {i : ℕ} {p : Service α} {w : World}
    (hw : Inv S w) (h : Wp pol (Inv S) i p (fun _ => NoTx i) w) :
    Wp pol (Inv S) i (p >>= fun _ => pure ()) (fun _ => NoTx i) w := by
  refine Wp.bind (Wp.mono ?_ h) hw
  intro r w' _ hnone
  cases r with
  | ok x => exact wp_ret fun w'' hr _ => (frame_of_rely hr).tx.trans hnone
  | error e => exact wp_ret fun w'' hr _ => (frame_of_rely hr).tx.trans hnone

/-- A whole batch: its transaction, then Redis. -/
theorem wp_processBatch {i : ℕ} {settings : Settings} {w : World}
    (H : BatchHooks pol S i settings) (hw : Inv S w)
    (hstart : H.start w.toHistory w.redis) (hidle : NoTx i w) :
    Wp pol (Inv S) i (RollupWorker.processBatch settings) (fun _ => NoTx i)
      w := by
  refine Wp.bind (Wp.mono ?_ (wp_batchScope H hidle hstart)) hw
  intro r w' hw' hpost
  have hret : ∀ (x : Except PyError ℕ) w, NoTx i w →
      Wp pol (Inv S) i (.ret x : Service ℕ) (fun _ => NoTx i) w :=
    fun x w hnone => wp_ret fun w'' hr _ => (frame_of_rely hr).tx.trans hnone
  cases r with
  | error e => exact hret _ _ hpost.1
  | ok batch =>
      cases batch with
      | none => exact hret _ _ hpost.1
      | some p =>
          refine Wp.bind (Wp.mono ?_ (wp_quietProgram
            (within_publish settings p.2) rfl hpost.1)) hw'
          intro r₂ w₂ _ hnone
          cases r₂ with
          | ok _ => exact hret _ _ hnone
          | error e => exact hret _ _ hnone

/-- The commits of batches keep the property. -/
def Batches (pol : ServicePolicy) (S : History → Prop)
    (worker : Settings → Prop) : Prop :=
  ∀ {i : ℕ} {w : World} {tx : Tx} {settings : Settings} {f : Fetch}
    {new : List RawEvent}, Inv S w → worker settings →
    w.txs.get? i = some tx → pol.call w i (.commit []) .auto →
    BatchTx settings w.toHistory f new tx.writes →
    S (w.toHistory.install tx.writes [])

/-- So do fetches. -/
def Fetches (S : History → Prop) : Prop :=
  ∀ {h : History} {f : Fetch}, S h → f.Valid → f.seen = h.db.raw_events →
    S (h.fetch f)

/-- A batch of which nothing needs to be remembered but the invariant. -/
def plainHooks {worker : Settings → Prop} (hfetch : Fetches S)
    (hbatch : Batches pol S worker) {settings : Settings}
    (hworker : worker settings) (i : ℕ) : BatchHooks pol S i settings where
  start := fun _ _ => True
  cursor := fun _ _ _ => True
  fetched := fun _ _ _ => True
  done := fun _ _ _ => True
  failed := fun _ _ => True
  stable_start := fun _ _ _ => trivial
  stable_cursor := fun _ _ _ _ _ _ => trivial
  stable_fetched := fun _ _ _ _ _ _ => trivial
  stable_done := fun _ _ _ _ _ _ => trivial
  stable_failed := fun _ _ _ => trivial
  offset := fun _ _ => trivial
  fetch := fun hw _ _ hvalid _ _ hseen =>
    ⟨hfetch hw.2 hvalid hseen, by split <;> trivial⟩
  fetch_error := fun _ _ _ _ => trivial
  commit := fun hw _ htx _ hpol hb => ⟨hbatch hw hworker htx hpol hb, trivial⟩

theorem wp_serviceProgram {worker : Settings → Prop} {i : ℕ} {p : Service Unit}
    {w : World} (hingest : Prepares pol S)
    (hfetch : Fetches S) (hbatch : Batches pol S worker)
    (hp : ServiceProgram worker p) (hw : Inv S w) (hidle : NoTx i w) :
    Wp pol (Inv S) i p (fun _ => NoTx i) w := by
  cases hp with
  | processBatch settings hworker =>
      exact wp_void hw (wp_processBatch (plainHooks hfetch hbatch hworker i) hw
        trivial hidle)
  | ingestEvent payload =>
      exact wp_void hw (wp_ingestEventRequest payload hingest hidle)
  | ingestBatch payload =>
      exact wp_void hw (wp_ingestBatchRequest payload hingest hidle)

theorem sound_of_programs
    (hprog : ∀ {i p w}, pol.spawn i p → Inv S w → NoTx i w →
      Wp pol (Inv S) i p (fun _ => NoTx i) w)
    (hdelete : ∀ {w c}, Inv S w → pol.env w (.deleteOffset c) →
      S (w.toHistory.deleteOffset c)) : Sound pol (Inv S) NoTx where
  idle_stable := fun hw _ hs hidle => (otherStep_frame hw.1 hs).tx.trans hidle
  crash := fun {i w} hw => by
    refine ⟨⟨World.Effect.coherent (c := .rollback) hw.1 .drop (by simp), hw.2⟩,
      ?_⟩
    change (w.dropTx i).txs.get? i = none
    rw [World.get?_dropTx, if_pos rfl]
  env := fun {e w w'} hw ha he => by
    refine ⟨handle_coherent hw.1 he, ?_⟩
    cases e with
    | evict key =>
        cases he
        exact hw.2
    | deleteOffset c =>
        simp only [World.handle] at he
        split at he
        · cases he
        · cases he
          exact hdelete hw ha
  spawn := fun ha hw hidle => hprog ha hw hidle

/-- A property of the event tables that new events keep. -/
theorem sound_events {P : Db → Prop} {worker : Settings → Prop}
    (hspawn : ∀ i p, pol.spawn i p → ServiceProgram worker p)
    (hnew : ∀ {db ws : Db} {now : DateTime}, P db → NewEvents db now ws →
      P (ws.overlay db))
    (hsame : ∀ {db db' : Db}, P db →
      db'.event_idempotency = db.event_idempotency →
      db'.raw_events = db.raw_events → P db') :
    Sound pol (Inv fun h => P h.db) NoTx := by
  refine sound_of_programs ?_ fun hw _ => hsame hw.2 rfl rfl
  intro i p w hp hw hidle
  refine wp_serviceProgram ?_ ?_ ?_ (hspawn i p hp) hw hidle
  · exact fun hw _ _ _ hp => hnew hw.2 hp.events
  · exact fun hs _ _ => hs
  · intro j v tx settings f new hv _ _ _ hb
    exact hsame hv.2 hb.event_idempotency hb.raw_events

theorem sound_deduplicated {worker : Settings → Prop}
    (hspawn : ∀ i p, pol.spawn i p → ServiceProgram worker p) :
    Sound pol (Inv fun h => Deduplicated h.db) NoTx :=
  sound_events hspawn (fun hd hnew => hnew.deduplicates hd)
    fun hd hidem hraw => hd.of_eq hidem hraw

end Sound

/-! ## Refinement -/

section Refinement

variable {pol : ServicePolicy} {worker : Settings → Prop}
  {allowed : Settings → History → List RawEvent → Prop} {h₀ : History}

/-- The commits of batches that the policy lets through are allowed. -/
def Commits (pol : ServicePolicy) (worker : Settings → Prop)
    (allowed : Settings → History → List RawEvent → Prop) : Prop :=
  ∀ {i : ℕ} {w : World} {tx : Tx} {settings : Settings} {f : Fetch}
    {new : List RawEvent}, worker settings → w.txs.get? i = some tx →
    pol.call w i (.commit []) .auto →
    BatchTx settings w.toHistory f new tx.writes →
    allowed settings w.toHistory new

theorem sound_serial (hd : Deduplicated h₀.db)
    (hspawn : ∀ i p, pol.spawn i p → ServiceProgram worker p)
    (hcommit : Commits pol worker allowed) :
    Sound pol (Inv (Serial allowed h₀)) NoTx := by
  have hS : ∀ h, Serial allowed h₀ h → Deduplicated h.db :=
    fun h hs => hs.deduplicated hd
  refine sound_of_programs ?_ fun hw _ => hw.2.tail (.deleteOffset _)
  intro i p w hp hw hidle
  refine wp_serviceProgram (Ingests.prepares hS ?_) ?_ ?_ (hspawn i p hp) hw
    hidle
  · exact fun hw _ _ _ hi => hw.2.tail (.ingest hi)
  · exact fun hs hvalid hseen => hs.tail (.fetch hvalid hseen)
  · exact fun hw hworker htx hpol hb =>
      hw.2.tail (.batch (hcommit hworker htx hpol hb) hb)

/-- **Refinement**: whatever the interleaving, the history is one of the
abstract system. -/
theorem reach_serial {merchants : List Merchant}
    (hspawn : ∀ i p, pol.spawn i p → ServiceProgram worker p)
    (hcommit : Commits pol worker allowed) {c : Config services PyError}
    (hc : Reach pol (Config.idle (World.start merchants)) c) :
    Coherent c.world ∧
      Serial allowed (History.start merchants) c.world.toHistory := by
  have hs : Sound pol (Inv (Serial allowed (History.start merchants))) NoTx :=
    sound_serial (deduplicated_start merchants) hspawn hcommit
  have hstart : Inv (Serial allowed (History.start merchants))
      (World.start merchants) :=
    ⟨coherent_start merchants, .refl⟩
  exact (reach_wp hs (good_idle hs hstart fun _ => rfl) hc).1

end Refinement

end AnalyticsPipeline
