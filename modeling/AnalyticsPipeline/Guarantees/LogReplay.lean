import AnalyticsPipeline.Guarantees.CommitOrder
import AnalyticsPipeline.Guarantees.Retention

/-!
# Replaying the log

Deleting the offset of a worker sends it through the log again. What earlier
runs left out, because a transaction committed behind the cursor or a page ended
between events of one `created_at`, is then made up for: the markers keep
anything from being counted twice, and a page nobody cuts leaves nothing out.
-/

namespace AnalyticsPipeline

open Framework Relation

/-- Serial histories in which all batches are one consumer's. -/
abbrev SerialOf (consumer_id : String) : History → History → Prop :=
  Serial fun s _ _ => s.worker_id = consumer_id

theorem reach_serialOf {merchants : List Merchant} {consumer_id : String}
    {c : Config services PyError} (hc : Reach (oneConsumer consumer_id)
      (Config.idle (World.start merchants)) c) :
    Coherent c.world ∧
      SerialOf consumer_id (History.start merchants) c.world.toHistory := by
  have hcommits : Commits (oneConsumer consumer_id)
      (fun s => s.worker_id = consumer_id) (fun s _ _ => s.worker_id = consumer_id) :=
    fun hworker _ _ _ => hworker
  exact reach_serial (fun _ _ hp => hp) hcommits hc

section Batches

variable {settings : Settings} {h h' : History}
  {x : Option (List RawEvent × List RawEvent)}

/-- A batch alone is a fetch and, if the page is not empty, one transaction. -/
theorem BatchOutcome.serial (hout : BatchOutcome settings h x h') :
    SerialOf settings.worker_id h h' := by
  cases hout with
  | nothing hf _ => exact .single (.fetch hf.valid hf.seen)
  | page hf _ hbatch =>
      apply ReflTransGen.tail (.single (.fetch hf.valid hf.seen))
      exact .batch rfl hbatch

theorem BatchOutcome.raw_events (hout : BatchOutcome settings h x h') :
    h'.db.raw_events = h.db.raw_events := by
  cases hout with
  | nothing _ _ => rfl
  | page _ _ hbatch => exact hbatch.raw_events

theorem Drain.serial {ok : Call → Choice → Prop} {i : ℕ} {w w' : World}
    (hd : Drain ok settings i w w') (hw : Coherent w) (hidle : NoTx i w) :
    SerialOf settings.worker_id w.toHistory w'.toHistory ∧
      w'.db.raw_events = w.db.raw_events := by
  induction hd with
  | done he =>
      obtain ⟨-, -, x, hout, -⟩ := eval_processBatch hw hidle he
      exact ⟨hout.serial, hout.raw_events⟩
  | more he _ _ ih =>
      obtain ⟨hw₁, hidle₁, x, hout, -⟩ := eval_processBatch hw hidle he
      obtain ⟨hserial, hraw⟩ := ih hw₁ hidle₁
      exact ⟨hout.serial.trans hserial, hraw.trans hout.raw_events⟩

end Batches

/-! ## The rollups as the log has them -/

/-- All rows, at every granularity, are those of the whole log. -/
def Db.RolledUp (db : Db) (events : List RawEvent) : Prop :=
  ∀ g k, (db.rollup g).get? k = Summary.collect (amountsAt g k events)

/-- Once all events are marked, the rows are those of the log. -/
theorem Aggregated.rolledUp {db : Db} (hagg : Aggregated db)
    (hd : Deduplicated db)
    (honce : (db.processed_rollup_events.map (·.event_id)).Nodup)
    (hmarked : ∀ r ∈ db.raw_events, db.marked r = true) :
    db.RolledUp db.raw_events := by
  intro g k
  rw [hagg.rollups_once hd honce g k, List.filter_eq_self.mpr hmarked]

section Replay

variable {merchants : List Merchant} {settings : Settings}
  {c : Config services PyError} {w : World} {i : ℕ}

/-- **Replay**: after any run of one consumer, whatever events it has passed over,
delete its offset and let it read on alone. It can come to the end of the log, and
when it does, no page having ended between events of one `created_at`, every event
is marked and the rollups are those of the log, each event counted once. -/
theorem replay_rolls_up_log (hlimit : 1 ≤ settings.worker_batch_size)
    (hc : Reach (oneConsumer settings.worker_id)
      (Config.idle (World.start merchants)) c)
    (hidle : ∀ j, c.world.txs.get? j = none)
    (hdeleted : c.world.handle (.deleteOffset settings.worker_id) = some w)
    (hcuts : ∀ k, CleanCut RawEvent.created_at c.world.db.raw_events
      (k * settings.worker_batch_size)) :
    (∃ w', Drain noFailure settings i w w') ∧
    ∀ w', Drain (fun _ _ => True) settings i w w' →
      w'.db.raw_events = c.world.db.raw_events ∧
      (∀ r ∈ w'.db.raw_events, w'.db.marked r = true) ∧
      w'.db.RolledUp c.world.db.raw_events := by
  obtain ⟨hcoh, hserial⟩ := reach_serialOf hc
  have hw : Coherent w := handle_coherent hcoh hdeleted
  -- the deletion leaves the log and opens no transaction
  obtain ⟨htxs, hhistory⟩ : w.txs = c.world.txs ∧
      w.toHistory = c.world.toHistory.deleteOffset settings.worker_id := by
    simp only [World.handle] at hdeleted
    split at hdeleted
    · cases hdeleted
    · cases hdeleted
      exact ⟨rfl, rfl⟩
  have hnone : ∀ j, w.txs.get? j = none := fun j => htxs ▸ hidle j
  have hraw : w.db.raw_events = c.world.db.raw_events :=
    congrArg (fun h => h.db.raw_events) hhistory
  have hserial' : SerialOf settings.worker_id (History.start merchants)
      w.toHistory := by
    rw [hhistory]
    exact hserial.tail (.deleteOffset _)
  have hids : (w.db.raw_events.map (·.id)).Nodup :=
    (hserial'.deduplicated (deduplicated_start merchants)).ids
  have hunread : w.toHistory.unread settings = c.world.db.raw_events := by
    rw [History.unread, hraw, hhistory, History.cursor, History.deleteOffset,
      Dict.get?_erase, if_pos rfl]
    rfl
  refine ⟨exists_drain (Nat.lt_succ_self _) hw (fun j _ => hnone j) (hnone i) hids,
    fun w' hdrain => ?_⟩
  obtain ⟨hread, hkept⟩ := hdrain.serial hw (hnone i)
  have hend : SerialOf settings.worker_id (History.start merchants) w'.toHistory :=
    hserial'.trans hread
  have hd := hend.deduplicated (deduplicated_start merchants)
  have hagg := Serial.aggregated (deduplicated_start merchants) (.start merchants) hend
  have honce := marked_once_of_same_consumer hagg
    (hend.same_consumer (by simp [History.start]))
  -- it fetches the whole log, and marks what it fetches
  obtain ⟨pages, hpages, hfetched⟩ := hdrain.pages hlimit hw (hnone i) hids
  obtain ⟨events, hevents, hprocessed⟩ := hdrain.mem_processed_iff hw (hnone i)
  obtain rfl : pages.flatten = events :=
    List.append_cancel_left (hfetched.symm.trans hevents)
  rw [hunread] at hpages
  have hperm := hpages.perm_iff.mpr hcuts
  have hsame : w'.db.raw_events = c.world.db.raw_events := hkept.trans hraw
  have hmarked : ∀ r ∈ w'.db.raw_events, w'.db.marked r = true := by
    intro r hr
    rw [Db.marked, decide_eq_true_eq, List.mem_map]
    refine ⟨⟨settings.worker_id, r.id⟩, (hprocessed _).mpr (.inr ⟨r, ?_, rfl⟩), rfl⟩
    exact hperm.mem_iff.mpr (hsame ▸ hr)
  refine ⟨hsame, hmarked, ?_⟩
  rw [← hsame]
  exact hagg.rolledUp hd honce hmarked

end Replay

/-- The event that a run out of order passed over. -/
theorem replay_rolls_up_log_overtaken : ∃ (c : Config services PyError) (w w' : World),
    Reach (oneConsumer "w") (Config.idle (World.start Sample.merchants)) c ∧
    c.world.db.raw_events.all c.world.db.marked = false ∧
    c.world.handle (.deleteOffset "w") = some w ∧
    Drain noFailure (Sample.worker "w") 0 w w' ∧
    ∀ r ∈ w'.db.raw_events, w'.db.marked r = true := by
  have hrun : ((Config.idle (World.start Sample.merchants)).replay?
      (fun _ _ _ _ => true) overtakenRun).map (fun c =>
        (c.world.txs.entries.length,
          decide (c.world.db.raw_events.map (·.created_at)).Nodup,
          c.world.db.raw_events.all c.world.db.marked,
          (c.world.handle (.deleteOffset "w")).isSome)) =
      some (0, true, false, true) := by decide +kernel
  obtain ⟨c, hc, hstate⟩ := Option.map_eq_some_iff.mp hrun
  obtain ⟨hidle, hrest⟩ := Prod.mk.inj hstate
  obtain ⟨hdistinct, hrest⟩ := Prod.mk.inj hrest
  obtain ⟨hmarked, hdeleted⟩ := Prod.mk.inj hrest
  obtain ⟨w, hw⟩ := Option.isSome_iff_exists.mp hdeleted
  have hreach : Reach (oneConsumer "w")
      (Config.idle (World.start Sample.merchants)) c := by
    refine reach_of_replay? (fun _ _ _ _ _ => trivial) ?_ hc
    have hfirst : ∀ l ∈ Sample.ingest 1 first 1 3, (oneConsumer "w").admits l :=
      Sample.admits_ingest.mpr (.ingestEvent _)
    simp only [overtakenRun, List.forall_mem_append]
    exact ⟨⟨⟨Sample.admits_take 9 hfirst, Sample.admits_ingest.mpr (.ingestEvent _)⟩,
      admits_readBatch (.processBatch _ rfl)⟩, Sample.admits_drop 9 hfirst⟩
  have hreplay := @replay_rolls_up_log Sample.merchants (Sample.worker "w") c w 0
    (by decide) hreach (idle_of_no_entries hidle) hw
    fun k => cleanCut_of_nodup (of_decide_eq_true hdistinct) _
  obtain ⟨w', hdrain⟩ := hreplay.1
  exact ⟨c, w, w', hreach, hmarked, hw, hdrain,
    (hreplay.2 w' (hdrain.weaken fun _ _ _ => trivial)).2.1⟩

end AnalyticsPipeline
