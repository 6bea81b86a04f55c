import AnalyticsPipeline.Guarantees.ExactlyOnce
import AnalyticsPipeline.Metatheory.Compaction
import AnalyticsPipeline.Metatheory.SolitaryRun

/-!
# Streamed and re-derived day rows

The worker adds deltas to hour rows and day rows alike; compaction computes the
day rows anew from the hours. As long as a compaction runs by itself the two
agree: every day row is what its hour rows add up to, and running a compaction
changes no day row.
-/

namespace AnalyticsPipeline

open Framework

/-- Every day row is what its hours add up to. -/
def Rederived (h : History) : Prop :=
  Deduplicated h.db ∧ ∀ k, h.db.DayAgrees k

/-- Some sessions run compactions of any dates, the others workers with any
consumer ids and ingestion. A compaction and anybody else never overlap. -/
def serialCompactions (compactor : ℕ → Bool) : ServicePolicy where
  call := fun w i _ _ => ∀ j, j ≠ i → (compactor i || compactor j) = true →
    w.txs.get? j = none
  crash := fun _ _ => True
  spawn := fun i p =>
    if compactor i then
      ∃ date, p = NightlyCompaction.runCompaction date >>= fun _ => pure ()
    else ServiceProgram (fun _ => True) p
  env := fun _ _ => True

section Rederived

variable {compactor : ℕ → Bool} {S : History → Prop} {h : History} {i : ℕ}
  {w w' : World} {tx : Tx}

theorem Rederived.start (merchants : List Merchant) :
    Rederived (History.start merchants) :=
  ⟨deduplicated_start merchants, fun _ => rfl⟩

theorem Rederived.batch {settings : Settings} {f : Fetch} {new : List RawEvent}
    {ws : Db} (hd : Rederived h) (hb : BatchTx settings h f new ws) :
    Rederived (h.install ws []) := by
  exact ⟨hb.deduplicates hd.1, fun k => hb.dayAgrees (hd.2 k)⟩

theorem Rederived.ingest {now : DateTime} {ws : Db} {answers : Answers}
    (hd : Rederived h) (hi : IngestTx h now ws answers) :
    Rederived (h.install ws answers) := by
  refine ⟨hi.events.deduplicates hd.1, fun k =>
    (hd.2 k).overlay fun g k => ?_⟩
  rw [hi.events.others]
  rfl

theorem Rederived.compaction (hd : Rederived h)
    (hc : Compacting (fun _ => True) h.db tx) :
    Rederived (h.install tx.writes []) := by
  refine ⟨?_, fun k => hc.dayAgrees trivial (hd.2 k)⟩
  exact hd.1.of_eq (by simp [History.install, hc.events.2])
    (by simp [History.install, hc.events.1])

/-- While a compaction has its transaction open, the rollups stay as they
are. -/
theorem rollup_kept (hi : compactor i = true)
    (htx : w.txs.get? i = some tx)
    (hr : Interferes (serialCompactions compactor) S i w w') :
    w'.db.rollup = w.db.rollup := by
  suffices h : w'.txs.get? i = some tx ∧ w'.db.rollup = w.db.rollup from h.2
  refine hr.preserves (P := fun v : World => v.txs.get? i = some tx ∧
    v.db.rollup = w.db.rollup) ?_ ⟨htx, rfl⟩
  rintro v v' hv - hstep ⟨htxv, hrollup⟩
  refine ⟨(otherStep_frame hv.1 hstep).tx.trans htxv, ?_⟩
  cases hstep with
  | call hj hpol _ =>
      have hnone : v.txs.get? i = none :=
        hpol i (Ne.symm hj) (by rw [hi, Bool.or_true])
      rw [htxv] at hnone
      cases hnone
  | crash _ => exact hrollup
  | @env _ e _ he =>
      cases e with
      | evict key =>
          cases he
          exact hrollup
      | deleteOffset c =>
          simp only [World.handle] at he
          split at he
          · cases he
          · cases he
            exact hrollup

/-- Nothing can have become stale since the snapshot. -/
def serialCompactionHooks (hi : compactor i = true) :
    CompactionHooks (serialCompactions compactor) Rederived i
      (fun _ => True) where
  snapshot := fun rows h => ∀ entry ∈ rows,
    h.db.dayAggregate entry.1 = some entry.2
  agrees := fun hd _ => hd.2 _
  stable := fun htx hr _ hsnap entry hentry => by
    rw [← hsnap entry hentry]
    refine dayAggregate_congr fun x _ => ?_
    rw [rollup_kept hi htx hr]
  aggregate := fun _ hsnap => hsnap
  fresh := fun _ hsnap hentry _ _ => hsnap _ hentry
  commit := fun hw hc => hw.2.compaction hc

theorem sound_serialCompactions :
    Sound (serialCompactions compactor) (Inv Rederived) NoTx := by
  refine sound_of_programs ?_ fun hw _ => ?_
  · intro i p w hp hw hidle
    simp only [serialCompactions] at hp
    split at hp
    · rename_i hi
      obtain ⟨date, rfl⟩ := hp
      exact wp_void hw (wp_runCompaction (serialCompactionHooks hi) date hidle)
    · refine wp_serviceProgram (Ingests.prepares (fun _ hd => hd.1) ?_) ?_ ?_
        hp hw hidle
      · exact fun hw _ _ _ hi => hw.2.ingest hi
      · exact fun hd _ _ => hd
      · exact fun hw _ _ _ hb => hw.2.batch hb
  · exact ⟨hw.2.1.of_eq rfl rfl, fun k => (hw.2.2 k).congr fun _ _ => rfl⟩

theorem reach_rederived {merchants : List Merchant} {c : Config services PyError}
    (hc : Reach (serialCompactions compactor)
      (Config.idle (World.start merchants)) c) : Inv Rederived c.world :=
  (reach_wp sound_serialCompactions (good_idle sound_serialCompactions
    ⟨coherent_start merchants, .start merchants⟩ fun _ => rfl) hc).1

/-! ## A compaction by itself -/

/-- The rollups read as they did in `db`. -/
def ReadsAs (db : Db) (h : History) : Prop :=
  ∀ g k, (h.db.rollup g).get? k = (db.rollup g).get? k

theorem ReadsAs.dayAggregate {db : Db} (h₀ : ReadsAs db h) (k : RollupKey) :
    h.db.dayAggregate k = db.dayAggregate k :=
  dayAggregate_congr fun x _ => h₀ .hour x

def solitaryCompactionHooks {db : Db} (hdb : ∀ k, db.DayAgrees k) (i : ℕ) :
    CompactionHooks (solitary i) (ReadsAs db) i (fun _ => True) where
  snapshot := fun rows _ => ∀ entry ∈ rows,
    db.dayAggregate entry.1 = some entry.2
  agrees := fun h₀ _ => (hdb _).congr fun g k => h₀ g k
  stable := fun _ _ _ hsnap => hsnap
  aggregate := fun h₀ hsnap entry hentry => by
    rw [← hsnap entry hentry, h₀.dayAggregate]
  fresh := fun hw hsnap hentry _ _ => by
    rw [← hsnap _ hentry]
    exact hw.2.dayAggregate _
  commit := fun {w tx} hw hc g k => by
    rw [← hw.2 g k]
    change ((tx.writes.overlay w.db).rollup g).get? k = _
    rw [Db.get?_overlay_rollup]
    by_cases hg : g = .day
    · subst hg
      cases hrow : (tx.writes.rollup .day).get? k with
      | none => rw [Option.none_or]
      | some row =>
          have hday : (w.db.rollup .day).get? k = w.db.dayAggregate k :=
            (hdb k).congr fun g k => hw.2 g k
          rw [Option.some_or, hday, hc.days k row trivial hrow]
    · rw [hc.others g k hg, Option.none_or]

theorem after_compaction {date : DateTime}
    {x : Except PyError (List DiscrepancyRow × ℕ)} (hw : Coherent w)
    (hdays : ∀ k, w.db.DayAgrees k) (hidle : w.txs.get? i = none)
    (he : Eval (M := services) (fun _ _ => True) i
      (NightlyCompaction.runCompaction date) w x w') : ReadsAs w.db w'.toHistory := by
  let inv := Inv (ReadsAs w.db)
  have hstart : inv w := ⟨hw, fun _ _ => rfl⟩
  have hwp := wp_runCompaction (solitaryCompactionHooks hdays i) date hidle
  have hend := @Wp.eval _ _ _ _ _ (fun c ch => (solitary i).call w i c ch) _ _ _ _ _ _ _ _
    hstart
    hwp (fun _ _ _ _ => rfl) (he.weaken fun _ _ _ => rfl)
  exact hend.2.2

end Rederived

/-- **Streaming and re-derivation coincide**: in every reachable state each day
row is what its hour rows add up to, and there is none only where there are no
hour rows; so a compaction of any date inserts and changes no day row. -/
theorem day_rows_rederived (merchants : List Merchant) {compactor : ℕ → Bool}
    {c : Config services PyError}
    (hc : Reach (serialCompactions compactor)
      (Config.idle (World.start merchants)) c) :
    (∀ k, c.world.db.DayAgrees k) ∧
    ∀ (i : ℕ) (date : DateTime) (x : Except PyError (List DiscrepancyRow × ℕ))
      (w' : World), c.world.txs.get? i = none →
      Eval (M := services) (fun _ _ => True) i
        (NightlyCompaction.runCompaction date) c.world x w' →
      ∀ k, (w'.db.rollup .day).get? k = (c.world.db.rollup .day).get? k := by
  obtain ⟨hw, -, hdays⟩ := reach_rederived hc
  exact ⟨hdays, fun i date x w' hidle he k =>
    after_compaction hw hdays hidle he .day k⟩

namespace Sample

/-- A whole compaction of the day of the sample instants, which finds hours for
`keys`. -/
def compact (i : ℕ) (minute : ℕ) (keys : List RollupKey) : Labels :=
  [.spawn i (NightlyCompaction.runCompaction (instant 0) >>= fun _ => pure ()),
    .call i (.clock (instant minute)), .call i (.groups keys)] ++
  keys.map (fun _ => .call i .auto) ++
  [.call i (.groups keys), .call i (.merchants []), .call i .auto,
    .call i .auto]

theorem admits_compact {pol : ServicePolicy} {i minute : ℕ}
    {keys : List RollupKey}
    (h : pol.spawn i (NightlyCompaction.runCompaction (instant 0) >>=
      fun _ => pure ())) : ∀ l ∈ compact i minute keys, pol.admits l := by
  simp only [compact, List.forall_mem_append, List.forall_mem_cons,
    List.forall_mem_map, Policy.admits, List.not_mem_nil, false_imp_iff,
    implies_true, and_true, h]

/-- The day row of the sample payments. -/
def dayKey : RollupKey := ⟨7, (instant 0).truncDay, .paymentInitiated⟩

end Sample

/-- `serialCompactions`, decided. -/
def keepsApart (compactor : ℕ → Bool) (w : World) (i : ℕ) : Bool :=
  w.txs.entries.all fun t => t.1 = i || !(compactor i || compactor t.1)

theorem call_of_keepsApart {compactor : ℕ → Bool} {w : World} {i : ℕ} {c : Call}
    {ch : Choice} (h : keepsApart compactor w i = true) :
    (serialCompactions compactor).call w i c ch := by
  intro j hj hcompacts
  by_contra hne
  obtain ⟨tx, htx⟩ := Option.ne_none_iff_exists'.mp hne
  have hentry := List.all_eq_true.mp h _ (Dict.get?_eq_some_iff.mp htx)
  rw [hcompacts, Bool.not_true, Bool.or_false, decide_eq_true_eq] at hentry
  exact hj hentry

/-- A payment is processed, its day compacted, and a late payment processed on
top of the compacted row. -/
def compactedRun : Sample.Labels :=
  let e := Sample.payment 'a' 250
  let late := Sample.payment 'b' 100
  Sample.ingest 0 e 1 3 ++
    (Sample.fetch 1 (Sample.worker "w") 4 [Sample.row e 1 3] ++
      Sample.store 1 ++ Sample.close 1 4) ++
    Sample.compact 9 5 [Sample.dayKey] ++ Sample.ingest 0 late 2 6 ++
    (Sample.fetch 1 (Sample.worker "w") 7
      [Sample.row e 1 3, Sample.row late 2 6] ++ Sample.store 1 ++
      Sample.close 1 7)

theorem day_rows_rederived_late : ∃ c : Config services PyError,
    Reach (serialCompactions (· == 9))
      (Config.idle (World.start Sample.merchants)) c ∧
    (c.world.db.rollup .day).get? Sample.dayKey =
      some ⟨2, 350, some 100, some 250⟩ ∧
    c.world.db.DayAgrees Sample.dayKey ∧
    ∃ x w', Eval (M := services) (fun _ _ => True) 9
      (NightlyCompaction.runCompaction (Sample.instant 0)) c.world x w' ∧
      (w'.db.rollup .day).get? Sample.dayKey =
        (c.world.db.rollup .day).get? Sample.dayKey := by
  have hrun : ((Config.idle (World.start Sample.merchants)).replay?
      (fun w i _ _ => keepsApart (· == 9) w i) compactedRun).map (fun c =>
        ((c.world.db.rollup .day).get? Sample.dayKey,
          c.world.txs.entries.length,
          (evalWith (M := services) (fun _ _ => true) 9
            [.clock (Sample.instant 9), .groups [Sample.dayKey], .auto,
              .groups [Sample.dayKey], .merchants [], .auto, .auto]
            (NightlyCompaction.runCompaction (Sample.instant 0)) c.world).isSome)) =
      some (some ⟨2, 350, some 100, some 250⟩, 0, true) := by decide +kernel
  obtain ⟨c, hc, hrow⟩ := Option.map_eq_some_iff.mp hrun
  obtain ⟨hget, hrest⟩ := Prod.mk.inj hrow
  obtain ⟨hidle, heval⟩ := Prod.mk.inj hrest
  obtain ⟨⟨x, w'⟩, heval⟩ := Option.isSome_iff_exists.mp heval
  have he := @eval_of_evalWith _ _ _ _ _ (fun _ _ => True) _ _
    (fun _ _ _ => trivial) _ _ _ _ _ heval
  have hreach : Reach (serialCompactions (· == 9))
      (Config.idle (World.start Sample.merchants)) c := by
    refine reach_of_replay? (fun _ _ _ _ h => call_of_keepsApart h) ?_ hc
    simp only [compactedRun, List.forall_mem_append, Sample.admits_ingest,
      Sample.admits_fetch]
    exact ⟨⟨⟨⟨.ingestEvent _, ⟨.processBatch _ trivial, Sample.admits_store⟩,
      Sample.admits_close⟩, Sample.admits_compact ⟨_, rfl⟩⟩, .ingestEvent _⟩,
      ⟨.processBatch _ trivial, Sample.admits_store⟩, Sample.admits_close⟩
  obtain ⟨hdays, hkept⟩ := day_rows_rederived Sample.merchants hreach
  exact ⟨c, hreach, hget, hdays _, x, w', he,
    hkept 9 _ x w' (idle_of_no_entries hidle 9) he _⟩

end AnalyticsPipeline
