import AnalyticsPipeline.Framework.Monitor
import AnalyticsPipeline.Guarantees.DayRollups
import AnalyticsPipeline.Metatheory.Resources

/-!
# Compaction against the worker

A compaction overwrites the day rows with what it read in its snapshot. A batch
that commits between the snapshot and the overwrite has added to hour row and
day row alike; the overwrite takes back what it added to the day row. When the
hours of a row are still those of the snapshot, nothing is lost.
-/

namespace AnalyticsPipeline

open Framework

/-! ## What a compaction overwrites -/

/-- Every row the program overwrites is one of `rows` or, after it has read a
snapshot, one of the rows read there. -/
inductive Overwrites {α : Type} : List RollupEntry → Service α → Prop where
  | ret {rows : List RollupEntry} {r : Except PyError α} :
      Overwrites rows (.ret r)
  | read {rows : List RollupEntry} {start : DateTime}
      {k : Except DbError (List RollupEntry) → Service α} :
      start.truncDay = start → (∀ read, Overwrites read (k (.ok read))) →
      (∀ e, Overwrites [] (k (.error e))) →
      Overwrites rows (.call (.sql (.aggregateHours start.micros
        (start.micros + DateTime.dayMicros))) k)
  | write {rows : List RollupEntry} {entry : RollupEntry}
      {k : Except DbError Unit → Service α} : entry ∈ rows →
      (∀ x, Overwrites rows (k x)) →
      Overwrites rows (.call (.sql (.overwriteDayRow entry)) k)
  | other {rows : List RollupEntry} {c : Call} {k : c.Res → Service α} :
      (∀ s, c = .sql s → s.compacts = false) → (∀ x, Overwrites rows (k x)) →
      Overwrites rows (.call c k)

/-- Calls of the two phases of a compaction. -/
def Call.compactions : Call → ℕ
  | .sql s => if s.compacts then 1 else 0
  | _ => 0

theorem metered_compactions : Metered Call.compactions 0 where
  begin := rfl
  sql := fun s hs => by
    have hs' : s.compacts = false := by
      simpa using (Bool.and_eq_true_iff.mp hs).2
    simp [Call.compactions, hs']
  commit := fun _ => rfl
  rollback := rfl
  uuid4 := rfl
  now := rfl
  record := fun _ => rfl
  increments := fun _ _ => rfl
  heartbeat := fun _ _ => rfl

section Overwrites

variable {α β : Type} {rows rows' : List RollupEntry} {p : Service α}

theorem overwrites_of_within {n : ℕ}
    (h : Prog.Within Call.compactions n p) (hn : n = 0) : Overwrites rows p := by
  induction h with
  | ret => exact .ret
  | @call n c k _ ih =>
      obtain ⟨rfl, hc⟩ := Nat.add_eq_zero_iff.mp hn
      refine .other ?_ fun x => ih x rfl
      rintro s rfl
      by_contra hcompacts
      simp [Call.compactions, hcompacts] at hc

theorem Overwrites.bind {f : α → Service β} (h : Overwrites rows p)
    (hf : ∀ rows a, Overwrites rows (f a)) : Overwrites rows (p >>= f) := by
  induction h with
  | @ret rows r =>
      cases r with
      | ok a => exact hf rows a
      | error e => exact .ret
  | read hstart _ _ ih ih' => exact .read hstart ih ih'
  | write hentry _ ih => exact .write hentry ih
  | other hc _ ih => exact .other hc ih

theorem Overwrites.tryCatch {handler : PyError → Service α}
    (h : Overwrites rows p) (hh : ∀ rows e, Overwrites rows (handler e)) :
    Overwrites rows (tryCatch p handler) := by
  induction h with
  | @ret rows r =>
      cases r with
      | ok a => exact .ret
      | error e => exact hh rows e
  | read hstart _ _ ih ih' => exact .read hstart ih ih'
  | write hentry _ ih => exact .write hentry ih
  | other hc _ ih => exact .other hc ih

theorem overwrites_rows : ∀ {l : List RollupEntry}, l ⊆ rows →
    Overwrites rows (l.forM fun entry => execute (.overwriteDayRow entry))
  | [], _ => .ret
  | entry :: l, hl => by
      obtain ⟨hentry, hrest⟩ := List.cons_subset.mp hl
      refine Overwrites.write hentry fun x => ?_
      cases x with
      | ok _ => exact overwrites_rows hrest
      | error e => exact .ret

theorem overwrites_compactDayRollup {start : DateTime}
    (hstart : start.truncDay = start) :
    Overwrites rows (NightlyCompaction.compactDayRollup start
      (start.micros + DateTime.dayMicros)) := by
  rw [NightlyCompaction.compactDayRollup, execute_bind]
  refine .read hstart (fun read => ?_) fun e => .ret
  refine (overwrites_rows (List.Subset.refl read)).bind fun rows _ => ?_
  exact overwrites_of_within (metered_compactions.execute rfl) rfl

theorem within_snapshotLeaderboard {start : DateTime} {stop : ℤ} :
    Prog.Within Call.compactions 0
      (NightlyCompaction.snapshotLeaderboard start stop) := by
  refine Prog.Within.bind (m := 0) (n := 0) (metered_compactions.execute rfl)
    fun top => Prog.Within.bind (m := 0) (n := 0) ?_ fun _ => .ret
  induction top with
  | nil => exact .ret
  | cons row top ih =>
      refine Prog.Within.bind (m := 0) (n := 0) ?_ fun _ => ih
      exact .free rfl fun _ => metered_compactions.execute rfl

theorem overwrites_runCompaction (date : DateTime) :
    Overwrites rows (NightlyCompaction.runCompaction date) := by
  have hquiet : ∀ {γ : Type} {rows : List RollupEntry} {q : Service γ},
      Prog.Within Call.compactions 0 q → Overwrites rows q :=
    fun h => overwrites_of_within h rfl
  rw [NightlyCompaction.runCompaction, sessionScope, perform_bind]
  refine .other (by simp) fun _ => Overwrites.bind (.tryCatch ?_ ?_) ?_
  · dsimp only
    cases hend : NightlyCompaction.dayEnd date.truncDay with
    | error e => exact .ret
    | ok stop =>
        obtain rfl := NightlyCompaction.dayEnd_eq hend
        refine (overwrites_compactDayRollup rfl).bind fun rows _ => ?_
        refine (hquiet within_snapshotLeaderboard).bind fun rows _ => ?_
        exact .other (by simp) fun _ => .ret
  · exact fun rows e => .other (by simp) fun _ => .ret
  · exact fun rows x => .other (by simp) fun _ => .ret

end Overwrites

/-! ## The race -/

/-- The tables as the last snapshot of each session's compaction shows them. -/
abbrev Snapshots := ℕ → Option Db

def snapshots : Monitor services Snapshots
  | g, i, .sql (.aggregateHours _ _), w =>
      Function.update g i ((w.txs.get? i).map w.view)
  | g, _, _, _ => g

/-- Workers and compactions. -/
inductive RollupProgram : Service Unit → Prop where
  | processBatch (settings : Settings) :
      RollupProgram (RollupWorker.processBatch settings >>= fun _ => pure ())
  | runCompaction (date : DateTime) :
      RollupProgram (NightlyCompaction.runCompaction date >>= fun _ => pure ())

/-- Workers with any consumer ids and compactions of any dates, in any
interleaving, crashes included. -/
def rollupSessions : ServicePolicy where
  call := fun _ _ _ _ => True
  crash := fun _ _ => True
  spawn := fun _ p => RollupProgram p
  env := fun _ _ => True

/-- A compaction overwrites a row in `K` only while the hours of the row are
those of its snapshot. -/
def unchangedSinceSnapshot (K : RollupKey → Prop) (g : Snapshots) :
    ServicePolicy :=
  { rollupSessions with
    call := fun w i c _ =>
      match c with
      | .sql (.overwriteDayRow entry) => K entry.1 →
          ∀ db, g i = some db → db.SameHours w.db entry.1
      | _ => True }

/-- A compaction overwrites a row in `K` with what the hours add up to. -/
def overwritesRight (K : RollupKey → Prop) : ServicePolicy :=
  { rollupSessions with
    call := fun w _ c _ =>
      match c with
      | .sql (.overwriteDayRow entry) => K entry.1 →
          w.db.dayAggregate entry.1 = some entry.2
      | _ => True }

/-- A session knows that what it is to overwrite was in its snapshot. -/
def KnowsSnapshot (i : ℕ) (g : Snapshots) (p : Service Unit) : Prop :=
  ∃ rows, Overwrites rows p ∧ ∀ entry ∈ rows,
    ∃ db, g i = some db ∧ db.dayAggregate entry.1 = some entry.2

section Race

variable {K : RollupKey → Prop} {i : ℕ} {g : Snapshots} {w w' : World}

theorem knowsSnapshot_of_overwrites {p : Service Unit} (h : Overwrites [] p) :
    KnowsSnapshot i g p :=
  ⟨[], h, fun _ hentry => absurd hentry List.not_mem_nil⟩

/-- The rows read in a snapshot are what its hours add up to. -/
theorem snapshot_rows {start : DateTime} (hstart : start.truncDay = start)
    {ch : Choice} {rows : List RollupEntry}
    (he : World.exec i (.sql (.aggregateHours start.micros
      (start.micros + DateTime.dayMicros))) ch w = some (.ok rows, w')) :
    ∃ tx, w.txs.get? i = some tx ∧ ∀ entry ∈ rows,
      (w.view tx).dayAggregate entry.1 = some entry.2 := by
  have he' : w.execSql i (.aggregateHours start.micros
      (start.micros + DateTime.dayMicros)) ch = some (.ok rows, w') := by
    cases ch <;> exact he
  rcases World.execSql_eq_some he' with
    ⟨-, herr, -⟩ | ⟨tx, htx, -, -, ⟨e, -, herr, -⟩ | ⟨y, ws, hrun, hy, -⟩⟩
  · cases herr
  · cases herr
  · cases hy
    refine ⟨tx, htx, fun entry hentry => ?_⟩
    simp only [Stmt.run] at hrun
    split at hrun
    · split at hrun
      · rename_i keys hkeys
        cases hrun
        exact snapshot_eq_dayAggregate hstart hkeys hentry
      · cases hrun
    · cases hrun

theorem knows_snapshots (K : RollupKey → Prop) :
    Knows snapshots (unchangedSinceSnapshot K) (overwritesRight K)
      KnowsSnapshot where
  ret := knowsSnapshot_of_overwrites .ret
  spawn := by
    rintro g i p (⟨settings⟩ | ⟨date⟩)
    · refine ⟨knowsSnapshot_of_overwrites ?_, .processBatch settings⟩
      exact overwrites_of_within (Prog.Within.bind (m := 0) (n := 0)
        (metered_compactions.processBatch settings) fun _ => .ret) rfl
    · refine ⟨knowsSnapshot_of_overwrites ?_, .runCompaction date⟩
      exact (overwrites_runCompaction date).bind fun _ _ => .ret
  crash := fun _ => trivial
  env := fun _ => trivial
  call := by
    intro g i c k w ch x w' ⟨rows, hrows, hread⟩ hpol he
    -- the one statement that reads the hours, an overwrite, or neither
    cases hrows with
    | @read _ start k hstart hok herr =>
        refine ⟨trivial, ?_⟩
        cases x with
        | error e => exact knowsSnapshot_of_overwrites (herr e)
        | ok read =>
            obtain ⟨tx, htx, hentries⟩ := snapshot_rows hstart he
            refine ⟨read, hok read, fun entry hentry => ⟨w.view tx, ?_,
              hentries entry hentry⟩⟩
            simp only [snapshots, Function.update_self, htx, Option.map_some]
    | @write _ entry k hentry hk =>
        refine ⟨fun hkey => ?_, rows, hk x, hread⟩
        obtain ⟨db, hdb, haggregate⟩ := hread entry hentry
        rw [← haggregate]
        exact (dayAggregate_congr (hpol hkey db hdb)).symm
    | other hc hk =>
        cases c with
        | sql s =>
            have hs := hc s rfl
            cases s <;> first
              | exact ⟨trivial, rows, hk x, hread⟩
              | cases hs
        | _ => exact ⟨trivial, rows, hk x, hread⟩
  other := by
    rintro g i j c w p hij ⟨rows, hrows, hread⟩
    refine ⟨rows, hrows, fun entry hentry => ?_⟩
    obtain ⟨db, hdb, haggregate⟩ := hread entry hentry
    refine ⟨db, ?_, haggregate⟩
    unfold snapshots
    split
    · rw [Function.update_of_ne hij, hdb]
    · exact hdb

/-- Where the overwritten rows are right, nothing needs to be remembered. -/
def raceHooks (K : RollupKey → Prop) (i : ℕ) :
    CompactionHooks (overwritesRight K) (fun h => ∀ k, K k → h.db.DayAgrees k)
      i K where
  snapshot := fun _ _ => True
  agrees := fun hdays hk => hdays _ hk
  stable := fun _ _ _ _ => trivial
  aggregate := fun _ _ => trivial
  fresh := fun _ _ _ hpol hk => hpol hk
  commit := fun hw hc k hk => hc.dayAgrees hk (hw.2 k hk)

theorem sound_overwritesRight (K : RollupKey → Prop) :
    Sound (overwritesRight K) (Inv fun h => ∀ k, K k → h.db.DayAgrees k)
      NoTx := by
  refine sound_of_programs ?_ fun hw _ k hk => ?_
  · intro i p w hp hw hidle
    cases hp with
    | processBatch settings =>
        refine wp_void hw (wp_processBatch (@plainHooks _ _ (fun _ => True)
          ?_ ?_ _ trivial i) hw trivial hidle)
        · exact fun hdays _ _ => hdays
        · exact fun hw _ _ _ hb k hk => hb.dayAgrees (hw.2 k hk)
    | runCompaction date =>
        exact wp_void hw (wp_runCompaction (raceHooks K i) date hidle)
  · exact (hw.2 k hk).congr fun _ _ => rfl

end Race

/-- **Compaction loses no update** of a row as long as it overwrites the row
only while the hours are those of its snapshot. -/
theorem compaction_keeps_updates {w₀ : World} (hw : Coherent w₀)
    (hidle : ∀ i, w₀.txs.get? i = none) (K : RollupKey → Prop)
    (hdays : ∀ k, K k → w₀.db.DayAgrees k) {c : Config services PyError}
    {g : Snapshots} (hrun : Watched snapshots (unchangedSinceSnapshot K)
      (Config.idle w₀) (fun _ => none) c g) :
    ∀ k, K k → c.world.db.DayAgrees k := by
  obtain ⟨hreach, -⟩ := hrun.reach (knows_snapshots K) fun _ =>
    knowsSnapshot_of_overwrites .ret
  exact (reach_wp (sound_overwritesRight K)
    (good_idle (sound_overwritesRight K) ⟨hw, hdays⟩ hidle) hreach).1.2

/-! ## Two interleavings -/

/-- A payment has been processed, and a late one for the same hour ingested. -/
def lateArrival : Sample.Labels :=
  let e := Sample.payment 'a' 250
  Sample.ingest 0 e 1 3 ++
    (Sample.fetch 1 (Sample.worker "w") 4 [Sample.row e 1 3] ++
      Sample.store 1 ++ Sample.close 1 4) ++
    Sample.ingest 0 (Sample.payment 'b' 100) 2 6

/-- The batch of the late payment. -/
def lateBatch : Sample.Labels :=
  Sample.fetch 1 (Sample.worker "w") 7
    [Sample.row (Sample.payment 'a' 250) 1 3,
      Sample.row (Sample.payment 'b' 100) 2 6] ++
    Sample.store 1 ++ Sample.close 1 7

/-- The compaction takes its snapshot after the batch. -/
def snapshotAfter : Sample.Labels :=
  (Sample.compact 9 6 [Sample.dayKey]).take 2 ++ lateBatch ++
    (Sample.compact 9 6 [Sample.dayKey]).drop 2

/-- The batch falls between snapshot and overwrite. -/
def snapshotBefore : Sample.Labels :=
  (Sample.compact 9 6 [Sample.dayKey]).take 3 ++ lateBatch ++
    (Sample.compact 9 6 [Sample.dayKey]).drop 3

/-- `unchangedSinceSnapshot`, decided on whole hour tables. -/
def hoursUnchanged (g : Snapshots) (w : World) (i : ℕ) : Call → Bool
  | .sql (.overwriteDayRow _) =>
      match g i with
      | none => true
      | some db => (db.rollup .hour).entries = (w.db.rollup .hour).entries
  | _ => true

theorem call_of_hoursUnchanged {K : RollupKey → Prop} {g : Snapshots}
    {w : World} {i : ℕ} {c : Call} {ch : Choice}
    (h : hoursUnchanged g w i c = true) :
    (unchangedSinceSnapshot K g).call w i c ch := by
  unfold hoursUnchanged at h
  split at h
  · intro _ db hdb x _
    rw [hdb] at h
    rw [Dict.get?, Dict.get?, of_decide_eq_true h]
  · rename_i hno
    simp only [unchangedSinceSnapshot]

/-- The state of the late arrival, at rest. -/
theorem lateArrival_rederived {c : Config services PyError}
    (hc : (Config.idle (World.start Sample.merchants)).replay?
      (fun _ _ _ _ => true) lateArrival = some c) : Inv Rederived c.world := by
  refine @reach_rederived (fun _ => false) Sample.merchants _ ?_
  refine reach_of_replay? (fun w i s ch _ j _ hno => (by cases hno)) ?_ hc
  simp only [lateArrival, List.forall_mem_append, Sample.admits_ingest,
    Sample.admits_fetch]
  exact ⟨⟨.ingestEvent _, ⟨.processBatch _ trivial, Sample.admits_store⟩,
    Sample.admits_close⟩, .ingestEvent _⟩

theorem admits_lateBatch {pol : ServicePolicy}
    (h : pol.spawn 1 (RollupWorker.processBatch (Sample.worker "w") >>=
      fun _ => pure ())) : ∀ l ∈ lateBatch, pol.admits l := by
  simp only [lateBatch, List.forall_mem_append, Sample.admits_fetch]
  exact ⟨⟨h, Sample.admits_store⟩, Sample.admits_close⟩

/-- Replay a run after the late arrival. -/
def afterLateArrival {α : Type} (run : Config services PyError → Option α) :
    Option (Config services PyError × α) :=
  ((Config.idle (World.start Sample.merchants)).replay?
    (fun _ _ _ _ => true) lateArrival).bind fun c =>
      (run (Config.idle c.world)).map fun a => (c, a)

theorem compaction_keeps_updates_ordered : ∃ (w₀ : World)
    (c : Config services PyError) (g : Snapshots),
    Watched snapshots (unchangedSinceSnapshot (· = Sample.dayKey))
      (Config.idle w₀) (fun _ => none) c g ∧
    (w₀.db.rollup .day).get? Sample.dayKey =
      some ⟨1, 250, some 250, some 250⟩ ∧
    (c.world.db.rollup .day).get? Sample.dayKey =
      some ⟨2, 350, some 100, some 250⟩ ∧
    c.world.db.DayAgrees Sample.dayKey := by
  have hrun : (afterLateArrival fun c => watch? snapshots
      (fun g w i s _ => hoursUnchanged g w i s) c (fun _ => none)
        snapshotAfter).map (fun p =>
          ((p.1.world.db.rollup .day).get? Sample.dayKey,
            p.1.world.txs.entries.length,
            (p.2.1.world.db.rollup .day).get? Sample.dayKey)) =
      some (some ⟨1, 250, some 250, some 250⟩, 0,
        some ⟨2, 350, some 100, some 250⟩) := by decide +kernel
  obtain ⟨⟨c₀, c, g⟩, hc, hrows⟩ := Option.map_eq_some_iff.mp hrun
  obtain ⟨hfirst, hrest⟩ := Prod.mk.inj hrows
  obtain ⟨hidle, hlast⟩ := Prod.mk.inj hrest
  obtain ⟨c₁, hc₀, hwatch⟩ := Option.bind_eq_some_iff.mp hc
  obtain ⟨p, hwatch, hp⟩ := Option.map_eq_some_iff.mp hwatch
  cases hp
  obtain ⟨hw, -, hdays⟩ := lateArrival_rederived hc₀
  have hrace : Watched snapshots (unchangedSinceSnapshot (· = Sample.dayKey))
      (Config.idle c₀.world) (fun _ => none) c g := by
    refine watched_of_watch? (fun _ _ _ _ _ h => call_of_hoursUnchanged h)
      (fun g => ?_) hwatch
    simp only [snapshotAfter, List.forall_mem_append]
    exact ⟨⟨Sample.admits_take 2 (Sample.admits_compact (.runCompaction _)),
      admits_lateBatch (.processBatch _)⟩,
      Sample.admits_drop 2 (Sample.admits_compact (.runCompaction _))⟩
  exact ⟨c₀.world, c, g, hrace, hfirst, hlast, compaction_keeps_updates hw
    (idle_of_no_entries hidle) _ (fun k _ => hdays k) hrace _ rfl⟩

/-- A batch that commits between snapshot and overwrite disappears from the day
row. -/
theorem compaction_overwrites_batch :
    ¬ ∀ (w₀ : World), Coherent w₀ → (∀ i, w₀.txs.get? i = none) →
      (∀ k, w₀.db.DayAgrees k) → ∀ c : Config services PyError,
      Reach rollupSessions (Config.idle w₀) c →
      (∀ i, c.world.txs.get? i = none) → ∀ k, c.world.db.DayAgrees k := by
  intro hall
  have hrun : (afterLateArrival fun c => c.replay? (fun _ _ _ _ => true)
      snapshotBefore).map (fun p => (p.1.world.txs.entries.length,
        p.2.world.txs.entries.length,
        (p.2.world.db.rollup .day).get? Sample.dayKey,
        p.2.world.db.dayAggregate Sample.dayKey)) =
      some (0, 0, some ⟨1, 250, some 250, some 250⟩,
        some ⟨2, 350, some 100, some 250⟩) := by decide +kernel
  obtain ⟨⟨c₀, c⟩, hc, hrows⟩ := Option.map_eq_some_iff.mp hrun
  obtain ⟨hidle₀, hrest⟩ := Prod.mk.inj hrows
  obtain ⟨hidle, hrest⟩ := Prod.mk.inj hrest
  obtain ⟨hday, haggregate⟩ := Prod.mk.inj hrest
  obtain ⟨c₁, hc₀, hreplay⟩ := Option.bind_eq_some_iff.mp hc
  obtain ⟨c₂, hreplay, hp⟩ := Option.map_eq_some_iff.mp hreplay
  cases hp
  obtain ⟨hw, -, hdays⟩ := lateArrival_rederived hc₀
  have hreach : Reach rollupSessions (Config.idle c₀.world) c := by
    refine reach_of_replay? (fun _ _ _ _ _ => trivial) ?_ hreplay
    simp only [snapshotBefore, List.forall_mem_append]
    exact ⟨⟨Sample.admits_take 3 (Sample.admits_compact (.runCompaction _)),
      admits_lateBatch (.processBatch _)⟩,
      Sample.admits_drop 3 (Sample.admits_compact (.runCompaction _))⟩
  have hagrees : (c.world.db.rollup .day).get? Sample.dayKey =
      c.world.db.dayAggregate Sample.dayKey :=
    hall c₀.world hw (idle_of_no_entries hidle₀) hdays c hreach
      (idle_of_no_entries hidle) Sample.dayKey
  rw [hday, haggregate] at hagrees
  exact absurd hagrees (by decide)

end AnalyticsPipeline
