import AnalyticsPipeline.Metatheory.DayRows
import AnalyticsPipeline.Metatheory.SerialHistory

/-!
# Compaction under interference

A compaction reads its snapshot and then overwrites day rows one after another.
While nobody commits a day row that disagrees with its hours, a row it has
overwritten stays right: its lock keeps the day row as it is, and the hour rows
cannot change without it. So all that matters is whether a row is right when it
is written; the hooks say how a particular argument knows.
-/

namespace AnalyticsPipeline

open Framework

/-- What a compaction has written so far: no rollup rows but day rows, at the
keys in `K` only such that their hours add up to, and no events. -/
structure Compacting (K : RollupKey → Prop) (db : Db) (tx : Tx) : Prop where
  isOpen : tx.aborted = false
  others : ∀ g k, g ≠ .day → (tx.writes.rollup g).get? k = none
  days : ∀ k row, K k → (tx.writes.rollup .day).get? k = some row →
    db.dayAggregate k = some row
  events : tx.writes.raw_events = [] ∧ tx.writes.event_idempotency = []

/-- What an argument about compactions tracks while one runs: the snapshot it
has read, and why the rows it writes are right. -/
structure CompactionHooks (pol : ServicePolicy) (S : History → Prop) (i : ℕ)
    (K : RollupKey → Prop) where
  snapshot : List RollupEntry → History → Prop
  agrees : ∀ {h : History} {k : RollupKey}, S h → K k → h.db.DayAgrees k
  stable : ∀ {rows : List RollupEntry} {w w' : World} {tx : Tx},
    w.txs.get? i = some tx → Interferes pol S i w w' → Inv S w' →
    snapshot rows w.toHistory → snapshot rows w'.toHistory
  aggregate : ∀ {rows : List RollupEntry} {h : History}, S h →
    (∀ entry ∈ rows, h.db.dayAggregate entry.1 = some entry.2) →
    snapshot rows h
  fresh : ∀ {rows : List RollupEntry} {w : World} {entry : RollupEntry}
    {ch : Choice}, Inv S w → snapshot rows w.toHistory → entry ∈ rows →
    pol.call w i (.sql (.overwriteDayRow entry)) ch → K entry.1 →
    w.db.dayAggregate entry.1 = some entry.2
  commit : ∀ {w : World} {tx : Tx}, Inv S w → Compacting K w.db tx →
    S (w.toHistory.install tx.writes [])

section Compacting

variable {K : RollupKey → Prop} {db : Db} {tx : Tx}

theorem Compacting.begin (K : RollupKey → Prop) (db : Db) (now : DateTime) :
    Compacting K db ⟨now, false, ∅⟩ :=
  ⟨rfl, fun _ _ _ => rfl, fun _ _ _ hrow => (by cases hrow), rfl, rfl⟩

/-- Writes without rollup rows and events. -/
theorem Compacting.overlay {ws : Db} (h : Compacting K db tx)
    (hrollup : ∀ g k, (ws.rollup g).get? k = none)
    (hevents : ws.raw_events = [] ∧ ws.event_idempotency = []) :
    Compacting K db { tx with writes := ws.overlay tx.writes } where
  isOpen := h.isOpen
  others := fun g k hg => by
    rw [Db.get?_overlay_rollup, hrollup, Option.none_or, h.others g k hg]
  days := fun k row hk hrow => by
    rw [Db.get?_overlay_rollup, hrollup, Option.none_or] at hrow
    exact h.days k row hk hrow
  events := by
    rw [Db.overlay_raw_events, Db.overlay_event_idempotency, h.events.1,
      h.events.2, hevents.1, hevents.2]
    exact ⟨rfl, rfl⟩

theorem Compacting.overwrite {entry : RollupEntry} (h : Compacting K db tx)
    (hentry : K entry.1 → db.dayAggregate entry.1 = some entry.2) :
    Compacting K db { tx with
      writes := (Stmt.rollupWrites .day ((∅ : RollupTable).set entry.1
        entry.2)).overlay tx.writes } where
  isOpen := h.isOpen
  others := fun g k hg => by
    rw [Db.get?_overlay_rollup, h.others g k hg, Option.or_none]
    simp [Stmt.rollupWrites, hg]
  days := fun k row hk hrow => by
    rw [Db.get?_overlay_rollup] at hrow
    simp only [Stmt.rollupWrites, if_true, Dict.get?_set, Dict.get?_empty]
      at hrow
    split at hrow
    · rename_i hkey
      subst hkey
      cases hrow
      exact hentry hk
    · exact h.days k row hk hrow
  events := by
    rw [Db.overlay_raw_events, Db.overlay_event_idempotency, h.events.1,
      h.events.2]
    exact ⟨rfl, rfl⟩

/-- Committing leaves the rows in agreement. -/
theorem Compacting.dayAgrees {k : RollupKey} (h : Compacting K db tx) (hk : K k)
    (hdb : db.DayAgrees k) : (tx.writes.overlay db).DayAgrees k := by
  have hhours : (tx.writes.overlay db).dayAggregate k = db.dayAggregate k :=
    dayAggregate_congr fun x _ => by
      rw [Db.get?_overlay_rollup, h.others _ _ (by simp), Option.none_or]
  rw [Db.DayAgrees, hhours, Db.get?_overlay_rollup]
  cases hrow : (tx.writes.rollup .day).get? k with
  | none => rw [Option.none_or, hdb]
  | some row => rw [Option.some_or, h.days k row hk hrow]

/-- The session is compacting. -/
def Ongoing (K : RollupKey → Prop) (i : ℕ) (w : World) : Prop :=
  ∃ tx, w.txs.get? i = some tx ∧ Compacting K w.db tx

end Compacting

section Rules

variable {pol : ServicePolicy} {S : History → Prop} {i : ℕ}
  {K : RollupKey → Prop} {w w' : World}

/-- **Locked rows stay right**: the lock holds the day row, the invariant ties
the hours to it. -/
theorem Compacting.frame (H : CompactionHooks pol S i K) {tx : Tx}
    (h : Compacting K w.db tx) (htx : w.txs.get? i = some tx)
    (hS : S w.toHistory) (hr : Interferes pol S i w w')
    (hS' : S w'.toHistory) : Compacting K w'.db tx where
  isOpen := h.isOpen
  others := h.others
  days := fun k row hk hrow => by
    have hlock : Lock.rollup .day k ∈ tx.writes.locks := by
      rw [Db.rollup_mem_locks, Dict.mem_keys_iff]
      exact ⟨row, hrow⟩
    have hday : (w'.db.rollup .day).get? k = (w.db.rollup .day).get? k :=
      (frame_of_rely hr).locked htx _ hlock
    calc w'.db.dayAggregate k = (w'.db.rollup .day).get? k :=
          (H.agrees hS' hk).symm
      _ = (w.db.rollup .day).get? k := hday
      _ = w.db.dayAggregate k := H.agrees hS hk
      _ = some row := h.days k row hk hrow
  events := h.events

theorem Ongoing.stable (H : CompactionHooks pol S i K) (h : Ongoing K i w)
    (hS : S w.toHistory) (hr : Interferes pol S i w w')
    (hS' : S w'.toHistory) : Ongoing K i w' := by
  obtain ⟨tx, htx, hcompact⟩ := h
  exact ⟨tx, (frame_of_rely hr).tx.trans htx,
    hcompact.frame H htx hS hr hS'⟩

/-- What a step of a compaction is to establish. -/
def Continues {α : Type} (K : RollupKey → Prop) (i : ℕ)
    (P : α → History → Prop) (r : Except PyError α) (w : World) : Prop :=
  match r with
  | .ok x => Ongoing K i w ∧ P x w.toHistory
  | .error _ => True

theorem wp_statement (H : CompactionHooks pol S i K) {s : Stmt}
    {P : s.Result → History → Prop} (h : Ongoing K i w) (hS : S w.toHistory)
    (hinsert : ∀ values, s ≠ .insertRawEvents values)
    (hfetch : ∀ last n, s ≠ .selectRawEventsAfter last n)
    (hstable : ∀ {x w w' tx}, w.txs.get? i = some tx →
      Interferes pol S i w w' → Inv S w' → P x w.toHistory → P x w'.toHistory)
    (hrun : ∀ w₁ tx ch x ws, Interferes pol S i w w₁ → Inv S w₁ →
      w₁.txs.get? i = some tx → Compacting K w₁.db tx →
      pol.call w₁ i (.sql s) ch →
      s.run tx.now ch (w₁.view tx) = some (.ok (x, ws)) →
      Compacting K w₁.db { tx with writes := ws.overlay tx.writes } ∧
        P x w₁.toHistory) :
    Wp pol (Inv S) i (execute s) (Continues K i P) w := by
  obtain ⟨tx, htx, hcompact⟩ := h
  rw [execute_eq]
  refine wp_sql htx hcompact.isOpen ?_ ?_ ?_
  · intro values hs
    exact absurd hs (hinsert values)
  · intro w₁ ch x ws hr hi htx₁ hpol hx _
    have hobserve : w₁.observe (w₁.view tx) s x = w₁ := by
      cases s with
      | selectRawEventsAfter last n => exact absurd rfl (hfetch last n)
      | _ => rfl
    rw [hobserve]
    obtain ⟨hnext, hP⟩ := hrun w₁ tx ch x ws hr hi htx₁
      (hcompact.frame H htx hS hr hi.2) hpol hx
    have hset : (w₁.setTx i { tx with writes := ws.overlay tx.writes }).txs.get?
        i = some { tx with writes := ws.overlay tx.writes } := by
      rw [World.get?_setTx, if_pos rfl]
    refine ⟨hi.2, wp_ret fun w₂ hr₂ hi₂ => ⟨?_, ?_⟩⟩
    · exact Ongoing.stable H ⟨_, hset, hnext⟩ hi.2 hr₂ hi₂.2
    · exact hstable hset hr₂ hi₂ hP
  · intro w₁ ch e _ _ _ _ _
    exact wp_ret fun _ _ _ => trivial

/-- A statement that only reads. -/
theorem wp_reading (H : CompactionHooks pol S i K) {s : Stmt} (h : Ongoing K i w)
    (hS : S w.toHistory) (hinsert : ∀ values, s ≠ .insertRawEvents values)
    (hfetch : ∀ last n, s ≠ .selectRawEventsAfter last n)
    (hread : ∀ now ch view x ws, s.run now ch view = some (.ok (x, ws)) →
      ws = ∅) :
    Wp pol (Inv S) i (execute s) (Continues K i fun _ _ => True) w := by
  refine wp_statement H h hS hinsert hfetch (fun _ _ _ _ => trivial) ?_
  intro w₁ tx ch x ws _ _ _ hcompact _ hx
  obtain rfl := hread _ _ _ _ _ hx
  rw [Db.empty_overlay]
  exact ⟨hcompact, trivial⟩

theorem wp_overwrites (H : CompactionHooks pol S i K) {all : List RollupEntry} :
    ∀ {rows : List RollupEntry} {w : World}, rows ⊆ all → Inv S w →
      Ongoing K i w → H.snapshot all w.toHistory →
      Wp pol (Inv S) i
        (rows.forM fun entry => execute (.overwriteDayRow entry))
        (Continues K i fun _ _ => True) w
  | [], w, _, hw, h, _ => wp_ret fun w' hr hi =>
      ⟨Ongoing.stable H h hw.2 hr hi.2, trivial⟩
  | entry :: rows, w, hsub, hw, h, hsnap => by
      obtain ⟨hentry, hrest⟩ := List.cons_subset.mp hsub
      refine Wp.bind (Wp.mono ?_ (wp_statement H (P := fun _ => H.snapshot all)
        h hw.2 (by simp) (by simp) (fun htx hr hi => H.stable htx hr hi) ?_)) hw
      · intro r w₁ hi₁ hpost
        cases r with
        | error e => exact wp_ret fun _ _ _ => trivial
        | ok x => exact wp_overwrites H hrest hi₁ hpost.1 hpost.2
      · intro w₁ tx ch x ws hr hi htx hcompact hpol hrun
        simp only [Stmt.run, Option.some.injEq, Except.ok.injEq,
          Prod.mk.injEq] at hrun
        obtain ⟨-, rfl⟩ := hrun
        obtain ⟨tx₀, htx₀, -⟩ := h
        have hsnap₁ := H.stable htx₀ hr hi hsnap
        exact ⟨hcompact.overwrite (H.fresh hi hsnap₁ hentry hpol), hsnap₁⟩

theorem wp_compactDayRollup (H : CompactionHooks pol S i K) {start : DateTime}
    {stop : ℤ} (hstart : start.truncDay = start)
    (hstop : stop = start.micros + DateTime.dayMicros) (hw : Inv S w) {tx : Tx}
    (htx : w.txs.get? i = some tx) (hcompact : Compacting K w.db tx)
    (hempty : tx.writes = ∅) :
    Wp pol (Inv S) i (NightlyCompaction.compactDayRollup start stop)
      (Continues K i fun _ _ => True) w := by
  subst hstop
  unfold NightlyCompaction.compactDayRollup
  refine Wp.bind (Wp.mono ?_ (wp_statement H (P := H.snapshot)
    ⟨tx, htx, hcompact⟩ hw.2 (by simp) (by simp)
    (fun htx hr hi => H.stable htx hr hi) ?_)) hw
  · intro r w₁ hi₁ hpost
    cases r with
    | error e => exact wp_ret fun _ _ _ => trivial
    | ok rows =>
        refine Wp.bind (Wp.mono ?_ (wp_overwrites H (List.Subset.refl rows) hi₁
          hpost.1 hpost.2)) hi₁
        intro r₂ w₂ hi₂ hpost₂
        cases r₂ with
        | error e => exact wp_ret fun _ _ _ => trivial
        | ok _ =>
            refine wp_reading H hpost₂.1 hi₂.2 (by simp) (by simp) ?_
            intro now ch view x ws hrun
            simp only [Stmt.run] at hrun
            repeat' split at hrun
            all_goals cases hrun
            rfl
  · intro w₁ tx₁ ch x ws hr hi htx₁ hcompact₁ _ hrun
    obtain rfl : tx = tx₁ :=
      Option.some.inj (((frame_of_rely hr).tx.trans htx).symm.trans htx₁)
    have hview : w₁.view tx = w₁.db := by
      rw [World.view, hempty, Db.empty_overlay]
    rw [hview] at hrun
    simp only [Stmt.run] at hrun
    split at hrun
    · split at hrun
      · rename_i keys hkeys
        cases hrun
        rw [Db.empty_overlay]
        exact ⟨hcompact₁, H.aggregate hi.2 fun entry hentry =>
          snapshot_eq_dayAggregate hstart hkeys hentry⟩
      · cases hrun
    · cases hrun

theorem wp_snapshots (H : CompactionHooks pol S i K) {start : DateTime} :
    ∀ {rows : List RankedRow} {w : World}, Inv S w → Ongoing K i w →
      Wp pol (Inv S) i
        (rows.forM fun row => do
          let id ← perform .uuid4
          execute (.upsertSnapshot ⟨"daily", start, row.merchant_id⟩
            ⟨id, row.rank, row.volume⟩))
        (Continues K i fun _ _ => True) w
  | [], w, hw, h => wp_ret fun w' hr hi =>
      ⟨Ongoing.stable H h hw.2 hr hi.2, trivial⟩
  | row :: rows, w, hw, h => by
      refine Wp.bind ?_ hw
      dsimp only
      rw [perform_bind]
      refine wp_uuid4 fun w₁ u hr₁ hi₁ _ => ?_
      have h₁ : Ongoing K i w₁ := Ongoing.stable H h hw.2 hr₁ hi₁.2
      have hissued : Ongoing K i { w₁ with issued := w₁.issued.set u i } := h₁
      refine Wp.mono ?_ (wp_statement H (P := fun _ _ => True) hissued hi₁.2 (by simp)
        (by simp) (fun _ _ _ _ => trivial) ?_)
      · intro r w₂ hi₂ hpost
        cases r with
        | error e => exact wp_ret fun _ _ _ => trivial
        | ok _ => exact wp_snapshots H hi₂ hpost.1
      · intro w₂ tx ch x ws _ _ _ hcompact _ hrun
        simp only [Stmt.run, Option.some.injEq, Except.ok.injEq,
          Prod.mk.injEq] at hrun
        obtain ⟨-, rfl⟩ := hrun
        exact ⟨hcompact.overlay (fun _ _ => rfl) ⟨rfl, rfl⟩, trivial⟩

theorem wp_snapshotLeaderboard (H : CompactionHooks pol S i K)
    {start : DateTime} {stop : ℤ} (hw : Inv S w) (h : Ongoing K i w) :
    Wp pol (Inv S) i (NightlyCompaction.snapshotLeaderboard start stop)
      (Continues K i fun _ _ => True) w := by
  unfold NightlyCompaction.snapshotLeaderboard
  refine Wp.bind (Wp.mono ?_ (wp_reading H h hw.2 (by simp) (by simp) ?_)) hw
  · intro r w₁ hi₁ hpost
    cases r with
    | error e => exact wp_ret fun _ _ _ => trivial
    | ok rows =>
        refine Wp.bind (Wp.mono ?_ (wp_snapshots H hi₁ hpost.1)) hi₁
        intro r₂ w₂ hi₂ hpost₂
        cases r₂ with
        | error e => exact wp_ret fun _ _ _ => trivial
        | ok _ =>
            exact wp_ret fun w₃ hr₃ hi₃ =>
              ⟨Ongoing.stable H hpost₂.1 hi₂.2 hr₃ hi₃.2, trivial⟩
  · intro now ch view x ws hrun
    simp only [Stmt.run] at hrun
    repeat' split at hrun
    all_goals cases hrun
    rfl

/-- **A compaction under interference**: it keeps the invariant, whatever the
other sessions do. -/
theorem wp_runCompaction (H : CompactionHooks pol S i K) (date : DateTime)
    (hidle : NoTx i w) :
    Wp pol (Inv S) i (NightlyCompaction.runCompaction date) (fun _ => NoTx i)
      w := by
  refine wp_sessionScope (R := fun _ _ => True) hidle ?_ ?_
  · intro w₁ t hr hi hnone
    have hi₁ : Inv S (w₁.setTx i ⟨t, false, ∅⟩) :=
      ⟨World.Effect.coherent (c := .begin) hi.1 (.begin t hnone) (by simp), hi.2⟩
    have htx : (w₁.setTx i ⟨t, false, ∅⟩).txs.get? i = some ⟨t, false, ∅⟩ := by
      rw [World.get?_setTx, if_pos rfl]
    dsimp only
    cases hend : NightlyCompaction.dayEnd date.truncDay with
    | error e => exact wp_ret fun _ _ _ => trivial
    | ok stop =>
        have hstop := NightlyCompaction.dayEnd_eq hend
        refine Wp.bind (Wp.mono ?_ (wp_compactDayRollup H rfl hstop hi₁ htx
          (Compacting.begin K _ t) rfl)) hi₁
        intro r₂ w₂ hi₂ hpost₂
        cases r₂ with
        | error e => exact wp_ret fun _ _ _ => trivial
        | ok _ =>
            refine Wp.bind (Wp.mono ?_ (wp_snapshotLeaderboard H hi₂ hpost₂.1))
              hi₂
            intro r₃ w₃ hi₃ hpost₃
            cases r₃ with
            | error e => exact wp_ret fun _ _ _ => trivial
            | ok _ =>
                obtain ⟨tx, htx₃, hcompact⟩ := hpost₃.1
                dsimp only
                rw [perform_bind]
                refine wp_commit htx₃ ?_ ?_
                · intro hab
                  exact absurd hab (by simp [hcompact.isOpen])
                · intro _ w₄ hr₄ hi₄ _ _
                  exact ⟨H.commit hi₄ (hcompact.frame H htx₃ hi₃.2 hr₄ hi₄.2),
                    wp_ret fun _ _ _ => trivial⟩
  · intro r w₁ w₂ _ _ hr _
    rw [NoTx, (frame_of_rely hr).tx, World.get?_dropTx, if_pos rfl]

end Rules

end AnalyticsPipeline
