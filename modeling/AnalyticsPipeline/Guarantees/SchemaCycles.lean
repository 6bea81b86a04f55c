import AnalyticsPipeline.Framework.Traversal
import AnalyticsPipeline.Guarantees.BatchAgreement
import AnalyticsPipeline.Guarantees.ColumnDomains
import AnalyticsPipeline.Guarantees.Migration
import AnalyticsPipeline.Guarantees.SharedKeyspace
import AnalyticsPipeline.Metatheory.SilentSessions

/-!
# Down to the first revision and up again

The way back to revision 0001 builds its unique index over whatever has been
stored since. After an upgrade no key is claimed, so a key from before it may be
stored once more; only if that happens at the very instant of the first row is
the way back closed. It takes the claims and the markers away and nothing else.
-/

namespace AnalyticsPipeline

open Framework

/-! ## Columns -/

/-- The row is as its columns hold it. -/
def RawEvent.Fits (row : RawEvent) : Prop :=
  row.toRawValues.supplied.stored = .ok row.toRawValues

theorem jsonColumn_eq_ok {m m' : Option Metadata} (h : jsonColumn m = .ok m') :
    m' = m := by
  unfold jsonColumn at h
  repeat' split at h
  all_goals cases h
  all_goals rfl

/-- An instant that is stored is in UTC, and stays as it is. -/
theorem supplied_timestamp (t : Option DateTime) :
    (t.map fun t => PyDateTime.aware (.utc t)).mapM timestamptzColumn =
      .ok t := by
  cases t with
  | none => rfl
  | some t =>
      rw [Option.map_some, Option.mapM_some, timestamptzColumn_utc]
      rfl

/-- What a `CHAR(n)` column holds has its length, and comes back as it is. -/
theorem charColumn_idem {n : ℕ} {s t : String} (h : charColumn n s = .ok t) :
    charColumn n t = .ok t := by
  unfold charColumn at h
  split at h
  · cases h
  rename_i hnul
  split at h
  · have ht : t.toList = s.toList.take n ++
        List.replicate (n - s.toList.length) ' ' := by
      cases h
      exact String.toList_ofList
    have hlength : t.toList.length = n := by
      rw [ht, List.length_append, List.length_take, List.length_replicate]
      omega
    have hnul' : ¬ hasNul t = true := by
      rw [hasNul_iff] at hnul ⊢
      rw [ht, List.mem_append, not_or]
      refine ⟨fun hmem => hnul (List.mem_of_mem_take hmem), fun hmem => ?_⟩
      exact absurd (List.eq_of_mem_replicate hmem) (by decide)
    rw [charColumn, if_neg hnul', List.drop_of_length_le hlength.le,
      List.all_nil, if_pos rfl, List.take_of_length_le hlength.le, hlength,
      Nat.sub_self, List.replicate_zero, List.append_nil, String.ofList_toList]
  · cases h

/-- Stored values are stored as they are. -/
theorem stored_idem {v : RawValues PyDateTime} {u : RawValues DateTime}
    (h : v.stored = .ok u) : u.supplied.stored = .ok u := by
  have hcols := RawValues.stored_eq_ok_iff.mp h
  have hamount := hcols.amount_cents
  have hkey := hcols.idempotency_key
  have hmetadata := hcols.metadata
  rw [← integerColumn_eq_ok hamount] at hamount
  rw [← textColumn_eq_ok hkey] at hkey
  rw [← jsonColumn_eq_ok hmetadata] at hmetadata
  exact RawValues.stored_eq_ok_iff.mpr ⟨rfl, rfl, rfl, hamount,
    charColumn_idem hcols.currency, hkey, rfl, supplied_timestamp _, hmetadata⟩

/-- Every row fits, committed or not. -/
structure Fitting (w : World) : Prop where
  raw_events : ∀ row ∈ w.db.raw_events, row.Fits
  pending : ∀ {i tx}, w.txs.get? i = some tx →
    ∀ row ∈ tx.writes.raw_events, row.Fits

section Fitting

variable {w w' : World} {i : ℕ}

theorem run_fits {now : DateTime} {ch : Choice} {view ws : Db} {s : Stmt}
    {x : s.Result} (hrun : s.run now ch view = some (.ok (x, ws))) :
    ∀ row ∈ ws.raw_events, row.Fits := by
  intro row hrow
  obtain ⟨values, rfl, -⟩ := Stmt.run_raw_events hrun hrow
  obtain ⟨stored, hstored, rfl, -, rfl⟩ := Stmt.run_insertRawEvents.mp hrun
  obtain ⟨v, hv, rfl⟩ := List.mem_map.mp hrow
  exact forall_of_mapM_ok (q := fun v => v.supplied.stored = .ok v)
    (fun h => stored_idem h) hstored v hv

theorem Fitting.setTx (h : Fitting w) {tx : Tx}
    (htx : ∀ row ∈ tx.writes.raw_events, row.Fits) : Fitting (w.setTx i tx) := by
  refine ⟨h.raw_events, fun {j tx'} hj => ?_⟩
  rw [World.get?_setTx] at hj
  split at hj
  · cases hj
    exact htx
  · exact h.pending hj

theorem Fitting.dropTx (h : Fitting w) (i : ℕ) : Fitting (w.dropTx i) := by
  refine ⟨h.raw_events, fun {j tx'} hj => ?_⟩
  rw [World.get?_dropTx] at hj
  split at hj
  · cases hj
  · exact h.pending hj

/-- Whatever the call, rows go through their columns. -/
theorem Fitting.exec {c : Call} {ch : Choice} {x : c.Res} (h : Fitting w)
    (he : World.exec i c ch w = some (x, w')) : Fitting w' := by
  cases World.exec_effect he with
  | quiet r => exact ⟨h.raw_events, h.pending⟩
  | begin t _ => exact h.setTx (List.forall_mem_nil _)
  | drop => exact h.dropTx i
  | issue u _ _ => exact ⟨h.raw_events, h.pending⟩
  | abort tx _ => exact h.setTx (List.forall_mem_nil _)
  | wrote tx s ch y ws _ htx _ hrun =>
      have hobserved : Fitting (w.observe (w.view tx) s y) := by
        refine ⟨by simpa using h.raw_events, fun htx => ?_⟩
        rw [World.observe_txs] at htx
        exact h.pending htx
      refine hobserved.setTx fun row hrow => ?_
      rcases List.mem_append.mp hrow with hold | hnew
      · exact h.pending htx row hold
      · exact run_fits hrun row hnew
  | commit tx answers _ htx _ =>
      have hinstalled : Fitting (w.install tx.writes answers) := by
        refine ⟨fun row hrow => ?_, h.pending⟩
        rcases List.mem_append.mp hrow with hold | hnew
        · exact h.raw_events row hold
        · exact h.pending htx row hnew
      exact hinstalled.dropTx i

theorem Fitting.handle {e : WorldEvent} (h : Fitting w)
    (he : w.handle e = some w') : Fitting w' := by
  cases e with
  | deleteOffset consumer =>
      simp only [World.handle] at he
      split at he <;> cases he
      exact ⟨h.raw_events, h.pending⟩
  | evict key =>
      cases he
      exact ⟨h.raw_events, h.pending⟩

end Fitting

/-! ## Rows since the upgrade -/

/-- The rows of the upgrade, and after them those whose keys have been claimed
since. -/
structure Resumed (last : InitialDb) (db : Db) (rows : List RawEvent) : Prop where
  raw_events : db.raw_events = last.raw_events ++ rows
  deduplicated : Deduplicated { db with raw_events := rows }
  keyed : db.Keyed

section Resumed

variable {last : InitialDb} {db ws : Db} {rows : List RawEvent} {now : DateTime}

theorem Resumed.overlay (h : Resumed last db rows) (hnew : NewEvents db now ws) :
    Resumed last (ws.overlay db) (rows ++ ws.raw_events) where
  raw_events := by
    rw [Db.overlay_raw_events, h.raw_events, List.append_assoc]
  deduplicated := by
    have hall := h.deduplicated.overlay hnew.deduplicated hnew.fresh_keys
      fun r hr r' hr' => hnew.fresh_ids r hr r' (by
        rw [h.raw_events]
        exact List.mem_append_right _ hr')
    exact hall.of_eq rfl rfl
  keyed := h.keyed.append hnew.deduplicated.ids hnew.fresh_ids

theorem Resumed.of_eq {db' : Db} (h : Resumed last db rows)
    (hidem : db'.event_idempotency = db.event_idempotency)
    (hraw : db'.raw_events = db.raw_events) : Resumed last db' rows where
  raw_events := hraw.trans h.raw_events
  deduplicated := h.deduplicated.of_eq hidem rfl
  keyed := by
    rw [Db.Keyed, hraw]
    exact h.keyed

theorem resumed_upgrade (last : InitialDb) :
    Resumed last (Migrations.upgrade last) [] where
  raw_events := (List.append_nil _).symm
  deduplicated := Deduplicated.empty.of_eq rfl rfl
  keyed := last.pk_raw_events

/-- A row of the upgrade is not among those after it. -/
theorem Resumed.not_mem_iff (h : Resumed last db rows) {r : RawEvent}
    (hr : r ∈ db.raw_events) : r ∉ last.raw_events ↔ r ∈ rows := by
  have hdisjoint := h.keyed.of_map
  rw [h.raw_events] at hr hdisjoint
  rcases List.mem_append.mp hr with hold | hnew
  · have hno := fun hmem => List.disjoint_of_nodup_append hdisjoint hold hmem
    exact ⟨fun hr => absurd hold hr, fun hmem => absurd hmem hno⟩
  · have hno := fun hmem => List.disjoint_of_nodup_append hdisjoint hmem hnew
    exact ⟨fun _ => hnew, fun _ => hno⟩

/-- **The index can be built** unless a row of the upgrade has been repeated with
its key and instant. -/
theorem Resumed.indexed_iff (h : Resumed last db rows) :
    (db.raw_events.map fun row => (row.idempotency_key, row.occurred_at)).Nodup ↔
      ∀ row ∈ last.raw_events, ∀ r ∈ db.raw_events, r ∉ last.raw_events →
        r.idempotency_key = row.idempotency_key →
          r.occurred_at ≠ row.occurred_at := by
  have hrows : (rows.map fun row => (row.idempotency_key, row.occurred_at)).Nodup := by
    refine List.Nodup.of_map Prod.fst ?_
    rw [List.map_map]
    exact h.deduplicated.nodup_raw_keys
  constructor
  · intro hnd row hrow r hr hnew hkey htime
    rw [h.raw_events, List.map_append] at hnd
    apply List.disjoint_of_nodup_append hnd (List.mem_map_of_mem hrow)
    rw [← hkey, ← htime]
    exact List.mem_map_of_mem (f := fun row : RawEvent =>
      (row.idempotency_key, row.occurred_at)) ((h.not_mem_iff hr).mp hnew)
  · intro hapart
    rw [h.raw_events, List.map_append, List.nodup_append]
    refine ⟨last.uq_raw_events_idempotency_key, hrows, ?_⟩
    rintro _ hold _ hnew rfl
    obtain ⟨row, hrow, rfl⟩ := List.mem_map.mp hold
    obtain ⟨r, hr, heq⟩ := List.mem_map.mp hnew
    have hmem : r ∈ db.raw_events := by
      rw [h.raw_events]
      exact List.mem_append_right _ hr
    exact hapart row hrow r hmem ((h.not_mem_iff hmem).mpr hr)
      (congrArg Prod.fst heq) (congrArg Prod.snd heq)

end Resumed

/-! ## Cycles -/

/-- A service started on the upgraded tables of `old`. Between its runs, with no
session at work, the schema may go down to revision 0001 and up again; `last`
are the tables the latest upgrade found. -/
inductive Maintained (old : InitialDb) : InitialDb → World → Prop where
  | start {w : World} : Upgraded old w → Maintained old old w
  | run {ok : World → ℕ → Call → Choice → Prop} {last : InitialDb} {w : World}
      {c : Config services PyError} : Maintained old last w →
      Reach (wholeSystem ok) (Config.idle w) c → Maintained old last c.world.settle
  | cycle {last last' : InitialDb} {w : World} (h : Constrained w.db.raw_events) :
      Maintained old last w → Migrations.downgrade w.db h = .ok last' →
      Maintained old last' { w with db := Migrations.upgrade last' }

/-- What holds between the runs. -/
structure Maintainable (old last : InitialDb) (w : World) : Prop where
  coherent : Coherent w
  idle : ∀ j, NoTx j w
  fitting : Fitting w
  resumed : ∃ rows, Resumed last w.db rows
  kept : old.raw_events <+: last.raw_events

section Cycles

variable {old last last' : InitialDb} {w : World}

/-- The way back takes the claims and the markers away, and nothing else. -/
theorem downgrade_eq_ok_iff {db : Db} {h : Constrained db.raw_events} :
    Migrations.downgrade db h = .ok last ↔
      (db.raw_events.map fun row => (row.idempotency_key, row.occurred_at)).Nodup ∧
      Migrations.upgrade last =
        { db with event_idempotency := [], processed_rollup_events := [] } := by
  unfold Migrations.downgrade Migrations.dropIdempotencyTable
  constructor
  · intro hdown
    split at hdown
    · rename_i huq
      cases hdown
      exact ⟨huq, rfl⟩
    · cases hdown
  · rintro ⟨huq, hup⟩
    refine (dif_pos huq).trans (congrArg Except.ok ?_)
    obtain ⟨merchants, raw_events, rollup, offsets, snapshots, _, _, _⟩ := last
    cases db
    cases hup
    rfl

theorem sound_resumed (ok : World → ℕ → Call → Choice → Prop) (last : InitialDb) :
    Sound (wholeSystem ok)
      (fun w => Inv (fun h => ∃ rows, Resumed last h.db rows) w ∧ Fitting w)
      NoTx := by
  have hsound : Sound (wholeSystem ok)
      (Inv fun h => ∃ rows, Resumed last h.db rows) NoTx := by
    have hspawn : ∀ i p, (wholeSystem ok).spawn i p →
        SystemProgram (fun _ => True) True p := fun _ _ h => h
    refine @sound_system _ (fun db => ∃ rows, Resumed last db rows) _ _ hspawn ?_ ?_
    · rintro db ws now ⟨rows, h⟩ hnew
      exact ⟨_, h.overlay hnew⟩
    · rintro db db' ⟨rows, h⟩ hidem hraw
      exact ⟨rows, h.of_eq hidem hraw⟩
  exact hsound.beside (fun _ he hw => hw.exec he) (fun hw => hw.dropTx _)
    fun he hw => hw.handle he

theorem maintainable (h : Maintained old last w) : Maintainable old last w := by
  induction h with
  | @start w hw =>
      have hdb := hw.db
      exact {
        coherent := ⟨by simp [hw.idle], by simp [hw.idle], by
          rw [hdb]
          exact hw.issued⟩
        idle := hw.idle
        fitting := ⟨by
          rw [hdb]
          exact old.columns, by simp [hw.idle]⟩
        resumed := ⟨[], by
          rw [hdb]
          exact resumed_upgrade old⟩
        kept := List.prefix_rfl }
  | @run ok last w c _ hc ih =>
      obtain ⟨⟨hcoh, hrows⟩, hfit⟩ := (reach_wp (sound_resumed ok last)
        (good_idle (sound_resumed ok last) ⟨⟨ih.coherent, ih.resumed⟩, ih.fitting⟩
          ih.idle) hc).1
      exact {
        coherent := ⟨by simp [World.settle], by simp [World.settle],
          hcoh.raw_issued⟩
        idle := fun _ => rfl
        fitting := ⟨hfit.raw_events, by simp [World.settle]⟩
        resumed := hrows
        kept := ih.kept }
  | @cycle last last' w h _ hdown ih =>
      have hraw : last'.raw_events = w.db.raw_events :=
        congrArg Db.raw_events (downgrade_eq_ok_iff.mp hdown).2
      obtain ⟨rows, hrows⟩ := ih.resumed
      exact {
        coherent := ⟨ih.coherent.disjoint, ih.coherent.pending_issued, fun r hr =>
          ih.coherent.raw_issued r (hraw ▸ hr)⟩
        idle := ih.idle
        fitting := ⟨last'.columns, ih.fitting.pending⟩
        resumed := ⟨[], resumed_upgrade last'⟩
        kept := by
          rw [hraw, hrows.raw_events]
          exact ih.kept.trans (List.prefix_append _ _) }

end Cycles

/-- **Schema cycles**: however often the service has run and its schema has gone
down to revision 0001 and up again, no event is lost. The way back is open if and
only if no row of the latest upgrade has been stored again under its key and at
its instant, and then it takes away the claims and the markers, and nothing
else. -/
theorem schema_cycles {old last : InitialDb} {w : World}
    (hw : Maintained old last w) :
    old.raw_events <+: w.db.raw_events ∧
    ∃ h : Constrained w.db.raw_events,
      ((∃ last', Migrations.downgrade w.db h = .ok last') ↔
        ∀ row ∈ last.raw_events, ∀ r ∈ w.db.raw_events, r ∉ last.raw_events →
          r.idempotency_key = row.idempotency_key →
            r.occurred_at ≠ row.occurred_at) ∧
      ∀ last', Migrations.downgrade w.db h = .ok last' →
        Migrations.upgrade last' =
          { w.db with event_idempotency := [], processed_rollup_events := [] } := by
  have hm := maintainable hw
  obtain ⟨rows, hrows⟩ := hm.resumed
  have hprefix : last.raw_events <+: w.db.raw_events := by
    rw [hrows.raw_events]
    exact List.prefix_append _ _
  refine ⟨hm.kept.trans hprefix, ⟨hm.fitting.raw_events, hrows.keyed⟩, ?_, ?_⟩
  · rw [← hrows.indexed_iff]
    constructor
    · rintro ⟨last', hdown⟩
      exact (downgrade_eq_ok_iff.mp hdown).1
    · intro huq
      exact ⟨_, dif_pos huq⟩
  · intro last' hdown
    exact (downgrade_eq_ok_iff.mp hdown).2

/-- The stored key comes again at the instant at which it was stored. -/
theorem schema_cycles_repeated : ∃ w h,
    Maintained (Sample.oneEvent "a" rfl) (Sample.oneEvent "a" rfl) w ∧
    ∀ last', Migrations.downgrade w.db h ≠ .ok last' := by
  have hrun : ((Config.idle (Sample.upgraded (Sample.oneEvent "a" rfl))).replay?
      (fun _ _ _ _ => true) (Sample.ingest 0 (Sample.payment 'a' 250) 2 3)).map
        (fun c => c.world.db.raw_events) =
      some [Sample.row (Sample.payment 'a' 250) 1 3,
        Sample.row (Sample.payment 'a' 250) 2 3] := by
    decide +kernel
  obtain ⟨c, hc, hrows⟩ := Option.map_eq_some_iff.mp hrun
  have hreach : Reach (wholeSystem fun _ _ _ _ => True)
      (Config.idle (Sample.upgraded (Sample.oneEvent "a" rfl))) c := by
    refine reach_of_replay? (fun _ _ _ _ _ => trivial) ?_ hc
    rw [Sample.admits_ingest]
    exact .service (.ingestEvent _)
  have hw := Maintained.run (.start (Sample.upgraded_oneEvent "a" rfl)) hreach
  obtain ⟨-, h, hiff, -⟩ := schema_cycles hw
  refine ⟨_, h, hw, fun last' hdown => ?_⟩
  have hsettled : c.world.settle.db.raw_events = _ := hrows
  apply hiff.mp ⟨last', hdown⟩ (Sample.row (Sample.payment 'a' 250) 1 3)
    (List.mem_singleton.mpr rfl) (Sample.row (Sample.payment 'a' 250) 2 3)
  · rw [hsettled]
    exact List.mem_cons_of_mem _ (List.mem_singleton.mpr rfl)
  · decide
  · rfl
  · rfl

end AnalyticsPipeline
