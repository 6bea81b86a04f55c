import AnalyticsPipeline.Metatheory.Footprints

/-!
# Growth

Without compaction the tables only grow: the logs are appended to, no rollup row
disappears, no count falls. An open transaction has rows that add to those it
found; nobody else can commit to them while it holds their locks, so they still
add to what is there when it commits.
-/

namespace AnalyticsPipeline

open Framework

/-! ## Rows -/

/-- The row adds to the old one, or to nothing. -/
def Extends (row : RollupRow) : Option RollupRow → Prop
  | none => 0 ≤ row.count
  | some old => old.Below row

theorem Extends.mono {old : Option RollupRow} {row row' : RollupRow}
    (h : Extends row old) (hrow : row.Below row') : Extends row' old := by
  cases old with
  | none => exact le_trans (show 0 ≤ row.count from h) hrow.count
  | some o => exact Summary.Below.trans h hrow

theorem get?_rollupWrites_self (g : RollupGranularity) (rows : RollupTable)
    (k : RollupKey) :
    ((Stmt.rollupWrites g rows).rollup g).get? k = rows.get? k := by
  simp [Stmt.rollupWrites]

/-- **What a statement writes to the rollups** adds to what it sees. -/
theorem Stmt.Grows.extends {s : Stmt} (hs : s.Grows) {now : DateTime}
    {ch : Choice} {view : Db} {x : s.Result} {ws : Db}
    (h : s.run now ch view = some (.ok (x, ws))) {g : RollupGranularity}
    {k : RollupKey} {row : RollupRow} (hrow : (ws.rollup g).get? k = some row) :
    Extends row ((view.rollup g).get? k) := by
  have hlock : .rollup g k ∈ ws.locks :=
    Db.rollup_mem_locks.mpr (Dict.mem_keys_iff.mpr ⟨row, hrow⟩)
  have hmem := Stmt.run_locks h _ hlock
  cases s <;> simp [Stmt.locks] at hmem
  case upsertRollup g' values =>
    obtain ⟨-, rfl⟩ := hmem
    simp only [Stmt.run] at h
    split at h
    · rename_i hnd
      cases h
      have hkeys : ((values.map (Stmt.absorb (view.rollup g'))).map
          Prod.fst).Nodup := by
        rw [List.map_map]
        exact hnd
      rw [get?_rollupWrites_self, Dict.get?_ofList_eq_some_iff hkeys] at hrow
      obtain ⟨v, hv, heq⟩ := List.mem_map.mp hrow
      cases heq
      cases hold : (view.rollup g').get? v.1 with
      | none => exact hs v hv
      | some old => exact Summary.below_add (hs v hv)
    · cases h
  case upsertRollupRow g' key delta amount =>
    obtain ⟨rfl, rfl⟩ := hmem
    cases h
    rw [get?_rollupWrites_self, Dict.get?_set, if_pos rfl] at hrow
    cases hrow
    cases hold : (view.rollup g).get? k with
    | none => exact hs
    | some old =>
        have hdelta : 0 ≤ delta := hs
        have hcount : old.count ≤ (Stmt.addRow (some old) delta amount).count :=
          show old.count ≤ old.count + delta by omega
        exact Summary.below_of_merge hcount rfl rfl
  case overwriteDayRow entry => exact absurd hs id

/-! ## Tables -/

/-- `b` may be what `a` has become without compaction. -/
structure Db.Grown (a b : Db) : Prop where
  merchants : a.merchants <+: b.merchants
  raw_events : a.raw_events <+: b.raw_events
  event_idempotency : a.event_idempotency <+: b.event_idempotency
  processed : a.processed_rollup_events <+: b.processed_rollup_events
  rows : ∀ g k row, (b.rollup g).get? k = some row →
    Extends row ((a.rollup g).get? k)
  kept : ∀ g k, (b.rollup g).get? k = none → (a.rollup g).get? k = none

namespace Db.Grown

variable {a b c : Db}

theorem refl (a : Db) : a.Grown a where
  merchants := List.prefix_rfl
  raw_events := List.prefix_rfl
  event_idempotency := List.prefix_rfl
  processed := List.prefix_rfl
  rows := fun g k row h => by
    rw [h]
    exact Summary.Below.refl row
  kept := fun _ _ h => h

theorem trans (h : a.Grown b) (h' : b.Grown c) : a.Grown c where
  merchants := h.merchants.trans h'.merchants
  raw_events := h.raw_events.trans h'.raw_events
  event_idempotency := h.event_idempotency.trans h'.event_idempotency
  processed := h.processed.trans h'.processed
  rows := fun g k row hrow => by
    have hext := h'.rows g k row hrow
    cases hb : (b.rollup g).get? k with
    | none =>
        rw [hb] at hext
        rw [h.kept g k hb]
        exact hext
    | some old =>
        rw [hb] at hext
        exact (h.rows g k old hb).mono hext
  kept := fun g k hnone => h.kept g k (h'.kept g k hnone)

/-- Rows that extend what is there. -/
theorem overlay {ws : Db} (h : ∀ g k row, (ws.rollup g).get? k = some row →
    Extends row ((a.rollup g).get? k)) : a.Grown (ws.overlay a) where
  merchants := List.prefix_append _ _
  raw_events := List.prefix_append _ _
  event_idempotency := List.prefix_append _ _
  processed := List.prefix_append _ _
  rows := fun g k row hrow => by
    rw [Db.get?_overlay_rollup] at hrow
    cases hws : (ws.rollup g).get? k with
    | some row' =>
        rw [hws, Option.some_or] at hrow
        cases hrow
        exact h g k row hws
    | none =>
        rw [hws, Option.none_or] at hrow
        rw [hrow]
        exact Summary.Below.refl row
  kept := fun g k hnone => by
    rw [Db.get?_overlay_rollup, Option.or_eq_none_iff] at hnone
    exact hnone.2

end Db.Grown

/-! ## Transactions -/

/-- The open transactions hold different locks, and the rows they will commit
extend what is committed. -/
structure Growing (w : World) : Prop where
  disjoint : ∀ {i j ti tj}, i ≠ j → w.txs.get? i = some ti →
    w.txs.get? j = some tj → ∀ l ∈ ti.writes.locks, l ∉ tj.writes.locks
  pending : ∀ {i tx}, w.txs.get? i = some tx → ∀ g k row,
    (tx.writes.rollup g).get? k = some row →
      Extends row ((w.db.rollup g).get? k)

namespace Growing

variable {w w' : World} {i j : ℕ} {c : Call}

theorem of_eq (hw : Growing w) (htxs : w'.txs = w.txs) (hdb : w'.db = w.db) :
    Growing w' := by
  constructor
  · intro i j ti tj hij hi hj
    rw [htxs] at hi hj
    exact hw.disjoint hij hi hj
  · intro i tx htx
    rw [htxs] at htx
    rw [hdb]
    exact hw.pending htx

theorem dropTx (hw : Growing w) (i : ℕ) : Growing (w.dropTx i) := by
  constructor
  · intro a b ta tb hab ha hb
    rw [World.get?_dropTx] at ha hb
    split at ha
    · cases ha
    · split at hb
      · cases hb
      · exact hw.disjoint hab ha hb
  · intro a ta ha
    rw [World.get?_dropTx] at ha
    split at ha
    · cases ha
    · exact hw.pending ha

theorem setTx (hw : Growing w) {tx : Tx}
    (hlocks : ∀ j tj, j ≠ i → w.txs.get? j = some tj →
      ∀ l ∈ tx.writes.locks, l ∉ tj.writes.locks)
    (hrows : ∀ g k row, (tx.writes.rollup g).get? k = some row →
      Extends row ((w.db.rollup g).get? k)) : Growing (w.setTx i tx) := by
  constructor
  · intro a b ta tb hab ha hb l hl hlb
    rw [World.get?_setTx] at ha hb
    split at ha
    · rename_i hai
      cases ha
      rw [if_neg (hai ▸ Ne.symm hab)] at hb
      exact hlocks b tb (hai ▸ Ne.symm hab) hb l hl hlb
    · rename_i hai
      split at hb
      · cases hb
        exact hlocks a ta hai ha l hlb hl
      · exact hw.disjoint hab ha hb l hl hlb
  · intro a ta ha
    rw [World.get?_setTx] at ha
    split at ha
    · cases ha
      exact hrows
    · exact hw.pending ha

/-- Committed rows are under no other session's lock. -/
theorem commit (hw : Growing w) {tx : Tx} (htx : w.txs.get? j = some tx)
    (answers : Answers) : Growing ((w.install tx.writes answers).dropTx j) := by
  constructor
  · intro a b ta tb hab ha hb
    rw [World.get?_dropTx] at ha hb
    split at ha
    · cases ha
    · split at hb
      · cases hb
      · exact hw.disjoint hab ha hb
  · intro a ta ha g k row hrow
    rw [World.get?_dropTx] at ha
    split at ha
    · cases ha
    · rename_i haj
      have hlock : .rollup g k ∈ ta.writes.locks :=
        Db.rollup_mem_locks.mpr (Dict.mem_keys_iff.mpr ⟨row, hrow⟩)
      have hsame : ((tx.writes.overlay w.db).rollup g).get? k =
          (w.db.rollup g).get? k :=
        Db.AgreesAt.overlay w.db (hw.disjoint haj ha htx _ hlock)
      show Extends row (((tx.writes.overlay w.db).rollup g).get? k)
      rw [hsame]
      exact hw.pending ha g k row hrow

/-- **A step of a session** whose statements only add. -/
theorem effect (hw : Growing w) (h : World.Effect j c w w')
    (hc : ∀ s, c = .sql s → s.Grows) : Growing w' ∧ w.db.Grown w'.db := by
  cases h with
  | quiet r => exact ⟨hw.of_eq rfl rfl, .refl _⟩
  | begin t _ => exact ⟨hw.setTx (by simp) (by simp), .refl _⟩
  | drop => exact ⟨hw.dropTx j, .refl _⟩
  | issue u _ _ => exact ⟨hw.of_eq rfl rfl, .refl _⟩
  | abort tx _ => exact ⟨hw.setTx (by simp) (by simp), .refl _⟩
  | wrote tx s ch y ws hs htx hfree hrun =>
      have hobserved : Growing (w.observe (w.view tx) s y) :=
        hw.of_eq World.observe_txs World.observe_db
      refine ⟨hobserved.setTx (fun b tb hbj hb l hl => ?_)
        fun g k row hrow => ?_, ?_⟩
      · rw [World.observe_txs] at hb
        rcases Db.mem_locks_overlay.mp hl with hl | hl
        · exact World.not_blocked_iff.mp hfree b tb hb hbj l
            (Stmt.run_locks hrun l hl)
        · exact hw.disjoint (Ne.symm hbj) htx hb l hl
      · rw [World.observe_db]
        have hpending := hw.pending htx g k
        rw [Db.get?_overlay_rollup] at hrow
        cases hws : (ws.rollup g).get? k with
        | none =>
            rw [hws, Option.none_or] at hrow
            exact hpending row hrow
        | some row' =>
            rw [hws, Option.some_or] at hrow
            cases hrow
            -- the statement saw the row of its own transaction, if there is one
            have hext := (hc s hs).extends hrun hws
            rw [World.view, Db.get?_overlay_rollup] at hext
            cases hown : (tx.writes.rollup g).get? k with
            | none =>
                rw [hown, Option.none_or] at hext
                exact hext
            | some own =>
                rw [hown, Option.some_or] at hext
                exact (hpending own hown).mono hext
      · have hsame : ((w.observe (w.view tx) s y).setTx j
            { tx with writes := ws.overlay tx.writes }).db = w.db :=
          World.observe_db
        rw [hsame]
        exact .refl _
  | commit tx answers _ htx _ =>
      exact ⟨hw.commit htx answers, .overlay (hw.pending htx)⟩

theorem handle (hw : Growing w) {e : WorldEvent} (h : w.handle e = some w') :
    Growing w' ∧ w.db.Grown w'.db := by
  cases e with
  | evict key =>
      cases h
      exact ⟨hw.of_eq rfl rfl, .refl _⟩
  | deleteOffset consumer =>
      simp only [World.handle] at h
      split at h
      · cases h
      · cases h
        exact ⟨⟨hw.disjoint, hw.pending⟩, ⟨List.prefix_rfl, List.prefix_rfl,
          List.prefix_rfl, List.prefix_rfl, (Db.Grown.refl w.db).rows,
          fun _ _ h => h⟩⟩

end Growing

end AnalyticsPipeline
