import AnalyticsPipeline.Metatheory.Locks

/-!
# Interference

What the rest of the system can do to one session between two of its calls.
Pending rows of different transactions have different keys and every pending
event has an id its own session drew (`Coherent`), so whatever the others do, a
session's own transaction is untouched, the rows under its locks stay as they
were, and the logs only grow (`Frame`).
-/

namespace AnalyticsPipeline

open Framework

structure Coherent (w : World) : Prop where
  disjoint : ∀ {i j ti tj}, i ≠ j → w.txs.get? i = some ti →
    w.txs.get? j = some tj → ∀ l ∈ ti.writes.locks, l ∉ tj.writes.locks
  pending_issued : ∀ {i tx}, w.txs.get? i = some tx →
    ∀ r ∈ tx.writes.raw_events, w.issued.get? r.id = some i
  raw_issued : ∀ r ∈ w.db.raw_events, w.issued.get? r.id ≠ none

/-- Transactions, ids and events are all it speaks of. -/
theorem Coherent.of_eq {w w' : World} (hw : Coherent w) (htxs : w'.txs = w.txs)
    (hissued : w'.issued = w.issued)
    (hraw : w'.db.raw_events = w.db.raw_events) : Coherent w' := by
  constructor
  · intro i j ti tj hij hi hj
    rw [htxs] at hi hj
    exact hw.disjoint hij hi hj
  · intro i tx htx
    rw [htxs] at htx
    rw [hissued]
    exact hw.pending_issued htx
  · rw [hissued, hraw]
    exact hw.raw_issued

/-- From `w` to `w'`, session `i` did nothing itself. -/
structure Frame (i : ℕ) (w w' : World) : Prop where
  tx : w'.txs.get? i = w.txs.get? i
  issued : ∀ {u j}, w.issued.get? u = some j → w'.issued.get? u = some j
  merchants : w.db.merchants <+: w'.db.merchants
  raw_events : w.db.raw_events <+: w'.db.raw_events
  event_idempotency : w.db.event_idempotency <+: w'.db.event_idempotency
  processed : w.db.processed_rollup_events <+: w'.db.processed_rollup_events
  fetches : w.fetches <+: w'.fetches
  /-- Nobody else commits an event under an id drawn by `i`. -/
  foreign : ∀ r ∈ w'.db.raw_events,
    r ∈ w.db.raw_events ∨ w.issued.get? r.id ≠ some i
  locked : ∀ {tx}, w.txs.get? i = some tx →
    ∀ l ∈ tx.writes.locks, w.db.AgreesAt w'.db l

namespace Frame

variable {i : ℕ} {w w' w'' : World}

theorem refl (i : ℕ) (w : World) : Frame i w w where
  tx := rfl
  issued := id
  merchants := List.prefix_rfl
  raw_events := List.prefix_rfl
  event_idempotency := List.prefix_rfl
  processed := List.prefix_rfl
  fetches := List.prefix_rfl
  foreign := fun _ hr => .inl hr
  locked := fun _ l _ => Db.AgreesAt.refl _ l

theorem trans (h : Frame i w w') (h' : Frame i w' w'') : Frame i w w'' where
  tx := h'.tx.trans h.tx
  issued := fun hu => h'.issued (h.issued hu)
  merchants := h.merchants.trans h'.merchants
  raw_events := h.raw_events.trans h'.raw_events
  event_idempotency := h.event_idempotency.trans h'.event_idempotency
  processed := h.processed.trans h'.processed
  fetches := h.fetches.trans h'.fetches
  foreign := fun r hr => by
    rcases h'.foreign r hr with hr' | hne
    · exact h.foreign r hr'
    · exact .inr fun hi => hne (h.issued hi)
  locked := fun htx l hl =>
    (h.locked htx l hl).trans (h'.locked (h.tx ▸ htx) l hl)

/-- Nothing but the shared parts that frames do not speak of has changed. -/
theorem of_eq (htx : w'.txs.get? i = w.txs.get? i) (hdb : w'.db = w.db)
    (hfetches : w.fetches <+: w'.fetches)
    (hissued : ∀ {u j}, w.issued.get? u = some j →
      w'.issued.get? u = some j) : Frame i w w' where
  tx := htx
  issued := hissued
  merchants := hdb ▸ List.prefix_rfl
  raw_events := hdb ▸ List.prefix_rfl
  event_idempotency := hdb ▸ List.prefix_rfl
  processed := hdb ▸ List.prefix_rfl
  fetches := hfetches
  foreign := fun _ hr => .inl (hdb ▸ hr)
  locked := fun _ l _ => hdb ▸ Db.AgreesAt.refl _ l

end Frame

/-! ## Transactions in the world -/

namespace World

variable {w : World} {i j : ℕ} {tx : Tx}

@[simp] theorem get?_setTx :
    (w.setTx i tx).txs.get? j = if j = i then some tx else w.txs.get? j := by
  simp [setTx]

@[simp] theorem get?_dropTx :
    (w.dropTx i).txs.get? j = if j = i then none else w.txs.get? j := by
  simp [dropTx]

@[simp] theorem setTx_toHistory : (w.setTx i tx).toHistory = w.toHistory := rfl

@[simp] theorem setTx_issued : (w.setTx i tx).issued = w.issued := rfl

@[simp] theorem setTx_redis : (w.setTx i tx).redis = w.redis := rfl

@[simp] theorem dropTx_toHistory : (w.dropTx i).toHistory = w.toHistory := rfl

@[simp] theorem dropTx_issued : (w.dropTx i).issued = w.issued := rfl

@[simp] theorem dropTx_redis : (w.dropTx i).redis = w.redis := rfl

@[simp] theorem observe_db {view : Db} {s : Stmt} {x : s.Result} :
    (w.observe view s x).db = w.db := by
  cases s <;> rfl

@[simp] theorem observe_answered {view : Db} {s : Stmt} {x : s.Result} :
    (w.observe view s x).answered = w.answered := by
  cases s <;> rfl

@[simp] theorem observe_txs {view : Db} {s : Stmt} {x : s.Result} :
    (w.observe view s x).txs = w.txs := by
  cases s <;> rfl

@[simp] theorem observe_issued {view : Db} {s : Stmt} {x : s.Result} :
    (w.observe view s x).issued = w.issued := by
  cases s <;> rfl

@[simp] theorem observe_redis {view : Db} {s : Stmt} {x : s.Result} :
    (w.observe view s x).redis = w.redis := by
  cases s <;> rfl

theorem fetches_observe {view : Db} {s : Stmt} {x : s.Result} :
    w.fetches <+: (w.observe view s x).fetches := by
  cases s <;> first | exact List.prefix_rfl | exact List.prefix_append _ _

theorem not_blocked_iff {keys : List Lock} : w.blocked i keys = false ↔
    ∀ j tx, w.txs.get? j = some tx → j ≠ i →
      ∀ l ∈ keys, l ∉ tx.writes.locks := by
  simp only [blocked, held, List.any_eq_false, Bool.and_eq_true,
    decide_eq_true_eq, not_and, List.any_eq_true, not_exists]
  constructor
  · intro h j tx htx hj l hl hmem
    exact h (j, tx) (Dict.get?_eq_some_iff.mp htx) hj l hl hmem
  · rintro h ⟨j, tx⟩ hmem hj l hl hlock
    exact h j tx (Dict.get?_eq_some_iff.mpr hmem) hj l hl hlock

theorem not_held_iff {keys : List Lock} :
    w.held (fun _ => true) keys = false ↔
      ∀ j tx, w.txs.get? j = some tx → ∀ l ∈ keys, l ∉ tx.writes.locks := by
  simp only [held, List.any_eq_false, Bool.true_and, decide_eq_true_eq,
    List.any_eq_true, not_exists, not_and]
  constructor
  · intro h j tx htx l hl hmem
    exact h (j, tx) (Dict.get?_eq_some_iff.mp htx) l hl hmem
  · rintro h ⟨j, tx⟩ hmem l hl hlock
    exact h j tx (Dict.get?_eq_some_iff.mpr hmem) l hl hlock

/-- A statement was executed, with this outcome. -/
theorem execSql_eq_some {s : Stmt} {ch : Choice}
    {x : Except DbError s.Result} {w' : World}
    (h : w.execSql i s ch = some (x, w')) :
    (w' = w ∧ x = .error .inFailedTransaction ∧
        ∀ tx, w.txs.get? i = some tx → tx.aborted = true) ∨
    ∃ tx, w.txs.get? i = some tx ∧ tx.aborted = false ∧
      w.blocked i s.locks = false ∧
      ((∃ e, s.run tx.now ch (w.view tx) = some (.error e) ∧ x = .error e ∧
          w' = w.setTx i { tx with aborted := true, writes := ∅ }) ∨
        ∃ y ws, s.run tx.now ch (w.view tx) = some (.ok (y, ws)) ∧
          x = .ok y ∧ w' = (w.observe (w.view tx) s y).setTx i
            { tx with writes := ws.overlay tx.writes }) := by
  simp only [execSql] at h
  cases htx : w.txs.get? i with
  | none =>
      simp only [htx, Option.some.injEq, Prod.mk.injEq] at h
      exact .inl ⟨h.2.symm, h.1.symm, by simp⟩
  | some tx =>
      rw [htx] at h
      simp only at h
      cases hab : tx.aborted with
      | true =>
          simp only [hab, if_true, Option.some.injEq, Prod.mk.injEq] at h
          refine .inl ⟨h.2.symm, h.1.symm, ?_⟩
          rintro tx' ⟨⟩
          exact hab
      | false =>
          rw [if_neg (by simp [hab])] at h
          refine .inr ⟨tx, rfl, hab, ?_⟩
          cases hb : w.blocked i s.locks with
          | true => simp [hb] at h
          | false =>
              rw [hb] at h
              simp only [Bool.false_eq_true, if_false] at h
              refine ⟨rfl, ?_⟩
              cases hr : s.run tx.now ch (w.view tx) with
              | none => simp [hr] at h
              | some r =>
                  rw [hr] at h
                  cases r with
                  | error e =>
                      simp only [Option.some.injEq, Prod.mk.injEq] at h
                      exact .inl ⟨e, rfl, h.1.symm, h.2.symm⟩
                  | ok r =>
                      simp only [Option.some.injEq, Prod.mk.injEq] at h
                      exact .inr ⟨r.1, r.2, rfl, h.1.symm, h.2.symm⟩

/-- Everything one call of session `j` can do to the world. -/
inductive Effect (j : ℕ) (c : Call) (w : World) : World → Prop where
  | quiet (r : Redis) : Effect j c w { w with redis := r }
  | begin (t : DateTime) : w.txs.get? j = none →
      Effect j c w (w.setTx j ⟨t, false, ∅⟩)
  | drop : Effect j c w (w.dropTx j)
  | issue (u : UUID) : c = .uuid4 → w.issued.get? u = none →
      Effect j c w { w with issued := w.issued.set u j }
  | abort (tx : Tx) : w.txs.get? j = some tx →
      Effect j c w (w.setTx j { tx with aborted := true, writes := ∅ })
  | wrote (tx : Tx) (s : Stmt) (ch : Choice) (y : s.Result) (ws : Db) :
      c = .sql s → w.txs.get? j = some tx → w.blocked j s.locks = false →
      s.run tx.now ch (w.view tx) = some (.ok (y, ws)) →
      Effect j c w ((w.observe (w.view tx) s y).setTx j
        { tx with writes := ws.overlay tx.writes })
  | commit (tx : Tx) (answers : Answers) :
      c = .commit answers → w.txs.get? j = some tx → tx.aborted = false →
      Effect j c w ((w.install tx.writes answers).dropTx j)

theorem exec_effect {c : Call} {ch : Choice} {x : c.Res} {w' : World}
    (h : World.exec j c ch w = some (x, w')) : Effect j c w w' := by
  cases c with
  | begin =>
      cases ch <;> simp only [World.exec, reduceCtorEq] at h
      cases htx : w.txs.get? j with
      | none =>
          simp only [htx, Option.some.injEq, Prod.mk.injEq, true_and] at h
          exact h ▸ .begin _ htx
      | some tx =>
          simp only [htx, Option.some.injEq, Prod.mk.injEq, true_and] at h
          exact h ▸ .quiet w.redis
  | sql s =>
      have h' : w.execSql j s ch = some (x, w') := by
        cases ch <;> exact h
      rcases execSql_eq_some h' with ⟨rfl, -⟩ | ⟨tx, htx, -, hb, hrun⟩
      · exact .quiet w'.redis
      · rcases hrun with ⟨e, -, -, rfl⟩ | ⟨y, ws, hrun, -, rfl⟩
        · exact .abort tx htx
        · exact .wrote tx s ch y ws rfl htx hb hrun
  | commit answers =>
      cases ch <;> simp only [World.exec, reduceCtorEq] at h
      simp only [Option.some.injEq, Prod.mk.injEq, true_and] at h
      subst h
      simp only [execCommit]
      cases htx : w.txs.get? j with
      | none => exact .quiet w.redis
      | some tx =>
          by_cases hab : tx.aborted = true
          · simp only [if_pos hab]
            exact .drop
          · simp only [if_neg hab]
            exact .commit tx answers rfl htx (Bool.not_eq_true _ ▸ hab)
  | rollback =>
      cases ch <;> simp only [World.exec, reduceCtorEq] at h
      simp only [Option.some.injEq, Prod.mk.injEq, true_and] at h
      exact h ▸ .drop
  | uuid4 =>
      cases ch with
      | uuid u =>
          simp only [World.exec] at h
          split at h
          · rename_i hu
            simp only [Option.some.injEq, Prod.mk.injEq] at h
            exact h.2 ▸ .issue u rfl hu
          · cases h
      | _ => simp [World.exec] at h
  | now =>
      cases ch <;> simp only [World.exec, reduceCtorEq] at h
      simp only [Option.some.injEq, Prod.mk.injEq] at h
      exact h.2 ▸ .quiet w.redis
  | monotonic =>
      cases ch <;> simp only [World.exec, reduceCtorEq] at h
      simp only [Option.some.injEq, Prod.mk.injEq] at h
      exact h.2 ▸ .quiet w.redis
  | redisGet key =>
      cases ch <;> simp only [World.exec, reduceCtorEq, Option.some.injEq,
        Prod.mk.injEq] at h
      all_goals exact h.2 ▸ .quiet w.redis
  | redisExists key =>
      cases ch <;> simp only [World.exec, reduceCtorEq, Option.some.injEq,
        Prod.mk.injEq] at h
      all_goals exact h.2 ▸ .quiet w.redis
  | redisRange key start stop =>
      cases ch <;> simp only [World.exec, reduceCtorEq, Option.some.injEq,
        Prod.mk.injEq] at h
      all_goals exact h.2 ▸ .quiet w.redis
  | redisWrite transaction ops =>
      cases ch <;> simp only [World.exec, reduceCtorEq, Option.some.injEq,
        Prod.mk.injEq] at h
      all_goals exact h.2 ▸ .quiet _

end World

section Coherent

variable {w : World} {i : ℕ} {tx : Tx}

theorem Coherent.setTx (hw : Coherent w)
    (hlocks : ∀ j tj, j ≠ i → w.txs.get? j = some tj →
      ∀ l ∈ tx.writes.locks, l ∉ tj.writes.locks)
    (hissued : ∀ r ∈ tx.writes.raw_events, w.issued.get? r.id = some i) :
    Coherent (w.setTx i tx) := by
  refine ⟨?_, ?_, hw.raw_issued⟩
  · intro a b ta tb hab ha hb l hl hlb
    rw [World.get?_setTx] at ha hb
    split at ha
    · rename_i hai
      cases ha
      rw [if_neg (hai ▸ Ne.symm hab)] at hb
      exact hlocks b tb (hai ▸ Ne.symm hab) hb l hl hlb
    · rename_i hai
      split at hb
      · cases hb
        exact hlocks a ta hai ha l hlb hl
      · exact hw.disjoint hab ha hb l hl hlb
  · intro a ta ha r hr
    rw [World.get?_setTx] at ha
    split at ha
    · rename_i hai
      cases ha
      rw [hai]
      exact hissued r hr
    · exact hw.pending_issued ha r hr

theorem Coherent.dropTx (hw : Coherent w) (i : ℕ) : Coherent (w.dropTx i) := by
  refine ⟨?_, ?_, hw.raw_issued⟩
  · intro a b ta tb hab ha hb
    rw [World.get?_dropTx] at ha hb
    split at ha
    · cases ha
    · split at hb
      · cases hb
      · exact hw.disjoint hab ha hb
  · intro a ta ha
    rw [World.get?_dropTx] at ha
    split at ha
    · cases ha
    · exact hw.pending_issued ha

end Coherent

theorem idle_of_no_entries {w : World} (h : w.txs.entries.length = 0) (i : ℕ) :
    w.txs.get? i = none := by
  rw [Dict.get?, List.length_eq_zero_iff.mp h]
  rfl

/-! ## Preservation -/

/-- Only `insertRawEvents` writes events, under the ids it is given. -/
theorem Stmt.run_raw_events {now : DateTime} {ch : Choice} {view : Db}
    {s : Stmt} {x : s.Result} {ws : Db}
    (h : s.run now ch view = some (.ok (x, ws))) {r : RawEvent}
    (hr : r ∈ ws.raw_events) :
    ∃ values, s = .insertRawEvents values ∧ ∃ v ∈ values, v.id = r.id := by
  have hlock := Stmt.run_locks h (.rawEvent r.id r.occurred_at)
    (Db.rawEvent_mem_locks.mpr ⟨r, hr, rfl, rfl⟩)
  cases s <;> simp [Stmt.locks] at hlock
  rename_i values
  obtain ⟨v, hv, hid, -⟩ := hlock
  exact ⟨values, rfl, v, hv, hid⟩

namespace World.Effect

variable {w w' : World} {i j : ℕ} {c : Call}

/-- The transactions of the other sessions are not touched. -/
theorem tx_of_ne (hij : i ≠ j) (h : World.Effect j c w w') :
    w'.txs.get? i = w.txs.get? i := by
  cases h with
  | quiet r => rfl
  | begin t _ => rw [get?_setTx, if_neg hij]
  | drop => rw [get?_dropTx, if_neg hij]
  | issue u _ _ => rfl
  | abort tx _ => rw [get?_setTx, if_neg hij]
  | wrote tx s ch y ws _ _ _ _ => rw [get?_setTx, if_neg hij, observe_txs]
  | commit tx answers _ _ _ =>
      rw [get?_dropTx, if_neg hij]
      rfl

theorem frame (hw : Coherent w) (hji : j ≠ i) (h : World.Effect j c w w') :
    Frame i w w' := by
  have hij : ¬ i = j := fun h => hji h.symm
  cases h with
  | quiet r => exact .of_eq rfl rfl List.prefix_rfl id
  | begin t _ => exact .of_eq (by simp [hij]) rfl List.prefix_rfl id
  | drop => exact .of_eq (by simp [hij]) rfl List.prefix_rfl id
  | issue u _ hu =>
      refine .of_eq rfl rfl List.prefix_rfl ?_
      intro v k hv
      rw [Dict.get?_set, if_neg]
      · exact hv
      · rintro rfl
        rw [hu] at hv
        cases hv
  | abort tx _ => exact .of_eq (by simp [hij]) rfl List.prefix_rfl id
  | wrote tx s ch y ws _ _ _ _ =>
      exact .of_eq (by simp [hij]) (by simp) fetches_observe (by simp)
  | commit tx answers _ htx _ =>
      refine ⟨by simp [hij, install], id, List.prefix_append _ _,
        List.prefix_append _ _, List.prefix_append _ _, List.prefix_append _ _,
        List.prefix_rfl, ?_, ?_⟩
      · intro r hr
        rcases List.mem_append.mp hr with hr | hr
        · exact .inl hr
        · refine .inr ?_
          rw [hw.pending_issued htx r hr]
          exact fun h => hji (Option.some.inj h)
      · intro tx' htx' l hl
        exact Db.AgreesAt.overlay w.db (hw.disjoint hij htx' htx l hl)

theorem coherent (hw : Coherent w) (h : World.Effect j c w w')
    (hraw : ∀ values, c = .sql (.insertRawEvents values) →
      ∀ v ∈ values, w.issued.get? v.id = some j) : Coherent w' := by
  cases h with
  | quiet r => exact hw.of_eq rfl rfl rfl
  | begin t _ => exact hw.setTx (by simp) (by simp)
  | drop => exact hw.dropTx j
  | issue u _ hu =>
      -- a fresh identifier is nobody else's
      have hmono : ∀ {v k}, w.issued.get? v = some k →
          (w.issued.set u j).get? v = some k := by
        intro v k hv
        rw [Dict.get?_set, if_neg]
        · exact hv
        · rintro rfl
          rw [hu] at hv
          cases hv
      refine ⟨hw.disjoint, fun h r hr => hmono (hw.pending_issued h r hr), ?_⟩
      intro r hr hnone
      obtain ⟨k, hk⟩ := Option.ne_none_iff_exists'.mp (hw.raw_issued r hr)
      rw [hmono hk] at hnone
      cases hnone
  | abort tx _ => exact hw.setTx (by simp) (by simp)
  | wrote tx s ch y ws hc htx hfree hrun =>
      have hobserved : Coherent (w.observe (w.view tx) s y) :=
        hw.of_eq observe_txs observe_issued (by rw [observe_db])
      refine hobserved.setTx (fun b tb hbj hb l hl => ?_) fun r hr => ?_
      · rw [observe_txs] at hb
        rcases Db.mem_locks_overlay.mp hl with hl | hl
        -- the statement would have waited for a key another transaction holds
        · exact not_blocked_iff.mp hfree b tb hb hbj l
            (Stmt.run_locks hrun l hl)
        · exact hw.disjoint (Ne.symm hbj) htx hb l hl
      · rw [observe_issued]
        rcases List.mem_append.mp hr with hr | hr
        · exact hw.pending_issued htx r hr
        · obtain ⟨values, rfl, v, hv, hid⟩ := Stmt.run_raw_events hrun hr
          rw [← hid]
          exact hraw values hc v hv
  | commit tx answers _ htx _ =>
      -- what the transaction adds to the log was issued to it
      have hinstalled : Coherent (w.install tx.writes answers) := by
        refine ⟨hw.disjoint, hw.pending_issued, fun r hr hnone => ?_⟩
        rcases List.mem_append.mp hr with hr | hr
        · exact hw.raw_issued r hr hnone
        · have hsome := hw.pending_issued htx r hr
          exact absurd (hsome.symm.trans hnone) (by simp)
      exact hinstalled.dropTx j

end World.Effect

theorem handle_frame {w w' : World} {e : WorldEvent} (i : ℕ)
    (h : w.handle e = some w') : Frame i w w' := by
  cases e with
  | evict key =>
      cases h
      exact .of_eq rfl rfl List.prefix_rfl id
  | deleteOffset c =>
      simp only [World.handle] at h
      split at h
      · cases h
      · rename_i hheld
        cases h
        refine ⟨rfl, id, List.prefix_rfl, List.prefix_rfl, List.prefix_rfl,
          List.prefix_rfl, List.prefix_rfl, fun r hr => .inl hr, ?_⟩
        intro tx htx l hl
        have hne := World.not_held_iff.mp (Bool.not_eq_true _ ▸ hheld) i tx htx
        cases l with
        | offset c' =>
            have hcc : ¬ c' = c := by
              rintro rfl
              exact hne _ (List.mem_singleton.mpr rfl) hl
            simp [Db.AgreesAt, hcc]
        | _ => simp [Db.AgreesAt]

theorem handle_coherent {w w' : World} {e : WorldEvent} (hw : Coherent w)
    (h : w.handle e = some w') : Coherent w' := by
  cases e with
  | evict key =>
      cases h
      exact hw.of_eq rfl rfl rfl
  | deleteOffset c =>
      simp only [World.handle] at h
      split at h
      · cases h
      · cases h
        exact hw.of_eq rfl rfl rfl

end AnalyticsPipeline
