import AnalyticsPipeline.Metatheory.Resources

/-!
# Who sets the offset

Ingestion never executes `upsert_consumer_offset`. Where one session alone runs
the worker, no transaction of another one holds an offset row, so between two
calls of the worker the committed offsets stay as they are.
-/

namespace AnalyticsPipeline

open Framework

def Call.setsOffset : Call → ℕ
  | .sql (.upsertConsumerOffset _ _ _) => 1
  | _ => 0

theorem ingestCosts_setsOffset : IngestCosts Call.setsOffset 0 where
  begin := rfl
  statement := fun s hs => by
    cases s with
    | upsertConsumerOffset c u t => cases hs
    | _ => rfl
  commit := fun _ => rfl
  rollback := rfl
  uuid4 := rfl
  now := rfl
  record := fun _ => rfl

/-- The open transaction of the session has no offset row. -/
def NoOffset (i : ℕ) (w : World) : Prop :=
  ∀ tx, w.txs.get? i = some tx →
    ∀ consumer_id, Lock.offset consumer_id ∉ tx.writes.locks

section NoOffset

variable {i j : ℕ} {c : Call} {w w' : World}

theorem NoOffset.congr (h : NoOffset i w)
    (htx : w'.txs.get? i = w.txs.get? i) : NoOffset i w' :=
  fun tx hget => h tx (htx ▸ hget)

theorem NoOffset.setTx {tx : Tx}
    (h : ∀ consumer_id, Lock.offset consumer_id ∉ tx.writes.locks) :
    NoOffset i (w.setTx i tx) := by
  intro tx' hget
  rw [World.get?_setTx, if_pos rfl] at hget
  exact Option.some.inj hget ▸ h

theorem noOffset_dropTx : NoOffset i (w.dropTx i) := by
  intro tx hget
  rw [World.get?_dropTx, if_pos rfl] at hget
  cases hget

/-- Only `upsert_consumer_offset` locks an offset row. -/
theorem Stmt.offset_not_mem_locks {s : Stmt}
    (hs : (Call.sql s).setsOffset = 0) (consumer_id : String) :
    Lock.offset consumer_id ∉ s.locks := by
  cases s with
  | upsertConsumerOffset c u t => cases hs
  | _ => simp [Stmt.locks]

theorem World.Effect.noOffset (hc : c.setsOffset = 0) (hw : NoOffset i w)
    (h : World.Effect i c w w') : NoOffset i w' := by
  cases h with
  | quiet r => exact hw
  | begin t _ => exact .setTx (by simp)
  | drop => exact noOffset_dropTx
  | issue u _ _ => exact hw
  | abort tx _ => exact .setTx (by simp)
  | wrote tx s ch y ws hsql htx _ hrun =>
      subst hsql
      refine .setTx fun consumer_id hl => ?_
      rcases Db.mem_locks_overlay.mp hl with hl | hl
      · exact Stmt.offset_not_mem_locks hc consumer_id (Stmt.run_locks hrun _ hl)
      · exact hw tx htx consumer_id hl
  | commit tx answers _ _ _ => exact noOffset_dropTx

end NoOffset

/-! ## One session alone -/

/-- Sessions other than `i` neither hold an offset row nor are going to. -/
structure OffsetsOf (i : ℕ) (c : Config services PyError) : Prop where
  programs : ∀ j, j ≠ i → Prog.Within Call.setsOffset 0 (c.session j)
  pending : ∀ j, j ≠ i → NoOffset j c.world

section OffsetsOf

variable {i : ℕ} {c c' : Config services PyError} {pol : ServicePolicy}

theorem offsetsOf_idle {w : World} (h : ∀ j, w.txs.get? j = none) :
    OffsetsOf i (Config.idle w) where
  programs := fun _ _ => .ret
  pending := fun j _ tx hget => by
    rw [show (Config.idle w : Config services PyError).world = w from rfl, h j]
      at hget
    cases hget

theorem within_update {j k : ℕ} {p : Service Unit}
    (h : j ≠ i → Prog.Within Call.setsOffset 0 (c.session j))
    (hp : k ≠ i → Prog.Within Call.setsOffset 0 p) (hj : j ≠ i) :
    Prog.Within Call.setsOffset 0 (Function.update c.session k p j) := by
  by_cases hjk : j = k
  · subst hjk
    rw [Function.update_self]
    exact hp hj
  · rw [Function.update_of_ne hjk]
    exact h hj

/-- Every step keeps it, where the others only start programs that leave the
offset alone. -/
theorem OffsetsOf.next (h : OffsetsOf i c)
    (hspawn : ∀ j p, j ≠ i → pol.spawn j p → Prog.Within Call.setsOffset 0 p)
    {l : Label services PyError} (ha : pol.allows c l)
    (hn : c.next? l = some c') : OffsetsOf i c' := by
  cases l with
  | call k ch =>
      simp only [Config.next?] at hn
      cases hp : c.session k with
      | ret r => simp [hp] at hn
      | call s f =>
          rw [hp] at hn
          obtain ⟨⟨x, w'⟩, he, rfl⟩ := Option.map_eq_some_iff.mp hn
          have heffect := World.exec_effect he
          -- the other sessions call nothing that sets an offset
          have hfree : k ≠ i →
              s.setsOffset = 0 ∧ Prog.Within Call.setsOffset 0 (f x) := by
            intro hk
            obtain ⟨m, hm, hf⟩ := (hp ▸ h.programs k hk).of_call
            obtain ⟨rfl, hs⟩ := Nat.add_eq_zero_iff.mp hm.symm
            exact ⟨hs, hf x⟩
          refine ⟨fun j => within_update (h.programs j) fun hk => (hfree hk).2,
            fun j hj => ?_⟩
          by_cases hjk : j = k
          · subst hjk
            exact heffect.noOffset (hfree hj).1 (h.pending j hj)
          · exact (h.pending j hj).congr (heffect.tx_of_ne hjk)
  | crash k =>
      cases hn
      refine ⟨fun j => within_update (h.programs j) fun _ => .ret,
        fun j hj => ?_⟩
      by_cases hjk : j = k
      · subst hjk
        exact noOffset_dropTx
      · exact (h.pending j hj).congr
          (World.Effect.tx_of_ne (c := .rollback) hjk .drop)
  | spawn k p =>
      simp only [Config.next?] at hn
      split at hn
      · cases hn
        exact ⟨fun j => within_update (h.programs j) fun hk => hspawn k p hk ha,
          h.pending⟩
      · cases hn
  | env e =>
      obtain ⟨w', he, rfl⟩ := Option.map_eq_some_iff.mp hn
      exact ⟨h.programs, fun j hj =>
        (h.pending j hj).congr (handle_frame j he).tx⟩

end OffsetsOf

/-- Ingestion and the worker of session `i`: the others leave the offset
alone. -/
theorem ServiceProgram.within_setsOffset {i j : ℕ} {worker : Settings → Prop}
    (hj : j ≠ i) {p : Service Unit}
    (hp : ServiceProgram (fun s => j = i ∧ worker s) p) :
    Prog.Within Call.setsOffset 0 p := by
  cases hp with
  | processBatch settings hworker => exact absurd hworker.1 hj
  | ingestEvent payload =>
      exact Prog.Within.bind (m := 0) (n := 0)
        (ingestCosts_setsOffset.ingestEventRequest payload) fun _ => .ret
  | ingestBatch payload =>
      refine Prog.Within.bind (m := 0) (n := 0) ?_ fun _ => .ret
      have hbatch := ingestCosts_setsOffset.ingestBatchRequest payload
      rwa [Nat.mul_zero] at hbatch

end AnalyticsPipeline
