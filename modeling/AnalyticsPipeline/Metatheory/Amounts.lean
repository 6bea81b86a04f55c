import AnalyticsPipeline.Metatheory.Resources
import Mathlib.Algebra.Order.BigOperators.Group.List

/-!
# Amounts

The schema of the request refuses negative amounts, so no statement of the
services stores one, and sums over more events are never smaller.
-/

namespace AnalyticsPipeline

open Framework

/-- No amount is negative. -/
def Credits (rows : List RawEvent) : Prop := ∀ r ∈ rows, 0 ≤ r.amount_cents

theorem Credits.sum_le {rows rows' : List RawEvent} (h : Credits rows')
    (hsub : rows.Sublist rows') :
    (rows.map fun r => r.amount_cents).sum ≤
      (rows'.map fun r => r.amount_cents).sum := by
  refine (hsub.map _).sum_le_sum fun x hx => ?_
  obtain ⟨r, hr, rfl⟩ := List.mem_map.mp hx
  exact h r hr

/-- Statements that store a negative amount. -/
def Call.debits : Call → ℕ
  | .sql s => if s.credits then 0 else 1
  | _ => 0

/-- No stored amount is negative, committed or not. -/
structure Credited (w : World) : Prop where
  raw_events : Credits w.db.raw_events
  pending : ∀ {i tx}, w.txs.get? i = some tx → Credits tx.writes.raw_events

section Amounts

variable {w w' : World} {i : ℕ}

theorem run_credits {now : DateTime} {ch : Choice} {view ws : Db} {s : Stmt}
    {x : s.Result} (hs : s.credits = true)
    (hrun : s.run now ch view = some (.ok (x, ws))) : Credits ws.raw_events := by
  intro r hr
  obtain ⟨values, rfl, -⟩ := Stmt.run_raw_events hrun hr
  obtain ⟨stored, hstored, rfl, -, rfl⟩ := Stmt.run_insertRawEvents.mp hrun
  obtain ⟨v, hv, rfl⟩ := List.mem_map.mp hr
  have hmem : v.amount_cents ∈ values.map (·.amount_cents) :=
    mapM_stored_amounts hstored ▸ List.mem_map_of_mem (f := (·.amount_cents)) hv
  obtain ⟨v₀, hv₀, hamount⟩ := List.mem_map.mp hmem
  have hnonneg := List.all_eq_true.mp hs v₀ hv₀
  rw [hamount] at hnonneg
  exact of_decide_eq_true hnonneg

theorem Credited.setTx (h : Credited w) {tx : Tx}
    (htx : Credits tx.writes.raw_events) : Credited (w.setTx i tx) := by
  refine ⟨h.raw_events, fun {j tx'} hj => ?_⟩
  rw [World.get?_setTx] at hj
  split at hj
  · cases hj
    exact htx
  · exact h.pending hj

theorem Credited.dropTx (h : Credited w) : Credited (w.dropTx i) := by
  refine ⟨h.raw_events, fun {j tx'} hj => ?_⟩
  rw [World.get?_dropTx] at hj
  split at hj
  · cases hj
  · exact h.pending hj

theorem Credited.exec {c : Call} {ch : Choice} {x : c.Res} (h : Credited w)
    (hc : c.debits = 0) (he : World.exec i c ch w = some (x, w')) :
    Credited w' := by
  cases World.exec_effect he with
  | quiet r => exact ⟨h.raw_events, h.pending⟩
  | begin t _ => exact h.setTx (List.forall_mem_nil _)
  | drop => exact h.dropTx
  | issue u _ _ => exact ⟨h.raw_events, h.pending⟩
  | abort tx _ => exact h.setTx (List.forall_mem_nil _)
  | wrote tx s ch y ws hsql htx _ hrun =>
      subst hsql
      have hs : s.credits = true := by
        by_contra hno
        simp [Call.debits, hno] at hc
      have hobserved : Credited (w.observe (w.view tx) s y) := by
        refine ⟨by simpa using h.raw_events, fun htx => ?_⟩
        rw [World.observe_txs] at htx
        exact h.pending htx
      refine hobserved.setTx fun r hr => ?_
      rcases List.mem_append.mp hr with hr | hr
      · exact h.pending htx r hr
      · exact run_credits hs hrun r hr
  | commit tx answers _ htx _ =>
      refine Credited.dropTx ⟨fun r hr => ?_, h.pending⟩
      rcases List.mem_append.mp hr with hr | hr
      · exact h.raw_events r hr
      · exact h.pending htx r hr

theorem metered_debits : Metered Call.debits 0 where
  begin := rfl
  sql := fun _ hs => if_pos (Bool.and_eq_true_iff.mp hs).1
  commit := fun _ => rfl
  rollback := rfl
  uuid4 := rfl
  now := rfl
  record := fun _ => rfl
  increments := fun _ _ => rfl
  heartbeat := fun _ _ => rfl

/-- Whatever the services did before, no amount is negative. -/
theorem reach_credited {worker : Settings → Prop} {pol : ServicePolicy}
    (hspawn : ∀ i p, pol.spawn i p → ServiceProgram worker p)
    {merchants : List Merchant} {c : Config services PyError}
    (hc : Reach pol (Config.idle (World.start merchants)) c) :
    Credited c.world := by
  refine @reach_free _ _ _ services Call.debits _ Credited
    (fun i p hp => metered_debits.serviceProgram (hspawn i p hp))
    (fun hcost hR he => hR.exec hcost he) (fun hR => hR.dropTx) ?_ _ ?_ _ hc
  · rintro (_ | key) w w' hR he
    · simp only [World.handle] at he
      split at he <;> cases he
      exact ⟨hR.raw_events, hR.pending⟩
    · cases he
      exact ⟨hR.raw_events, hR.pending⟩
  · refine ⟨List.forall_mem_nil _, fun htx => ?_⟩
    cases htx

end Amounts

end AnalyticsPipeline
