import AnalyticsPipeline.Metatheory.Amounts
import AnalyticsPipeline.Metatheory.MarkedEvents

/-!
# Between two programs

When the programs of the services run one after another, nobody has a
transaction open in between, and the tables are in order: keys name one event,
the rollups summarize the marked events, no amount is negative. Each program
keeps it so; what it does to the marked events and to Redis is said for each.
-/

namespace AnalyticsPipeline

open Framework

structure Quiescent (w : World) : Prop where
  coherent : Coherent w
  deduplicated : Deduplicated w.db
  aggregated : Aggregated w.db
  credits : Credits w.db.raw_events
  idle : ∀ j, w.txs.get? j = none

theorem quiescent_start (merchants : List Merchant) :
    Quiescent (World.start merchants) where
  coherent := coherent_start merchants
  deduplicated := deduplicated_start merchants
  aggregated := .start merchants
  credits := List.forall_mem_nil _
  idle := fun _ => rfl

/-- The programs of ingestion. -/
inductive IngestProgram : Service Unit → Prop where
  | event (payload : EventIngest) :
      IngestProgram (ingestEventRequest payload >>= fun _ => pure ())
  | batch (payload : BatchEventIngest) :
      IngestProgram (ingestBatchRequest payload >>= fun _ => pure ())

theorem IngestProgram.service {worker : Settings → Prop} {p : Service Unit}
    (hp : IngestProgram p) : ServiceProgram worker p := by
  cases hp with
  | event payload => exact .ingestEvent payload
  | batch payload => exact .ingestBatch payload

/-- Commands on other keys than that of the ingestion counter. -/
def Call.strays : Call → ℕ
  | .redisWrite _ ops =>
      if ops.all (·.key = "metrics:ingestion_rate") then 0 else 1
  | _ => 0

theorem ingestMetered_strays : IngestMetered Call.strays 0 where
  begin := rfl
  sql := fun _ _ => rfl
  commit := fun _ => rfl
  rollback := rfl
  uuid4 := rfl
  now := rfl
  record := fun _ => rfl

section Quiescent

variable {w w' : World} {i : ℕ} {ok : Call → Choice → Prop}

theorem Quiescent.withRedis (h : Quiescent w) (r : Redis) :
    Quiescent { w with redis := r } where
  coherent := h.coherent.of_eq rfl rfl rfl
  deduplicated := h.deduplicated
  aggregated := h.aggregated
  credits := h.credits
  idle := h.idle

theorem Quiescent.deleteOffset (h : Quiescent w) (c : String) :
    Quiescent { w with db :=
      { w.db with consumer_offsets := w.db.consumer_offsets.erase c } } where
  coherent := h.coherent.of_eq rfl rfl rfl
  deduplicated := h.deduplicated.of_eq rfl rfl
  aggregated := h.aggregated.deleteOffset (h := w.toHistory) c
  credits := h.credits
  idle := h.idle

/-- **Every program of the services** keeps the tables in order; a marker that
was not there names a worker among `worker`. -/
theorem Quiescent.service {worker : Settings → Prop} {p : Service Unit}
    {x : Except PyError Unit} (h : Quiescent w) (hp : ServiceProgram worker p)
    (he : Eval (M := services) ok i p w x w') :
    Quiescent w' ∧ ∀ m ∈ w'.db.processed_rollup_events,
      m ∈ w.db.processed_rollup_events ∨
        ∃ settings, worker settings ∧ m.consumer_id = settings.worker_id := by
  let marked : Db → Prop := fun db => ∀ m ∈ db.processed_rollup_events,
    m ∈ w.db.processed_rollup_events ∨
      ∃ settings, worker settings ∧ m.consumer_id = settings.worker_id
  have hwp := @wp_serviceProgram (solitary i)
    (fun g => Deduplicated g.db ∧ Aggregated g.db ∧ marked g.db) worker i p w
    (Ingests.prepares (fun _ hg => hg.1) ?_) ?_ ?_ hp
    ⟨h.coherent, h.deduplicated, h.aggregated, fun _ => .inl⟩ (h.idle i)
  · obtain ⟨hnone, hw', hd, hagg, hmarked⟩ := Wp.eval
      ⟨h.coherent, h.deduplicated, h.aggregated, fun _ => .inl⟩ hwp
      (fun _ _ _ _ => rfl) he
    have hfree := metered_debits.serviceProgram hp
    have hcredited : Credited w' := by
      refine Eval.free (fun hc _ hR hexec => hR.exec hc hexec) hfree rfl he
        ⟨h.credits, fun {j tx} htx => ?_⟩
      rw [h.idle j] at htx
      cases htx
    exact ⟨⟨hw', hd, hagg, hcredited.raw_events, idle_of_eval h.idle he hnone⟩, hmarked⟩
  · rintro j v tx answers ⟨-, hd, hagg, hmarked⟩ - - - hi
    refine ⟨hi.events.deduplicates hd, hagg.ingest hi,
      fun m hm => hmarked m ?_⟩
    rwa [← Aggregated.processed_ingest hi]
  · exact fun hg _ _ => hg
  · rintro j v tx settings f new ⟨-, hd, hagg, hmarked⟩ hworker - - hb
    refine ⟨hb.deduplicates hd, hagg.batch hd hb, fun m hm => ?_⟩
    · obtain ⟨ids, hmarks, -⟩ := hb.marks
      rcases List.mem_append.mp hm with hm | hm
      · exact hmarked m hm
      · rw [hmarks.written] at hm
        obtain ⟨u, -, rfl⟩ := List.mem_map.mp hm
        exact .inr ⟨settings, hworker, rfl⟩

theorem runBroken_get?_of_ne {r : Redis} {key : String} {transaction : Bool}
    {n : ℕ} {ops : List RedisOp} (hne : ∀ op ∈ ops, op.key ≠ key) :
    (r.runBroken transaction n ops).get? key = r.get? key := by
  rw [Redis.runBroken]
  split
  · split
    · rfl
    · exact runAll_get?_of_ne hne
  · exact runAll_get?_of_ne fun op hop => hne op (List.mem_of_mem_take hop)

/-- A call that does not stray leaves the other keys alone. -/
theorem exec_strays {key : String} (hkey : key ≠ "metrics:ingestion_rate")
    {c : Call} {ch : Choice} {x : c.Res} (hc : c.strays = 0)
    (he : World.exec i c ch w = some (x, w')) :
    w'.redis.get? key = w.redis.get? key := by
  by_cases hwrite : ∃ transaction ops, c = .redisWrite transaction ops
  · obtain ⟨transaction, ops, rfl⟩ := hwrite
    have hops : ∀ op ∈ ops, op.key ≠ key := by
      intro op hop heq
      have hall : ops.all (·.key = "metrics:ingestion_rate") = true := by
        by_contra hno
        simp [Call.strays, hno] at hc
      have hop' := List.all_eq_true.mp hall op hop
      exact hkey (heq.symm.trans (of_decide_eq_true hop'))
    cases ch <;> simp only [World.exec, reduceCtorEq, Option.some.injEq,
      Prod.mk.injEq] at he
    · exact he.2 ▸ runAll_get?_of_ne hops
    · exact he.2 ▸ runBroken_get?_of_ne hops
  · simp only [not_exists] at hwrite
    rw [exec_redis hwrite he]

/-- **Ingestion** marks no event and touches its counter only. -/
theorem Quiescent.ingest {p : Service Unit} {x : Except PyError Unit}
    (h : Quiescent w) (hp : IngestProgram p)
    (he : Eval (M := services) ok i p w x w') :
    w'.db.markedEvents = w.db.markedEvents ∧
      ∀ key, key ≠ "metrics:ingestion_rate" →
        w'.redis.get? key = w.redis.get? key := by
  have hstart : Inv (fun g => Deduplicated g.db ∧ Aggregated g.db ∧
      g.db.markedEvents = w.db.markedEvents) w :=
    ⟨h.coherent, h.deduplicated, h.aggregated, rfl⟩
  have hingest : Ingests (solitary i) fun g => Deduplicated g.db ∧
      Aggregated g.db ∧ g.db.markedEvents = w.db.markedEvents := by
    rintro j v tx answers ⟨-, hd, hagg, hmarked⟩ - - - hi
    exact ⟨hi.events.deduplicates hd, hagg.ingest hi,
      (hagg.markedEvents_ingest hi).trans hmarked⟩
  have hwp : Wp (solitary i) (Inv fun g => Deduplicated g.db ∧
      Aggregated g.db ∧ g.db.markedEvents = w.db.markedEvents) i p
      (fun _ => NoTx i) w := by
    cases hp with
    | event payload =>
        exact wp_void hstart (wp_ingestEventRequest payload
          (hingest.prepares fun _ hg => hg.1) (h.idle i))
    | batch payload =>
        exact wp_void hstart (wp_ingestBatchRequest payload
          (hingest.prepares fun _ hg => hg.1) (h.idle i))
  have hwithin : Prog.Within Call.strays 0 p := by
    cases hp with
    | event payload =>
        exact Prog.Within.bind (m := 0) (n := 0)
          (ingestMetered_strays.ingestEventRequest payload) fun _ => .ret
    | batch payload =>
        exact Prog.Within.bind (m := 0) (n := 0)
          (ingestMetered_strays.ingestBatchRequest payload) fun _ => .ret
  obtain ⟨-, -, -, -, hmarked⟩ := Wp.eval hstart hwp (fun _ _ _ _ => rfl) he
  refine ⟨hmarked, fun key hkey => ?_⟩
  exact Eval.free (R := fun v : World => v.redis.get? key = w.redis.get? key)
    (fun hc _ hR hexec => (exec_strays hkey hc hexec).trans hR) hwithin rfl he rfl

end Quiescent

end AnalyticsPipeline
