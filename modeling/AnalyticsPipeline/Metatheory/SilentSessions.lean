import AnalyticsPipeline.Metatheory.Footprints

/-!
# Silent sessions

Requests that read and the nightly job write no events. So what the services keep
of the event tables, the whole system keeps (`sound_system`), and the laws of
ingestion hold in the middle of reads and compactions as well.
-/

namespace AnalyticsPipeline

open Framework

/-- A statement that writes no events. -/
theorem Stmt.Silent.writes {s : Stmt} (hs : s.Silent) {now : DateTime}
    {ch : Choice} {view : Db} {x : s.Result} {ws : Db}
    (h : s.run now ch view = some (.ok (x, ws))) :
    ws.raw_events = [] ∧ ws.event_idempotency = [] := by
  constructor
  · refine List.eq_nil_iff_forall_not_mem.mpr fun r hr => ?_
    have hlock := Stmt.run_locks h _ (Db.rawEvent_mem_locks.mpr ⟨r, hr, rfl, rfl⟩)
    cases s <;> simp [Stmt.locks, Stmt.Silent] at hlock hs
  · refine List.eq_nil_iff_forall_not_mem.mpr fun c hc => ?_
    have hlock := Stmt.run_locks h _ (Db.idempotency_mem_locks.mpr ⟨c, hc, rfl⟩)
    cases s <;> simp [Stmt.locks, Stmt.Silent] at hlock hs

/-- The session has no events to commit. -/
def Eventless (i : ℕ) (w : World) : Prop :=
  ∀ tx, w.txs.get? i = some tx →
    tx.writes.raw_events = [] ∧ tx.writes.event_idempotency = []

section Steps

variable {pol : ServicePolicy} {i : ℕ} {w w' : World}

theorem tx_of_other (h : OtherStep pol i w w') :
    w'.txs.get? i = w.txs.get? i := by
  match h with
  | .call hj _ he => exact (World.exec_effect he).tx_of_ne (Ne.symm hj)
  | .crash hj => exact World.Effect.tx_of_ne (c := .rollback) (Ne.symm hj) .drop
  | .env _ he => exact (handle_frame i he).tx

theorem eventless_of_eq (h : Eventless i w)
    (htx : w'.txs.get? i = w.txs.get? i) : Eventless i w' := by
  rw [Eventless, htx]
  exact h

/-- **A silent step** leaves the event tables alone. -/
theorem eventless_of_effect {c : Call} (hc : Served Stmt.Silent c)
    (hw : Eventless i w) (h : World.Effect i c w w') :
    Eventless i w' ∧ w'.db.raw_events = w.db.raw_events ∧
      w'.db.event_idempotency = w.db.event_idempotency := by
  have hset : ∀ {tx : Tx}, tx.writes.raw_events = [] →
      tx.writes.event_idempotency = [] → Eventless i (w.setTx i tx) := by
    intro tx hraw hidem tx' htx'
    rw [World.get?_setTx, if_pos rfl] at htx'
    cases htx'
    exact ⟨hraw, hidem⟩
  have hdrop : ∀ v : World, Eventless i (v.dropTx i) := by
    intro v tx htx
    rw [World.get?_dropTx, if_pos rfl] at htx
    cases htx
  cases h with
  | quiet r => exact ⟨eventless_of_eq hw rfl, rfl, rfl⟩
  | begin t _ => exact ⟨hset rfl rfl, rfl, rfl⟩
  | drop => exact ⟨hdrop w, rfl, rfl⟩
  | issue u _ _ => exact ⟨eventless_of_eq hw rfl, rfl, rfl⟩
  | abort tx _ => exact ⟨hset rfl rfl, rfl, rfl⟩
  | wrote tx s ch y ws hs htx _ hrun =>
      subst hs
      obtain ⟨hraw, hidem⟩ := hw tx htx
      obtain ⟨hraw', hidem'⟩ : ws.raw_events = [] ∧ ws.event_idempotency = [] := by
        cases hc with
        | sql hs => exact hs.writes hrun
      refine ⟨fun tx' htx' => ?_, ?_, ?_⟩
      · rw [World.get?_setTx, if_pos rfl] at htx'
        cases htx'
        simp [hraw, hidem, hraw', hidem']
      · show (w.observe (w.view tx) s y).db.raw_events = w.db.raw_events
        rw [World.observe_db]
      · show (w.observe (w.view tx) s y).db.event_idempotency = _
        rw [World.observe_db]
  | commit tx answers _ htx _ =>
      obtain ⟨hraw, hidem⟩ := hw tx htx
      refine ⟨hdrop _, ?_, ?_⟩
      · show (tx.writes.overlay w.db).raw_events = w.db.raw_events
        rw [Db.overlay_raw_events, hraw, List.append_nil]
      · show (tx.writes.overlay w.db).event_idempotency = w.db.event_idempotency
        rw [Db.overlay_event_idempotency, hidem, List.append_nil]

end Steps

/-! ## Soundness -/

section Sound

variable {pol : ServicePolicy} {P : Db → Prop}

/-- A silent session keeps what depends on the event tables alone. -/
theorem wp_silentScope {α : Type} {i : ℕ} {w : World} {body : Service α}
    (hsame : ∀ {db db' : Db}, P db →
      db'.event_idempotency = db.event_idempotency →
      db'.raw_events = db.raw_events → P db')
    (hidle : NoTx i w) (h : Prog.Only (Served Stmt.Silent) body) :
    Wp pol (Inv fun h => P h.db) i (sessionScope body) (fun _ => NoTx i) w := by
  refine wp_sessionScope (R := fun _ _ => True) hidle ?_ ?_
  · intro w₁ t _ hi _
    have hclean : Eventless i (w₁.setTx i ⟨t, false, ∅⟩) := by
      intro tx htx
      rw [World.get?_setTx, if_pos rfl] at htx
      cases htx
      exact ⟨rfl, rfl⟩
    refine Wp.mono (fun _ _ _ _ => trivial) (h.wp (J := Eventless i) ?_ ?_ hclean)
    · intro c ch x v v' hc hv hJ _ he
      have heffect := World.exec_effect he
      obtain ⟨hJ', hraw, hidem⟩ := eventless_of_effect hc hJ heffect
      have hcoh : Coherent v' := by
        refine heffect.coherent hv.1 ?_
        rintro values rfl
        cases hc with
        | sql hs => exact absurd hs id
      exact ⟨⟨hcoh, hsame hv.2 hidem hraw⟩, hJ'⟩
    · exact fun hstep hJ => eventless_of_eq hJ (tx_of_other hstep)
  · intro r w₁ w₂ _ _ hr _
    rw [NoTx, (frame_of_rely hr).tx, World.get?_dropTx, if_pos rfl]

/-- **The event tables of the whole system**: a property that new events keep
holds in every interleaving of all its sessions. -/
theorem sound_system {worker : Settings → Prop} {compacts : Prop}
    (hspawn : ∀ i p, pol.spawn i p → SystemProgram worker compacts p)
    (hnew : ∀ {db ws : Db} {now : DateTime}, P db → NewEvents db now ws →
      P (ws.overlay db))
    (hsame : ∀ {db db' : Db}, P db →
      db'.event_idempotency = db.event_idempotency →
      db'.raw_events = db.raw_events → P db') :
    Sound pol (Inv fun h => P h.db) NoTx := by
  refine sound_of_programs ?_ fun hw _ => hsame hw.2 rfl rfl
  intro i p w hp hw hidle
  rcases (hspawn i p hp).service_or_silent with hservice | ⟨α, body, rfl, hbody⟩
  · refine wp_serviceProgram ?_ ?_ ?_ hservice hw hidle
    · exact fun hw _ _ _ hp => hnew hw.2 hp.events
    · exact fun hs _ _ => hs
    · intro j v tx settings f new hv _ _ _ hb
      exact hsame hv.2 hb.event_idempotency hb.raw_events
  · exact wp_void hw (wp_silentScope hsame hidle hbody)

end Sound

end AnalyticsPipeline
