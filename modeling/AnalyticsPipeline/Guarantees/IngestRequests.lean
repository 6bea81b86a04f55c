import AnalyticsPipeline.Guarantees.BatchResponses
import AnalyticsPipeline.Guarantees.SharedKeyspace
import AnalyticsPipeline.Metatheory.AttendedIngest
import AnalyticsPipeline.Metatheory.SilentSessions

/-!
# Requests that ingest

Requests that ingest lock the keys they claim and lose keys to each other. Among
all others they are refused for an unknown merchant and for nothing else, as long
as their columns take the events and no free key is given twice; and what they
answer is in the tables once they have returned.
-/

namespace AnalyticsPipeline

open Framework

/-! ## Merchants -/

/-- No open transaction registers a merchant. -/
def NoMerchants (w : World) : Prop :=
  ∀ j tx, w.txs.get? j = some tx → tx.writes.merchants = []

theorem Stmt.merchants_of_run {s : Stmt} {now : DateTime} {ch : Choice} {view : Db}
    {x : s.Result} {ws : Db} (h : s.run now ch view = some (.ok (x, ws))) :
    ws.merchants = [] := by
  apply List.eq_nil_iff_forall_not_mem.mpr
  intro m hm
  have hlock := Stmt.run_locks h _ (Db.merchant_mem_locks.mpr ⟨m, hm, rfl⟩)
  cases s <;> simp [Stmt.locks] at hlock

section Steps

variable {i : ℕ} {w w' : World} {before : Db}

theorem NoMerchants.setTx (h : NoMerchants w) {tx : Tx}
    (htx : tx.writes.merchants = []) : NoMerchants (w.setTx i tx) := by
  intro j tx' htx'
  rw [World.get?_setTx] at htx'
  split at htx'
  · cases htx'
    exact htx
  · exact h j tx' htx'

theorem NoMerchants.dropTx (h : NoMerchants w) : NoMerchants (w.dropTx i) := by
  intro j tx htx
  rw [World.get?_dropTx] at htx
  split at htx
  · cases htx
  · exact h j tx htx

/-- **No call registers a merchant**, or loses an event or a claim. -/
theorem NoMerchants.effect {c : Call} (hw : NoMerchants w)
    (h : World.Effect i c w w') : NoMerchants w' ∧
      w'.db.merchants = w.db.merchants ∧ w.db.Precedes w'.db := by
  cases h with
  | quiet r => exact ⟨hw, rfl, .refl _⟩
  | begin t _ => exact ⟨hw.setTx rfl, rfl, .refl _⟩
  | drop => exact ⟨hw.dropTx, rfl, .refl _⟩
  | issue u _ _ => exact ⟨hw, rfl, .refl _⟩
  | abort tx _ => exact ⟨hw.setTx rfl, rfl, .refl _⟩
  | wrote tx s ch y ws _ htx _ hrun =>
      have hpending : NoMerchants (w.observe (w.view tx) s y) := by
        intro j tx' htx'
        rw [World.observe_txs] at htx'
        exact hw j tx' htx'
      refine ⟨hpending.setTx ?_, ?_, ?_⟩
      · show (ws.overlay tx.writes).merchants = []
        rw [Db.overlay_merchants, hw i tx htx, Stmt.merchants_of_run hrun]
        rfl
      · show (w.observe (w.view tx) s y).db.merchants = w.db.merchants
        rw [World.observe_db]
      · show w.db.Precedes (w.observe (w.view tx) s y).db
        rw [World.observe_db]
        exact .refl _
  | commit tx answers _ htx _ =>
      refine ⟨NoMerchants.dropTx (w := w.install tx.writes answers) hw, ?_,
        .install tx.writes⟩
      show (tx.writes.overlay w.db).merchants = w.db.merchants
      rw [Db.overlay_merchants, hw i tx htx, List.append_nil]

theorem db_of_handle {e : WorldEvent} (h : w.handle e = some w') :
    w'.txs = w.txs ∧ w'.db.merchants = w.db.merchants ∧
      w.db.Precedes w'.db := by
  cases e with
  | deleteOffset consumer =>
      simp only [World.handle] at h
      split at h
      · cases h
      · cases h
        exact ⟨rfl, rfl, fun _ hr => hr, fun _ hc => hc⟩
  | evict key =>
      cases h
      exact ⟨rfl, rfl, .refl _⟩

end Steps

theorem kept_merchants (ok : World → ℕ → Call → Choice → Prop) :
    Kept (wholeSystem ok) (Served fun _ => True)
      (fun w : World => w.redis.Typed ∧ NoMerchants w) where
  spawn := (kept_typed ok).spawn
  call := fun hc ha hw he =>
    ⟨(kept_typed ok).call hc ha hw.1 he, (hw.2.effect (World.exec_effect he)).1⟩
  crash := fun hw => ⟨hw.1, hw.2.dropTx⟩
  env := fun ha hw he => ⟨(kept_typed ok).env ha hw.1 he, by
    intro j tx htx
    rw [(db_of_handle he).1] at htx
    exact hw.2 j tx htx⟩

/-! ## In the whole system -/

section Requests

variable {ok : World → ℕ → Call → Choice → Prop} {i : ℕ} {w : World}
  {c c' : Config services PyError}

/-- The system as the calls of its runs find it. -/
abbrev merchantSystem (ok : World → ℕ → Call → Choice → Prop) : ServicePolicy :=
  (wholeSystem ok).keeping (Served fun _ => True)
    fun w : World => w.redis.Typed ∧ NoMerchants w

/-- The merchants of `before`, and at least its events. -/
def Onward (before : Db) (w : World) : Prop :=
  before.Precedes w.db ∧ w.db.merchants = before.merchants

theorem onward_of_call {before : Db} {s : Call} {ch : Choice} {x : s.Res}
    {w w' : World} (ha : (merchantSystem ok).call w i s ch)
    (he : World.exec i s ch w = some (x, w')) (hw : Onward before w) :
    Onward before w' := by
  obtain ⟨-, hmerchants, hprec⟩ := ha.2.1.2.effect (World.exec_effect he)
  exact ⟨hw.1.trans hprec, hmerchants.trans hw.2⟩

theorem inv_since (before : Db) : Inv (Since before) =
    fun w => Inv (fun h => Deduplicated h.db) w ∧ Onward before w := by
  funext w
  refine propext ⟨fun h => ?_, fun h => ?_⟩
  · exact ⟨⟨h.1, h.2.deduplicated⟩, h.2.precedes, h.2.merchants⟩
  · exact ⟨h.1.1, h.1.2, h.2.1, h.2.2⟩

theorem sound_deduplicated_system (ok : World → ℕ → Call → Choice → Prop) :
    Sound (merchantSystem ok) (Inv fun h => Deduplicated h.db) NoTx :=
  sound_system (fun _ _ h => h) (fun hd hnew => hnew.deduplicates hd)
    (fun hd hidem hraw => hd.of_eq hidem hraw)

theorem sound_since (ok : World → ℕ → Call → Choice → Prop) (before : Db) :
    Sound (merchantSystem ok) (Inv (Since before)) NoTx := by
  rw [inv_since]
  refine (sound_deduplicated_system ok).beside onward_of_call (fun hw => hw) ?_
  intro e w w' he hw
  obtain ⟨-, hmerchants, hprec⟩ := db_of_handle he
  exact ⟨hw.1.trans hprec, hmerchants.trans hw.2⟩

/-- A request among all others, from a state of some run. -/
theorem request_amidst {α : Type} {p : Service α}
    {Q : Except PyError α → World → Prop} (hcoh : Coherent w)
    (hd : Deduplicated w.db) (hidle : w.txs = ∅) (hw : w.redis.Typed)
    (hc : Reach (wholeSystem ok) (Config.idle w) c)
    (honly : Prog.Only (Served fun _ => True) p)
    (hwp : Wp (merchantSystem ok) (Inv (Since c.world.db)) i p Q c.world)
    {r : Except PyError α} (h : Amidst (wholeSystem ok) i p c r c') :
    Q r c'.world := by
  have hnone : ∀ j, w.txs.get? j = none := fun j => by
    rw [hidle]
    rfl
  have hstart : w.redis.Typed ∧ NoMerchants w := by
    refine ⟨hw, fun j tx htx => ?_⟩
    rw [hnone j] at htx
    cases htx
  have hkept := kept_merchants ok
  have hs₀ := sound_deduplicated_system ok
  obtain ⟨hinv, hall⟩ := reach_wp hs₀ (good_idle hs₀ (w := w) ⟨hcoh, hd⟩ hnone)
    (hkept.reach_keeping hstart hc)
  obtain ⟨htyped, hserved⟩ := hkept.reach_idle hstart hc
  -- from here on nothing of the present state is lost
  have hsince : Inv (Since c.world.db) c.world := by
    rw [inv_since]
    exact ⟨hinv, .refl _, rfl⟩
  have hothers : ∀ j, Wp (merchantSystem ok) (Inv (Since c.world.db)) j
      (c.session j) (fun _ => NoTx j) c.world := by
    intro j
    rw [inv_since]
    exact (hall j).beside onward_of_call
  exact (hwp.amidst (sound_since ok c.world.db)
    (hkept.amidst_keeping h htyped (fun j _ => hserved j) honly) hsince
    fun j _ => hothers j).1

theorem attended_system (hup : ∀ w s n, ¬ ok w i s (.fail n)) :
    Attended (merchantSystem ok) i :=
  ⟨fun w s n h => hup w s n h.2.2, fun h => h.2.1.1⟩

/-- **Ingest requests answer**: in every interleaving with requests, batches, the
nightly job, crashes, evictions and the failures of other sessions, a request
whose own calls to Redis and notification do not fail is refused exactly for an
unknown merchant, provided that the columns take its free events and no free key
is given twice. Otherwise each answer names the stored row of its key, new rows
are what was submitted, and the counts are those of the answers. -/
theorem ingest_requests_answer (hup : ∀ w s n, ¬ ok w i s (.fail n))
    (hcoh : Coherent w) (hd : Deduplicated w.db) (hidle : w.txs = ∅)
    (hw : w.redis.Typed) (hc : Reach (wholeSystem ok) (Config.idle w) c)
    (hnone : c.world.txs.get? i = none) :
    (∀ e r c', BatchStorable c.world.db [e] →
      Amidst (wholeSystem ok) i (ingestEventRequest e) c r c' →
      Correct (AnswersEvent c.world.db e) (UnknownMerchant c.world.db [e]) r
          c'.world.db ∧ c'.world.txs.get? i = none) ∧
    ∀ (payload : BatchEventIngest) r c', BatchStorable c.world.db payload.events →
      Amidst (wholeSystem ok) i (ingestBatchRequest payload) c r c' →
      Correct (AnswersBatch c.world.db payload.events)
          (UnknownMerchant c.world.db payload.events) r c'.world.db ∧
        c'.world.txs.get? i = none := by
  have hany : ∀ s : Stmt, s.ingests = true → True := fun _ _ => trivial
  have hatt := attended_system hup
  have hcommits : Prepares (merchantSystem ok) (Since c.world.db) :=
    fun hi _ _ _ hp => hi.2.install hp.events
  refine ⟨fun e r c' hst h => ?_, fun payload r c' hst h => ?_⟩
  · have hwp : Wp (merchantSystem ok) (Inv (Since c.world.db)) i
        (ingestEventRequest e) (fun r w => Correct (AnswersEvent c.world.db e)
          (UnknownMerchant c.world.db [e]) r w.db ∧ w.txs.get? i = none)
        c.world := by
      refine Wp.and (wp_request (fun x => AnswersEvent.mono x) Since.install hnone
        fun w' t _ _ => ?_) (wp_ingestEventRequest e hcommits hnone)
      exact hatt.wp_ingestEvent hst (by rw [World.get?_setTx, if_pos rfl]) rfl rfl
    exact request_amidst hcoh hd hidle hw hc (only_ingestEventRequest hany e) hwp h
  · have hwp : Wp (merchantSystem ok) (Inv (Since c.world.db)) i
        (ingestBatchRequest payload) (fun r w =>
          Correct (AnswersBatch c.world.db payload.events)
            (UnknownMerchant c.world.db payload.events) r w.db ∧
            w.txs.get? i = none) c.world := by
      refine Wp.and (wp_request (fun x => AnswersBatch.mono x) Since.install hnone
        fun w' t _ _ => ?_) (wp_ingestBatchRequest payload hcommits hnone)
      exact hatt.wp_ingestBatch hst (by rw [World.get?_setTx, if_pos rfl]) rfl rfl
    exact request_amidst hcoh hd hidle hw hc (only_ingestBatchRequest hany payload)
      hwp h

end Requests

/-- A batch of two events on a fresh database, nothing else going on. -/
theorem ingest_requests_answer_fresh : ∃ x c',
    Amidst (wholeSystem fun _ _ s ch => noFailure s ch) 0
      (ingestBatchRequest (Sample.pair 'b'))
      (Config.idle (World.start Sample.merchants)) (.ok x) c' ∧
    x.accepted + x.duplicates = 2 := by
  obtain ⟨r, w', he⟩ := exists_eval_service (i := 0) (w := World.start Sample.merchants)
    false (metered_draws.ingestBatchRequest (Sample.pair 'b')) (fun _ _ => rfl)
    (by decide)
  have hrun : Amidst (wholeSystem fun _ _ s ch => noFailure s ch) 0
      (ingestBatchRequest (Sample.pair 'b')) (Config.idle (World.start Sample.merchants))
      r _ := he.amidst (fun _ _ _ h => h) rfl
  have hup : ∀ (_ : World) s n, ¬ noFailure s (.fail n) :=
    fun _ _ n h => noFailure_iff.mp h n rfl
  have hst : BatchStorable (World.start Sample.merchants).db (Sample.pair 'b').events := by
    refine ⟨by decide, fun e he => ?_, by decide⟩
    simp only [Sample.pair, Db.unclaimed, List.mem_filter, List.mem_cons,
      List.not_mem_nil, or_false] at he
    rcases he.1 with rfl | rfl <;> exact ⟨_, rfl⟩
  have hanswer := (@ingest_requests_answer (fun _ _ s ch => noFailure s ch) 0 _ _ hup
    (coherent_start _) (deduplicated_start _) rfl typed_empty .refl rfl).2
      (Sample.pair 'b') r _ hst hrun
  cases r with
  | error e =>
      obtain ⟨e, hmem, -, hunknown⟩ := hanswer.1
      simp only [Sample.pair, List.mem_cons, List.not_mem_nil, or_false] at hmem
      refine absurd ⟨⟨7, "Acme"⟩, List.mem_singleton.mpr rfl, ?_⟩ hunknown
      rcases hmem with rfl | rfl <;> rfl
  | ok x =>
      refine ⟨x, _, hrun, ?_⟩
      obtain ⟨-, hevents, haccepted, hduplicates⟩ := hanswer.1
      have hlength : 2 = x.events.length := hevents.length_eq
      have hsplit := List.length_eq_length_filter_add (l := x.events) (·.duplicate)
      omega

end AnalyticsPipeline
