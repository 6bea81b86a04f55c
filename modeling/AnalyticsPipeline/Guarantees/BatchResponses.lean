import AnalyticsPipeline.Framework.Amidst
import AnalyticsPipeline.Guarantees.BatchAgreement

/-!
# The responses of a batch

A batch looks up the events it did not insert in a statement of its own, with a
snapshot of its own, after its insertion has waited for all competing claims. A
claim it lost is then a committed event. The nil identifier stands for an event
that is nowhere; no interleaving leads a batch to answer it. The other answers
name the event of their key that the transaction sees, unless the notification
has failed: then the transaction sees nothing, and the batch returns all the
same.
-/

namespace AnalyticsPipeline

open Framework

/-- The events the open transaction of session `i` sees. -/
def World.visible (w : World) (i : ℕ) : List RawEvent :=
  match w.txs.get? i with
  | none => []
  | some tx => if tx.aborted then [] else (w.view tx).raw_events

/-- `r` is the one row of the key. -/
def RowFor (rows : List RawEvent) (key : String) (r : RawEvent) : Prop :=
  r ∈ rows ∧ ∀ r' ∈ rows, r'.idempotency_key = key ↔ r' = r

/-- The response has the key of the event and an identifier that `uuid4` drew,
so not the nil one. -/
structure NotInvented (w : World) (e : EventIngest)
    (x : EventIngestResponse) : Prop where
  key : x.idempotency_key = e.idempotency_key
  drawn : w.issued.get? x.event_id ≠ none

/-- The response names the event of its key that the transaction sees. -/
structure NamesVisible (w : World) (i : ℕ) (e : EventIngest)
    (x : EventIngestResponse) : Prop where
  key : x.idempotency_key = e.idempotency_key
  row : ∃ r, RowFor (w.visible i) e.idempotency_key r ∧
    x.event_id = r.id ∧ x.occurred_at = r.occurred_at

/-- A batch request up to its commit. -/
def uncommittedBatch (payload : BatchEventIngest) :
    Service BatchIngestResponse := do
  perform .begin
  IngestionService.ingestBatch payload.events

/-- No notification of session `i` fails. -/
def notified (i : ℕ) : ServicePolicy :=
  { anyConsumers with call := fun _ j c ch =>
      ∀ payload n, j = i → c = .sql (.pgNotify payload) → ch ≠ .fail n }

section Responses

variable {merchants : List Merchant} {i : ℕ} {w : World} {tx : Tx}
  {pol : ServicePolicy} {c : Config services PyError}
  {payload : BatchEventIngest} {events : List EventIngest}
  {response : BatchIngestResponse}

/-- Answers are given position by position. -/
theorem forall₂_batchAnswers {P : EventIngest → EventIngestResponse → Prop}
    (hlength : response.events.length = events.length)
    (h : ∀ e x, (e.idempotency_key, x) ∈ batchAnswers events response →
      P e x) : List.Forall₂ P events response.events := by
  rw [List.forall₂_iff_zip]
  refine ⟨hlength.symm, fun {e x} hmem => h e x ?_⟩
  rw [batchAnswers, List.zip_map_left]
  exact List.mem_map.mpr ⟨(e, x), hmem, rfl⟩

/-- Whatever has happened before, and whatever the other sessions do now, a
batch returns in one of the two ways of `BatchReturned`. -/
theorem batchReturned_of_amidst {r₀ : Except PyError Unit}
    {r : Except PyError BatchIngestResponse} {c' : Config services PyError}
    (hspawn : ∀ j p, pol.spawn j p → ServiceProgram (fun _ => True) p)
    (hc : Reach anyConsumers (Config.idle (World.start merchants)) c)
    (hidle : c.session i = .ret r₀)
    (hrun : Amidst pol i (uncommittedBatch payload) c r c') :
    BatchReturned pol (fun h => Deduplicated h.db) i payload.events r
        c'.world ∧
      Coherent c'.world ∧ Deduplicated c'.world.db := by
  have hs₀ : Sound anyConsumers (Inv fun h => Deduplicated h.db) NoTx :=
    sound_deduplicated fun _ _ hp => hp
  have hs := sound_deduplicated hspawn
  obtain ⟨hw, hall⟩ := reach_wp hs₀ (good_idle hs₀
    (w := World.start merchants)
    ⟨coherent_start merchants, deduplicated_start merchants⟩ fun _ => rfl) hc
  -- what the others may do from here on, they might have done before
  have hothers : ∀ j, Wp pol (Inv fun h => Deduplicated h.db) j (c.session j)
      (fun _ => NoTx j) c.world :=
    fun j => (hall j).restrict (fun _ _ _ _ _ => trivial) fun _ _ _ => trivial
  have hnone : NoTx i c.world := by
    have hi := hothers i
    rw [hidle] at hi
    exact hi c.world .refl hw
  have hbatch : Wp pol (Inv fun h => Deduplicated h.db) i
      (uncommittedBatch payload) (BatchReturned pol (fun h => Deduplicated h.db)
        i payload.events) c.world := by
    refine wp_begin hnone fun w t _ _ _ => ?_
    exact wp_ingestBatch (by rw [World.get?_setTx, if_pos rfl]) rfl rfl
  exact hbatch.amidst hs hrun hw fun j _ => hothers j

theorem BatchReturned.notInvented
    (h : BatchReturned pol (fun h => Deduplicated h.db) i events (.ok response)
      w) (hw : Coherent w) :
    List.Forall₂ (NotInvented w) events response.events := by
  obtain ⟨hlength, tx, htx, hopen, hlost⟩ := h
  have hgenuine : Genuine w (batchAnswers events response) := by
    cases hab : tx.aborted with
    | false => exact ((hopen hab).answered fun _ hd => hd).genuine hw htx
    | true => exact (hlost hab).2
  refine forall₂_batchAnswers hlength fun e x hx => ?_
  obtain ⟨hkey, hdrawn⟩ := hgenuine _ hx
  exact ⟨hkey, hdrawn⟩

theorem BatchReturned.namesVisible
    (h : BatchReturned pol (fun h => Deduplicated h.db) i events (.ok response)
      w) (hd : Deduplicated w.db) (hnotify : ¬ NotifyMayFail pol i) :
    List.Forall₂ (NamesVisible w i) events response.events := by
  obtain ⟨hlength, tx, htx, hopen, hlost⟩ := h
  have hab : tx.aborted = false := by
    by_contra hab
    exact hnotify (hlost (by simpa using hab)).1
  have hready := (hopen hab).answered fun _ hd => hd
  have hview : w.visible i = (tx.writes.overlay w.db).raw_events := by
    simp only [World.visible, htx, hab]
    rfl
  have hd' := hready.events.deduplicates hd
  refine forall₂_batchAnswers hlength fun e x hx => ?_
  obtain ⟨r, hk, hr, hmem⟩ := hready.answered _ hx
  dsimp only at hk hr hmem
  have hseen : r ∈ (tx.writes.overlay w.db).raw_events := by
    rw [Db.overlay_raw_events, List.mem_append]
    split at hmem
    · exact .inl hmem
    · exact .inr hmem
  rw [hr]
  refine ⟨hk, r, ⟨hview ▸ hseen, fun r' hr' => ?_⟩, rfl, rfl⟩
  constructor
  · intro hk'
    exact hd'.eq_of_key (hview ▸ hr') hseen (hk'.trans hk.symm)
  · rintro rfl
    exact hk

end Responses

/-- **Batch responses**: in every interleaving, from empty tables, a batch that
returns has answered each event with its key and with an identifier somebody
drew. If its notification has not failed, it has named the event of the key its
transaction sees. -/
theorem batch_responses_name_events (merchants : List Merchant)
    {c : Config services PyError}
    (hc : Reach anyConsumers (Config.idle (World.start merchants)) c) {i : ℕ}
    {r₀ : Except PyError Unit} (hidle : c.session i = .ret r₀)
    (payload : BatchEventIngest) :
    (∀ {response c'}, Amidst anyConsumers i (uncommittedBatch payload) c
        (.ok response) c' →
      List.Forall₂ (NotInvented c'.world) payload.events response.events) ∧
    ∀ {response c'}, Amidst (notified i) i (uncommittedBatch payload) c
        (.ok response) c' →
      List.Forall₂ (NamesVisible c'.world i) payload.events
        response.events := by
  constructor
  · intro response c' hrun
    obtain ⟨hreturned, hw, -⟩ :=
      batchReturned_of_amidst (fun _ _ hp => hp) hc hidle hrun
    exact hreturned.notInvented hw
  · intro response c' hrun
    obtain ⟨hreturned, -, hd⟩ :=
      batchReturned_of_amidst (fun _ _ hp => hp) hc hidle hrun
    refine hreturned.namesVisible hd ?_
    rintro ⟨w, payload, n, hfail⟩
    exact hfail payload n rfl rfl rfl

/-! ## Two runs of one batch -/

namespace Sample

/-- The answers to the calls of a batch of two new events, its notification's
last. -/
def pairChoices (notify : Choice) : List Choice :=
  [.clock (instant 1), .auto, .clock (instant 1), .uuid 1, .uuid 2, .auto,
    .auto, .auto, notify]

end Sample

/-- A replay of the batch, alone, that keeps the policy. -/
theorem amidst_of_evalWith (pol : ServicePolicy) {fails : Bool} {i : ℕ}
    {merchants : List Merchant} {payload : BatchEventIngest}
    {choices : List Choice} {P : Except PyError BatchIngestResponse → Bool}
    (hpol : ∀ w s ch, notifying fails s ch → pol.call w i s ch)
    (hrun : (evalWith (M := services) (Call.lets fails) i choices
      (uncommittedBatch payload) (World.start merchants)).map
        (fun r => P r.1) = some true) :
    ∃ r w', P r = true ∧ Amidst pol i (uncommittedBatch payload)
      (Config.idle (World.start merchants)) r
      ⟨w', fun _ => .ret (.ok ())⟩ := by
  obtain ⟨r, w', he, hP⟩ := exists_eval_of_evalWith
    (fun _ _ => notifying_of_lets) hrun
  exact ⟨r, w', hP, he.amidst hpol rfl⟩

theorem notified_pair_named : ∃ response c',
    Amidst (notified 0) 0 (uncommittedBatch (Sample.pair 'b'))
      (Config.idle (World.start Sample.merchants)) (.ok response) c' ∧
    List.Forall₂ (NamesVisible c'.world 0) (Sample.pair 'b').events
      response.events := by
  have hrun : (evalWith (M := services) (Call.lets false) 0
      (Sample.pairChoices .auto) (uncommittedBatch (Sample.pair 'b'))
      (World.start Sample.merchants)).map (fun r => r.1.isOk) = some true := by
    decide +kernel
  have hpol : ∀ w s ch, notifying false s ch → (notified 0).call w 0 s ch := by
    rintro w s ch hs payload n - rfl rfl
    exact absurd (hs.mpr ⟨n, rfl⟩) (by simp)
  obtain ⟨r, w', hok, hamidst⟩ :=
    amidst_of_evalWith (notified 0) (P := Except.isOk) hpol hrun
  cases r with
  | error e => cases hok
  | ok response =>
      exact ⟨response, _, hamidst, (batch_responses_name_events
        Sample.merchants .refl rfl _).2 hamidst⟩

/-- The notification of a batch of two new events fails. The batch returns
their identifiers; its transaction sees neither. -/
theorem unnotified_pair_invisible :
    ¬ ∀ (merchants : List Merchant) (c : Config services PyError),
      Reach anyConsumers (Config.idle (World.start merchants)) c →
      ∀ (i : ℕ) (r₀ : Except PyError Unit), c.session i = .ret r₀ →
      ∀ (payload : BatchEventIngest) response c',
        Amidst anyConsumers i (uncommittedBatch payload) c (.ok response) c' →
        List.Forall₂ (NamesVisible c'.world i) payload.events
          response.events := by
  intro hall
  have hrun : (evalWith (M := services) (Call.lets true) 0
      (Sample.pairChoices (.fail 0)) (uncommittedBatch (Sample.pair 'b'))
      (World.start Sample.merchants)).map
        (fun r => (r.1.isOk, r.2.visible 0)) = some (true, []) := by
    decide +kernel
  obtain ⟨⟨r, w'⟩, hrun, heq⟩ := Option.map_eq_some_iff.mp hrun
  obtain ⟨hok, hvisible⟩ := Prod.mk.inj heq
  cases r with
  | error e => cases hok
  | ok response =>
      have he : Amidst anyConsumers 0 (uncommittedBatch (Sample.pair 'b'))
          (Config.idle (World.start Sample.merchants)) (.ok response) _ :=
        (eval_of_evalWith (fun _ _ => notifying_of_lets) hrun).amidst
          (fun _ _ _ _ => trivial) rfl
      have hnames := hall _ _ .refl 0 _ rfl _ _ _ he
      obtain ⟨_, _, hfirst, -⟩ := List.forall₂_cons_left_iff.mp hnames
      obtain ⟨-, r, ⟨hr, -⟩, -⟩ := hfirst
      dsimp only at hr hvisible
      rw [hvisible] at hr
      cases hr

end AnalyticsPipeline
