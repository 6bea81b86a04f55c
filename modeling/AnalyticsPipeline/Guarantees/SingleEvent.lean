import AnalyticsPipeline.Guarantees.BatchAgreement
import AnalyticsPipeline.Guarantees.MetricsScan

/-!
# One processed event, anywhere

For every merchant, event type and instant a run reaches a state in which
exactly one event of that kind has been processed: one request, one batch. A
reading that goes wrong at an instant goes wrong in such a state.
-/

namespace AnalyticsPipeline

open Framework

/-- An event of one cent. -/
def oneCent (m : UUID) (type : EventType) (t : DateTime) : EventIngest where
  event_type := type
  merchant_id := m
  amount_cents := 1
  currency := "EUR"
  idempotency_key := "a"
  client_timestamp := some (.aware (.utc t))
  metadata := none
  amount_nonneg := by decide
  key_length := by decide

/-- The event as it is stored. -/
structure OneCent (m : UUID) (type : EventType) (t : DateTime)
    (row : RawEvent) : Prop where
  merchant_id : row.merchant_id = m
  event_type : row.event_type = type
  bucket : bucketTs row = t
  amount : row.amount_cents = 1

section OneCent

variable {m : UUID} {type : EventType} {t : DateTime} {w w' : World} {i : ℕ}

theorem atRest_start (merchants : List Merchant) :
    AtRest (World.start merchants) :=
  reach_atRest (c := Config.idle (World.start merchants)) .refl

/-- Ingesting it into empty tables leaves one row and no offset. -/
theorem eval_oneCent {x : Except PyError (EventIngestResponse × Bool)}
    (he : Eval (M := services) noFailure i (ingestEventRequest (oneCent m type t))
      (World.start [⟨m, ""⟩]) x w') :
    AtRest w' ∧ ∃ row, OneCent m type t row ∧ w'.db.raw_events = [row] ∧
      w'.db.processed_rollup_events = [] ∧ w'.db.consumer_offsets = ∅ := by
  obtain ⟨v, hcolumns⟩ : ∃ v, (oneCent m type t).columns = .ok v := by
    have hkey : textColumn "a" = .ok "a" := rfl
    simp only [EventIngest.columns, EventIngest.rawValues, RawValues.stored,
      oneCent, hkey, Option.mapM_some, timestamptzColumn_utc]
    exact ⟨_, rfl⟩
  have hacc : Acceptable (World.start [⟨m, ""⟩]).db (World.start [⟨m, ""⟩]).redis
      (oneCent m type t) :=
    { merchant := ⟨⟨m, ""⟩, List.mem_singleton.mpr rfl, rfl⟩
      key_text := hasNul_of_columns hcolumns
      found := fun hkey => by cases hkey
      new := fun _ => ⟨⟨_, hcolumns⟩, fun _ hget => by cases hget⟩ }
  obtain ⟨hrest, hout⟩ := (atRest_start [⟨m, ""⟩]).ingestEvent he
  refine ⟨hrest, ?_⟩
  generalize w'.db = db' at hout ⊢
  cases hout with
  | refused hrefused => exact absurd hacc hrefused
  | found _ hkey _ => cases hkey
  | @new v' row hnew _ hcontent _ =>
      obtain rfl : v = v' := Except.ok.inj (hcolumns.symm.trans hnew.columns)
      subst hcontent
      have hcols := RawValues.stored_eq_ok_iff.mp hcolumns
      have hclient : row.client_timestamp = some t := by
        have htime := hcols.client_timestamp
        simp only [EventIngest.rawValues, oneCent, Option.mapM_some,
          timestamptzColumn_utc] at htime
        exact (Except.ok.inj htime).symm
      refine ⟨row, ⟨hcols.merchant_id, hcols.event_type, ?_,
        integerColumn_eq_ok hcols.amount_cents⟩, rfl, rfl, rfl⟩
      rw [bucketTs, hclient]
      rfl

/-- A first batch over one row marks it. -/
theorem BatchOutcome.processed_single {settings : Settings} {h h' : History}
    {batch : Option (List RawEvent × List RawEvent)} {row : RawEvent}
    (hlimit : settings.worker_batch_size ≠ 0) (hraw : h.db.raw_events = [row])
    (hmarked : h.db.processed_rollup_events = [])
    (hoffset : h.db.consumer_offsets = ∅)
    (hout : BatchOutcome settings h batch h') : h'.db.processed = [row] := by
  have hpage : ∀ f : Fetch, Fetched settings h f → f.page = [row] := by
    intro f hf
    obtain ⟨scan, hperm, hafter⟩ := hf.valid
    rw [hf.seen, hraw] at hperm
    rw [hf.last_event_id, History.cursor, hoffset, hf.limit] at hafter
    obtain rfl := List.perm_singleton.mp hperm
    obtain ⟨n, hn⟩ := Nat.exists_eq_succ_of_ne_zero hlimit
    rw [hn] at hafter
    rw [← Except.ok.inj hafter]
    exact List.take_of_length_le (by simp)
  cases hout with
  | nothing hf hnil => simp [hpage _ hf] at hnil
  | @page f new ws hf _ hbatch =>
      obtain ⟨ids, hmarks, -⟩ := hbatch.marks
      have hcovered := hmarks.covered row (by simp [hpage f hf])
      have hid : row.id ∈ ids := by simpa [History.fetch, hmarked] using hcovered
      have hrows : (ws.overlay h.db).raw_events = [row] := by
        rw [Db.overlay_raw_events, hbatch.appends.2.1, hraw, List.append_nil]
      have hmark : (ws.overlay h.db).marked row = true := by
        rw [Db.marked, Db.overlay_processed, hmarked, hmarks.written]
        simpa using hid
      change (ws.overlay h.db).processed = [row]
      rw [Db.processed, hrows, List.filter_cons_of_pos hmark, List.filter_nil]

end OneCent

/-- **A processed event anywhere**: the tables group exactly that event. -/
theorem exists_reach_processed (m : UUID) (type : EventType) (t : DateTime) :
    ∃ merchants, ∃ c : Config services PyError,
      Reach (oneConsumer "w") (Config.idle (World.start merchants)) c ∧
      (∀ j, c.world.txs.get? j = none) ∧
      ∃ row, OneCent m type t row ∧ c.world.db.processed = [row] := by
  have hpol : ∀ w s ch, notifying false s ch → (oneConsumer "w").call w 0 s ch :=
    fun _ _ _ _ => trivial
  obtain ⟨x, w₁, he₁⟩ := exists_eval_service false
    (metered_draws.ingestEventRequest (oneCent m type t))
    (w := World.start [⟨m, ""⟩]) (i := 0) (fun _ _ => rfl)
    (Nat.succ_le_of_lt (Nat.two_pow_pos 128))
  have hc₀ : Reach (oneConsumer "w") (Config.idle (World.start [⟨m, ""⟩]))
      (Config.idle (World.start [⟨m, ""⟩])) := .refl
  obtain ⟨r₁, hc₁⟩ := reach_of_eval hpol (.ingestEvent (oneCent m type t)) hc₀
    ⟨_, rfl⟩ he₁
  obtain ⟨hrest, row, hrow, hraw, hmarked, hoffset⟩ := eval_oneCent he₁
  obtain ⟨y, w₂, he₂⟩ := exists_eval_service false
    (metered_draws.processBatch { worker_id := "w", worker_batch_size := 1 })
    (fun j _ => hrest.idle j) (length_issued_le w₁)
  obtain ⟨r₂, hc₂⟩ := reach_of_eval hpol (.processBatch _ rfl) hc₁
    ⟨r₁, by simp⟩ he₂
  -- without an offset the log can be read
  cases y with
  | error e =>
      obtain ⟨scan, err, -, hafter⟩ :=
        eval_processBatch_error hrest.coherent (hrest.idle 0) he₂
      rw [History.cursor, hoffset] at hafter
      cases hafter
  | ok n =>
      obtain ⟨-, hnone, batch, hout, -⟩ :=
        eval_processBatch hrest.coherent (hrest.idle 0) he₂
      exact ⟨[⟨m, ""⟩], _, hc₂, idle_of_eval hrest.idle he₂ hnone, row, hrow,
        hout.processed_single Nat.one_ne_zero hraw hmarked hoffset⟩

end AnalyticsPipeline
