import AnalyticsPipeline.Guarantees.ExactlyOnce
import AnalyticsPipeline.Metatheory.SolitaryIngestBatch

/-!
# Acknowledged events

What a request that returns has said is new must be in the tables. A failure of
the notification aborts the transaction, the request goes on as if nothing had
happened, and its commit rolls back: exactly the requests that store something
new are affected.
-/

namespace AnalyticsPipeline

open Framework

/-! ## Durability -/

/-- The event of a response that called it new is in both tables. -/
def Db.Holds (db : Db) (x : EventIngestResponse) : Prop :=
  ∃ row ∈ db.raw_events, x = row.response false ∧
    row.claim ∈ db.event_idempotency

/-- Without a failure, the request can return. -/
def CanReturn {α : Type} (i : ℕ) (w : World) (p : Service α) : Prop :=
  ∃ a w', Eval (M := services) noFailure i p w (.ok a) w'

/-- The events a request acknowledges are durable, and a failing notification
makes no difference to whether it returns. -/
structure Durable {α : Type} (fails : Bool) (i : ℕ) (w : World) (p : Service α)
    (responses : α → List EventIngestResponse) : Prop where
  held : ∀ a w', Eval (M := services) (notifying fails) i p w (.ok a) w' →
    ∀ x ∈ responses a, x.duplicate = false → w'.db.Holds x
  returns : fails = true → CanReturn i w p →
    ∀ x w', Eval (M := services) (notifying fails) i p w x w' → ∃ a, x = .ok a

def EventDurable (fails : Bool) (i : ℕ) (w : World) (e : EventIngest) : Prop :=
  Durable fails i w (ingestEventRequest e) fun a => [a.1]

def BatchDurable (fails : Bool) (i : ℕ) (w : World)
    (payload : BatchEventIngest) : Prop :=
  Durable fails i w (ingestBatchRequest payload) (·.events)

/-- The request for the event stores it. -/
def StoresEvent (w : World) (e : EventIngest) : Prop :=
  Acceptable w.db w.redis e ∧ e.idempotency_key ∉ w.db.claimedKeys

/-- The request for the batch stores something. -/
def StoresBatch (w : World) (events : List EventIngest) : Prop :=
  BatchIngestible w.db w.redis events ∧ w.db.unclaimed events ≠ []

/-- The state of the tables a request can meet: the primary key holds, and
identifiers that will be drawn are in no row. -/
structure Serving (w : World) : Prop where
  idle : ∀ j, w.txs.get? j = none
  keyed : w.db.Keyed
  issued : ∀ row ∈ w.db.raw_events, w.issued.get? row.id ≠ none

section Durable

variable {w w' : World} {i : ℕ} {fails : Bool} {e : EventIngest}
  {payload : BatchEventIngest}

theorem Serving.event (h : Serving w) {x : Except PyError (EventIngestResponse × Bool)}
    (he : Eval (M := services) (notifying fails) i (ingestEventRequest e) w x w') :
    EventOutcome fails w.db w.redis e x w'.db := by
  obtain ⟨h', r', d', hat, -, hout⟩ := after_ingestEventRequest (h := w.toHistory)
    ⟨rfl, rfl, rfl, h.idle i⟩ h.issued h.keyed _ _ he
  rwa [show w'.db = h'.db from congrArg History.db hat.history]

theorem Serving.batch (h : Serving w) {x : Except PyError BatchIngestResponse}
    (he : Eval (M := services) (notifying fails) i (ingestBatchRequest payload) w
      x w') : BatchIngestOutcome fails w.db w.redis payload.events x w'.db := by
  obtain ⟨h', r', d', hat, -, hout⟩ := after_ingestBatchRequest (h := w.toHistory)
    ⟨rfl, rfl, rfl, h.idle i⟩ h.issued h.keyed _ _ he
  rwa [show w'.db = h'.db from congrArg History.db hat.history]

/-- Without a failing notification a new event is held. -/
theorem holds_overlay {db : Db} {rows : List RawEvent}
    {claims : List EventIdempotency} {row : RawEvent} (hrow : row ∈ rows)
    (hclaim : row.claim ∈ claims) :
    ((ingestWrites rows claims).overlay db).Holds (row.response false) :=
  ⟨row, List.mem_append_right _ hrow, rfl, List.mem_append_right _ hclaim⟩

/-- What is held under a key has claimed it. -/
theorem Db.Holds.claimed {db : Db} {x : EventIngestResponse} (h : db.Holds x) :
    x.idempotency_key ∈ db.claimedKeys := by
  obtain ⟨row, -, rfl, hclaim⟩ := h
  exact List.mem_map_of_mem (f := EventIdempotency.idempotency_key) hclaim

/-! ## A single event -/

theorem Serving.eventDurable_iff (h : Serving w)
    (hsupply : w.issued.entries.length + 1 ≤ 2 ^ 128) :
    EventDurable fails i w e ↔ fails = false ∨ ¬ StoresEvent w e := by
  have halone : Alone i w := fun j _ => h.idle j
  constructor
  · intro hd
    by_contra hno
    simp only [not_or, Bool.not_eq_false, not_not] at hno
    obtain ⟨rfl, hacc, hnew⟩ := hno
    obtain ⟨x, w', he⟩ := exists_eval_service true
      (metered_draws.ingestEventRequest e) halone (by rwa [Nat.zero_add])
    -- the answer calls the event new, and nothing of it is left
    have hheld := hd.held
    have hout := h.event he
    generalize hdb : w'.db = db' at hout
    cases hout with
    | refused hrefused => exact hrefused hacc
    | found _ hkey _ => exact hnew hkey
    | new _ _ _ hk =>
        have hholds := hheld _ w' he _ (List.mem_singleton.mpr rfl) rfl
        rw [hdb] at hholds
        exact hnew (hk ▸ hholds.claimed)
  · intro hcond
    refine ⟨?_, ?_⟩
    · intro a w' he x hx hdup
      have hout := h.event he
      generalize w'.db = db' at hout ⊢
      rw [List.mem_singleton] at hx
      subst hx
      cases hout with
      | found _ _ _ => cases hdup
      | new hnew hcounts _ _ =>
          rcases hcond with rfl | hno
          · exact holds_overlay (List.mem_singleton.mpr rfl)
              (List.mem_singleton.mpr rfl)
          · exact absurd ⟨hnew.acceptable hcounts, hnew.unclaimed⟩ hno
    · rintro rfl ⟨a, w₁, he₁⟩ x w' he
      have hno := hcond.resolve_left (by simp)
      have hacc : Acceptable w.db w.redis e := by
        have hout := h.event he₁
        generalize w₁.db = db₁ at hout
        cases hout with
        | found hacc _ _ => exact hacc
        | new hnew hcounts _ _ => exact hnew.acceptable hcounts
      have hout := h.event he
      generalize w'.db = db' at hout
      cases hout with
      | refused hrefused => exact absurd hacc hrefused
      | found _ _ _ => exact ⟨_, rfl⟩
      | new _ _ _ _ => exact ⟨_, rfl⟩

/-! ## A batch -/

/-- A batch that stores something calls something new. -/
theorem Responses.exists_new {db : Db} {events : List EventIngest}
    {rows : List RawEvent} {responses : List EventIngestResponse}
    (h : Responses db events rows responses) (hne : db.unclaimed events ≠ []) :
    ∃ x ∈ responses, x.duplicate = false ∧
      x.idempotency_key ∉ db.claimedKeys := by
  obtain ⟨e, he⟩ := List.exists_mem_of_ne_nil _ hne
  obtain ⟨he, hnew⟩ := List.mem_filter.mp he
  have hnew := of_decide_eq_true hnew
  have hmem : (e.idempotency_key, decide (e.idempotency_key ∈ db.claimedKeys)) ∈
      responses.map fun x => (x.idempotency_key, x.duplicate) := by
    rw [h.flags]
    exact List.mem_map.mpr ⟨e, he, rfl⟩
  obtain ⟨x, hx, heq⟩ := List.mem_map.mp hmem
  obtain ⟨hk, hdup⟩ := Prod.mk.inj heq
  refine ⟨x, hx, ?_, hk.symm ▸ hnew⟩
  rw [hdup]
  exact decide_eq_false hnew

theorem Serving.batchDurable_iff (h : Serving w)
    (hsupply : w.issued.entries.length + payload.events.length ≤ 2 ^ 128) :
    BatchDurable fails i w payload ↔
      fails = false ∨ ¬ StoresBatch w payload.events := by
  have halone : Alone i w := fun j _ => h.idle j
  have hexists : ∀ fails, ∃ x w', Eval (M := services) (notifying fails) i
      (ingestBatchRequest payload) w x w' := fun fails =>
    exists_eval_service fails (metered_draws.ingestBatchRequest payload) halone
      (by rw [Nat.mul_one, Nat.add_zero, Nat.zero_add]; exact hsupply)
  constructor
  · intro hd
    by_contra hno
    simp only [not_or, Bool.not_eq_false, not_not] at hno
    obtain ⟨rfl, hing, hne⟩ := hno
    -- without the failure the request would return
    have hreturn : CanReturn i w (ingestBatchRequest payload) := by
      obtain ⟨x, w', he⟩ := hexists false
      have hout := h.batch he
      generalize w'.db = db' at hout
      cases hout with
      | refused hrefused => exact absurd hing hrefused
      | aborted hfails _ _ => cases hfails
      | stored _ _ _ => exact ⟨_, w', he⟩
    obtain ⟨x, w', he⟩ := hexists true
    obtain ⟨a, rfl⟩ := hd.returns rfl hreturn x w' he
    have hheld := hd.held a w' he
    have hout := h.batch he
    generalize w'.db = db' at hout hheld
    cases hout with
    | stored _ hbatch hresp =>
        -- a response calls an event new that the rollback has taken back
        obtain ⟨x, hx, hdup, hnew⟩ := hresp.exists_new hne
        have hholds := hheld x hx hdup
        rw [if_pos ⟨rfl, hne⟩] at hholds
        exact hnew hholds.claimed
  · intro hcond
    refine ⟨?_, ?_⟩
    · intro a w' he x hx hdup
      have hout := h.batch he
      generalize w'.db = db' at hout ⊢
      cases hout with
      | stored hing hbatch hresp =>
          obtain ⟨row, hrow, rfl⟩ := hresp.new x hx hdup
          have hne : w.db.unclaimed payload.events ≠ [] := fun hnil => by
            rw [hbatch.nil_iff.mpr hnil] at hrow
            cases hrow
          obtain rfl : fails = false := hcond.resolve_right fun hno =>
            hno ⟨hing, hne⟩
          rw [if_neg (by simp)]
          exact holds_overlay hrow ((hbatch.claimed _).mpr ⟨row, hrow, rfl⟩)
    · rintro rfl ⟨a, w₁, he₁⟩ x w' he
      have hno := hcond.resolve_left (by simp)
      have hing : BatchIngestible w.db w.redis payload.events := by
        have hout := h.batch he₁
        generalize w₁.db = db₁ at hout
        cases hout with
        | stored hing _ _ => exact hing
      have hout := h.batch he
      generalize w'.db = db' at hout
      cases hout with
      | refused hrefused => exact absurd hing hrefused
      | aborted _ hne _ => exact absurd ⟨hing, hne⟩ hno
      | stored _ _ _ => exact ⟨_, rfl⟩

end Durable

/-- **Acknowledged events are durable** whatever becomes of the notification if
and only if it succeeds or the request stores nothing. -/
theorem acknowledged_durable_iff {w : World} (hw : Serving w)
    (hsupply : w.issued.entries.length + 500 ≤ 2 ^ 128) (i : ℕ) (fails : Bool) :
    (∀ e, EventDurable fails i w e ↔ fails = false ∨ ¬ StoresEvent w e) ∧
    ∀ payload : BatchEventIngest, BatchDurable fails i w payload ↔
      fails = false ∨ ¬ StoresBatch w payload.events := by
  refine ⟨fun e => hw.eventDurable_iff (by omega), fun payload => ?_⟩
  have hlength := payload.length_range.2
  exact hw.batchDurable_iff (by omega)

theorem serving_start (merchants : List Merchant) :
    Serving (World.start merchants) where
  idle := by simp [World.start]
  keyed := by simp [World.start, History.start, Db.Keyed]
  issued := by simp [World.start, History.start]

theorem acknowledged_durable_iff_notified :
    EventDurable false 0 (World.start Sample.merchants)
      (Sample.payment 'a' 250) :=
  (((acknowledged_durable_iff (serving_start Sample.merchants) (by decide) 0
    false).1 _).mpr (.inl rfl))

/-- The notification fails, the event is answered as new, and the commit rolls
it back. -/
theorem unnotified_event_lost : ∃ w, Serving w ∧
    ∃ e, ¬ EventDurable true 0 w e := by
  refine ⟨World.start Sample.merchants, serving_start _, Sample.payment 'a' 250,
    fun h => ?_⟩
  have hrun : (evalWith (M := services) (Call.lets true) 0
      ([.clock (Sample.instant 1), .auto, .clock (Sample.instant 1), .uuid 1] ++
        [.auto, .auto, .fail 0, .auto, .auto, .auto])
      (ingestEventRequest (Sample.payment 'a' 250))
      (World.start Sample.merchants)).map
        (fun r => (r.1.toOption.map (·.1.duplicate), r.2.db.raw_events)) =
      some (some false, []) := by decide +kernel
  obtain ⟨⟨x, w'⟩, hrun, heq⟩ := Option.map_eq_some_iff.mp hrun
  obtain ⟨hdup, hraw⟩ := Prod.mk.inj heq
  obtain ⟨a, ha, hnew⟩ := Option.map_eq_some_iff.mp hdup
  cases x with
  | error err => cases ha
  | ok b =>
      cases ha
      have he := eval_of_evalWith (fun _ _ => notifying_of_lets) hrun
      obtain ⟨row, hrow, -⟩ := h.held _ w' he _ (List.mem_singleton.mpr rfl) hnew
      rw [show w'.db.raw_events = [] from hraw] at hrow
      cases hrow

end AnalyticsPipeline
