import AnalyticsPipeline.Guarantees.Durability
import AnalyticsPipeline.Guarantees.BatchAgreement
import AnalyticsPipeline.Guarantees.Retention

/-!
# Resubmission after retention

Dropping partitions takes events out of the log and leaves their claims in
`event_idempotency`. A request for one event looks its key up among the claims
and then insists on the event; a batch looks among the events and answers the
nil identifier for one it does not find. Neither answers from the claim alone.
-/

namespace AnalyticsPipeline

open Framework

/-! ## Tables after retention -/

/-- Every event kept holds its claim; a claim may have lost its event. -/
structure Retained (db : Db) : Prop where
  keys : (db.event_idempotency.map (·.idempotency_key)).Nodup
  ids : (db.raw_events.map (·.id)).Nodup
  claims : ∀ r ∈ db.raw_events, r.claim ∈ db.event_idempotency
  text : ∀ c ∈ db.event_idempotency, hasNul c.idempotency_key = false

namespace Retained

variable {db ws : Db} {row : RawEvent} {key : String}

theorem start (merchants : List Merchant) :
    Retained (History.start merchants).db :=
  ⟨List.nodup_nil, List.nodup_nil, by simp [History.start],
    by simp [History.start]⟩

theorem of_eq {db' : Db} (h : Retained db)
    (hidem : db'.event_idempotency = db.event_idempotency)
    (hraw : db'.raw_events = db.raw_events) : Retained db' :=
  ⟨hidem ▸ h.keys, hraw ▸ h.ids, hidem ▸ hraw ▸ h.claims, hidem ▸ h.text⟩

theorem overlay {now : DateTime} (h : Retained db) (hnew : NewEvents db now ws) :
    Retained (ws.overlay db) where
  keys := by
    rw [Db.overlay_event_idempotency, List.map_append, List.nodup_append]
    refine ⟨h.keys, hnew.deduplicated.keys, ?_⟩
    rintro k hk _ hk' rfl
    obtain ⟨c, hc, rfl⟩ := List.mem_map.mp hk'
    exact hnew.fresh_keys c hc hk
  ids := by
    rw [Db.overlay_raw_events, List.map_append, List.nodup_append]
    refine ⟨h.ids, hnew.deduplicated.ids, ?_⟩
    rintro _ hu _ hu' rfl
    obtain ⟨r', hr', heq⟩ := List.mem_map.mp hu
    obtain ⟨r, hr, rfl⟩ := List.mem_map.mp hu'
    exact hnew.fresh_ids r hr r' hr' heq
  claims := by
    intro r hr
    rw [Db.overlay_raw_events, List.mem_append] at hr
    rw [Db.overlay_event_idempotency, List.mem_append]
    exact hr.imp (h.claims r) hnew.deduplicated.claim_mem
  text := by
    intro c hc
    rw [Db.overlay_event_idempotency, List.mem_append] at hc
    exact hc.elim (h.text c) (hnew.text c)

/-- Dropping partitions is the one step that takes events away. -/
theorem drop (h : Retained db) (days : List DateTime) :
    Retained (db.dropPartitions days) where
  keys := h.keys
  ids := h.ids.sublist (List.filter_sublist.map _)
  claims := fun r hr => h.claims r (List.mem_of_mem_filter hr)
  text := h.text

theorem keyed (h : Retained db) : db.Keyed := by
  refine List.Nodup.of_map Prod.fst ?_
  rw [List.map_map]
  exact h.ids

/-- The claim of a kept event leads to it. -/
theorem storedEvent? (h : Retained db) (hrow : row ∈ db.raw_events) :
    db.storedEvent? row.idempotency_key = some row := by
  rw [Db.storedEvent?, show row.idempotency_key = row.claim.idempotency_key
    from rfl, filter_key_eq h.keys (h.claims row hrow)]
  dsimp only
  rw [show row.claim.event_id = row.id from rfl, filter_key_eq h.ids hrow]

end Retained

theorem mem_of_storedEvent? {db : Db} {key : String} {row : RawEvent}
    (h : db.storedEvent? key = some row) : row ∈ db.raw_events := by
  unfold Db.storedEvent? at h
  split at h
  · split at h
    · rename_i rows hrows
      cases h
      have hmem := hrows.symm ▸ List.mem_singleton.mpr rfl
      exact List.mem_of_mem_filter hmem
    · cases h
  · cases h

/-! ## Operation -/

/-- The states at rest of a system that is run for a while, by any requests and
workers and with any failures and crashes, and whose partitions are dropped now
and then. -/
inductive Operated (merchants : List Merchant) : World → Prop where
  | start : Operated merchants (World.start merchants)
  | run {w : World} {c : Config services PyError} : Operated merchants w →
      Reach anyConsumers (Config.idle w) c → Operated merchants c.world.settle
  | drop {w : World} (days : List DateTime) : Operated merchants w →
      Operated merchants { w with db := w.db.dropPartitions days }

/-- What holds in every such state. -/
structure Resting (w : World) : Prop where
  coherent : Coherent w
  retained : Retained w.db
  idle : ∀ j, NoTx j w

theorem Operated.resting {merchants : List Merchant} {w : World}
    (h : Operated merchants w) : Resting w := by
  have hs : Sound anyConsumers (Inv fun h => Retained h.db) NoTx :=
    sound_events (fun _ _ hp => hp) (fun hr hnew => hr.overlay hnew)
      fun hr hidem hraw => hr.of_eq hidem hraw
  induction h with
  | start => exact ⟨coherent_start merchants, .start merchants, fun _ => rfl⟩
  | @run w c _ hc ih =>
      obtain ⟨hw, hr⟩ : Coherent c.world ∧ Retained c.world.db :=
        (reach_wp hs (good_idle hs ⟨ih.coherent, ih.retained⟩ ih.idle) hc).1
      exact {
        coherent := ⟨by simp [World.settle], by simp [World.settle],
          hw.raw_issued⟩
        retained := hr
        idle := fun _ => rfl }
  | @drop w days _ ih =>
      exact {
        coherent := ⟨ih.coherent.disjoint, ih.coherent.pending_issued,
          fun r hr => ih.coherent.raw_issued r (List.mem_of_mem_filter hr)⟩
        retained := ih.retained.drop days
        idle := ih.idle }

theorem Resting.serving {w : World} (h : Resting w) : Serving w :=
  ⟨h.idle, h.retained.keyed, h.coherent.raw_issued⟩

/-! ## Resubmission -/

/-- The event is answered as a duplicate, with its key and the identifier the
key has claimed. -/
structure Recalled (db : Db) (e : EventIngest) (x : EventIngestResponse) :
    Prop where
  key : x.idempotency_key = e.idempotency_key
  duplicate : x.duplicate = true
  event_id : ⟨e.idempotency_key, x.event_id⟩ ∈ db.event_idempotency

/-- The request succeeds, inserts nothing and recalls its events. -/
structure Recalls {α : Type} (i : ℕ) (w : World) (p : Service α)
    (events : List EventIngest) (responses : α → List EventIngestResponse) :
    Prop where
  runs : ∃ x w', Eval (M := services) noFailure i p w x w'
  answers : ∀ x w', Eval (M := services) noFailure i p w x w' →
    w'.db = w.db ∧ ∃ a, x = .ok a ∧
      List.Forall₂ (Recalled w.db) events (responses a)

/-- One by one and as a batch. -/
structure Resubmits (i : ℕ) (w : World) (payload : BatchEventIngest) :
    Prop where
  events : ∀ e ∈ payload.events,
    Recalls i w (ingestEventRequest e) [e] fun a => [a.1]
  batch : Recalls i w (ingestBatchRequest payload) payload.events (·.events)

/-- The merchant is registered, and the event of the key is still in the log. -/
structure StillThere (db : Db) (e : EventIngest) : Prop where
  merchant : db.hasMerchant e.merchant_id
  row : ∃ row ∈ db.raw_events, row.idempotency_key = e.idempotency_key

section Resubmission

variable {i : ℕ} {w : World} {e : EventIngest} {payload : BatchEventIngest}

theorem StillThere.claimed (hr : Retained w.db) (h : StillThere w.db e) :
    e.idempotency_key ∈ w.db.claimedKeys := by
  obtain ⟨row, hrow, hk⟩ := h.row
  exact List.mem_map.mpr ⟨row.claim, hr.claims row hrow, hk⟩

theorem StillThere.text (hr : Retained w.db) (h : StillThere w.db e) :
    hasNul e.idempotency_key = false := by
  obtain ⟨row, hrow, hk⟩ := h.row
  exact hk ▸ hr.text row.claim (hr.claims row hrow)

/-- A response made from a kept event recalls it. -/
theorem recalled_response {db : Db} (hr : Retained db) {row : RawEvent}
    (hrow : row ∈ db.raw_events)
    (hk : row.idempotency_key = e.idempotency_key) :
    Recalled db e (row.response true) :=
  ⟨hk, rfl, hk ▸ hr.claims row hrow⟩

theorem Resting.recalls_event (h : Resting w)
    (hsupply : w.issued.entries.length + 1 ≤ 2 ^ 128)
    (hthere : StillThere w.db e) :
    Recalls i w (ingestEventRequest e) [e] fun a => [a.1] where
  runs := exists_eval_service false (metered_draws.ingestEventRequest e)
    (fun j _ => h.idle j) (by rwa [Nat.zero_add])
  answers := by
    intro x w' he
    obtain ⟨kept, hkept, hk⟩ := hthere.row
    have hfind : w.db.storedEvent? e.idempotency_key = some kept :=
      hk ▸ h.retained.storedEvent? hkept
    have hkey := hthere.claimed h.retained
    have hout := h.serving.event he
    generalize w'.db = db' at hout ⊢
    cases hout with
    | refused hno =>
        refine absurd ?_ hno
        exact ⟨hthere.merchant, hthere.text h.retained, fun _ => ⟨kept, hfind⟩,
          absurd hkey⟩
    | found _ _ hrow =>
        obtain rfl := Option.some.inj (hfind.symm.trans hrow)
        exact ⟨rfl, _, rfl, .cons (recalled_response h.retained hkept hk) .nil⟩
    | new hnew _ _ _ => exact absurd hkey hnew.unclaimed

/-- An event recalled alone is still in the log: its claim is not answered
without it. -/
theorem Resting.still_there (h : Resting w)
    (hr : Recalls i w (ingestEventRequest e) [e] fun a => [a.1]) :
    StillThere w.db e := by
  obtain ⟨x, w', he⟩ := hr.runs
  obtain ⟨-, a, rfl, hall⟩ := hr.answers x w' he
  obtain ⟨y, _, hrecalled, -, heq⟩ := List.forall₂_cons_left_iff.mp hall
  obtain rfl : a.1 = y := (List.cons.inj heq).1
  have hout := h.serving.event he
  generalize w'.db = db' at hout
  cases hout with
  | @found row hacc _ hrow =>
      exact ⟨hacc.merchant, row, mem_of_storedEvent? hrow, hrecalled.key⟩
  | new _ _ _ _ => cases hrecalled.duplicate

/-! ## A batch of duplicates -/

theorem unclaimed_eq_nil {db : Db} {events : List EventIngest}
    (h : ∀ e ∈ events, e.idempotency_key ∈ db.claimedKeys) :
    db.unclaimed events = [] :=
  List.filter_eq_nil_iff.mpr fun e he => by simpa using h e he

/-- What the lookup by keys finds of a kept event. -/
theorem Retained.recalled? {db : Db} {row : RawEvent} {key : String}
    (hrow : row ∈ db.raw_events) (hk : row.idempotency_key = key) :
    ∃ r ∈ db.raw_events, r.idempotency_key = key ∧
      db.recalled? key = some r := by
  have hmem : row ∈ db.raw_events.filter (·.idempotency_key = key) :=
    List.mem_filter.mpr ⟨hrow, decide_eq_true hk⟩
  cases hlast : db.recalled? key with
  | none =>
      rw [List.getLast?_eq_none_iff.mp hlast] at hmem
      cases hmem
  | some r =>
      obtain ⟨hr, hrk⟩ := List.mem_filter.mp (List.mem_of_getLast? hlast)
      exact ⟨r, hr, of_decide_eq_true hrk, rfl⟩

/-- All its keys claimed and all its events kept: a batch recalls them. -/
theorem Responses.recalls {db : Db} {events : List EventIngest}
    {rows : List RawEvent} {responses : List EventIngestResponse}
    (h : Responses db events rows responses) (hr : Retained db)
    (hkeys : ∀ e ∈ events, e.idempotency_key ∈ db.claimedKeys)
    (hrows : ∀ e ∈ events, ∃ row ∈ db.raw_events,
      row.idempotency_key = e.idempotency_key) :
    List.Forall₂ (Recalled db) events responses := by
  have hflags : List.Forall₂ (fun e x => x.idempotency_key = e.idempotency_key ∧
      x.duplicate = decide (e.idempotency_key ∈ db.claimedKeys)) events
      responses := by
    have hsame := List.forall₂_eq_eq_eq ▸ h.flags
    rw [List.forall₂_map_left_iff, List.forall₂_map_right_iff] at hsame
    exact hsame.flip.imp fun _ _ heq => Prod.mk.inj heq
  rw [List.forall₂_iff_zip] at hflags ⊢
  refine ⟨hflags.1, fun {e x} hzip => ?_⟩
  obtain ⟨he, hx⟩ := List.of_mem_zip hzip
  obtain ⟨hk, hdup⟩ := hflags.2 hzip
  rw [decide_eq_true (hkeys e he)] at hdup
  obtain ⟨row, hrow, hrowKey⟩ := hrows e he
  obtain ⟨r, hmem, hrk, hlast⟩ := Retained.recalled? hrow hrowKey
  have hfound := h.recalled x hx hdup
  rw [hk, hlast] at hfound
  rw [hfound]
  exact recalled_response hr hmem hrk

theorem Resting.recalls_batch (h : Resting w)
    (hsupply : w.issued.entries.length + payload.events.length ≤ 2 ^ 128)
    (hthere : ∀ e ∈ payload.events, StillThere w.db e) :
    Recalls i w (ingestBatchRequest payload) payload.events (·.events) where
  runs := exists_eval_service false (metered_draws.ingestBatchRequest payload)
    (fun j _ => h.idle j) (by rwa [Nat.mul_one, Nat.add_zero, Nat.zero_add])
  answers := by
    intro x w' he
    have hkeys : ∀ e ∈ payload.events,
        e.idempotency_key ∈ w.db.claimedKeys :=
      fun e he => (hthere e he).claimed h.retained
    have hnil := unclaimed_eq_nil hkeys
    have hout := h.serving.batch he
    generalize w'.db = db' at hout ⊢
    cases hout with
    | refused hno =>
        refine absurd ?_ hno
        exact {
          merchants := fun e he => (hthere e he).merchant
          storable := ⟨fun e he => (hthere e he).text h.retained,
            by simp [hnil], by simp [hnil]⟩
          counts := fun hne => absurd hnil hne }
    | aborted hfails _ _ => cases hfails
    | @stored rows claims responses _ hbatch hresp =>
        refine ⟨?_, _, rfl, hresp.recalls h.retained hkeys
          fun e he => (hthere e he).row⟩
        rw [if_neg (by simp)]
        exact (hbatch.nothing hnil).2

end Resubmission

/-- **Resubmission**: whatever has been ingested and dropped, a batch is
recalled, and each of its events alone, if and only if the merchants are
registered and no event of its keys has been dropped. -/
theorem resubmission_recalls_iff (merchants : List Merchant) {w : World}
    (hw : Operated merchants w) (i : ℕ) (payload : BatchEventIngest)
    (hsupply : w.issued.entries.length + 500 ≤ 2 ^ 128) :
    Resubmits i w payload ↔ ∀ e ∈ payload.events, StillThere w.db e := by
  have hrest := hw.resting
  have hlength := payload.length_range.2
  constructor
  · intro h e he
    exact hrest.still_there (h.events e he)
  · intro hthere
    exact ⟨fun e he => hrest.recalls_event (by omega) (hthere e he),
      hrest.recalls_batch (by omega) hthere⟩

/-! ## Two retentions of one event -/

namespace Sample

def resubmitted : BatchEventIngest :=
  ⟨[payment 'a' 250], by decide, by decide⟩

/-- An event is ingested, then partitions are dropped. -/
theorem exists_dropped (days : List DateTime) {P : World → Bool}
    (h : ((Config.idle (World.start merchants)).replay?
      (fun _ _ _ _ => true) (ingest 0 (payment 'a' 250) 1 3)).map (fun c =>
        P { c.world.settle with db := c.world.db.dropPartitions days }) =
      some true) : ∃ w, Operated merchants w ∧ P w = true := by
  obtain ⟨c, hc, hP⟩ := Option.map_eq_some_iff.mp h
  refine ⟨_, .drop days (.run .start ?_), hP⟩
  refine reach_of_replay? (fun _ _ _ _ _ => trivial) ?_ hc
  rw [admits_ingest]
  exact .ingestEvent _

end Sample

/-- The partition of another day is dropped. -/
theorem resubmission_recalls_kept : ∃ w, Operated Sample.merchants w ∧
    Resubmits 0 w Sample.resubmitted := by
  obtain ⟨w, hw, hP⟩ := Sample.exists_dropped [Sample.midnight 5 1]
    (P := fun w => decide (w.db.merchants = Sample.merchants ∧
      w.db.raw_events = [Sample.row (Sample.payment 'a' 250) 1 3] ∧
      w.issued.entries.length + 500 ≤ 2 ^ 128)) (by decide +kernel)
  obtain ⟨hmerchants, hrows, hsupply⟩ := of_decide_eq_true hP
  refine ⟨w, hw, (resubmission_recalls_iff Sample.merchants hw 0
    Sample.resubmitted hsupply).mpr ?_⟩
  simp only [Sample.resubmitted, List.forall_mem_singleton]
  constructor
  · refine ⟨⟨7, "Acme"⟩, ?_, rfl⟩
    rw [hmerchants]
    exact List.mem_singleton.mpr rfl
  · refine ⟨Sample.row (Sample.payment 'a' 250) 1 3, ?_, rfl⟩
    rw [hrows]
    exact List.mem_singleton.mpr rfl

/-- The partition of the event is dropped. Its claim is still there, and the
request for the event fails. -/
theorem dropped_event_not_recalled : ∃ w, Operated Sample.merchants w ∧
    (⟨"a", 1⟩ ∈ w.db.event_idempotency ∧ w.db.merchants = Sample.merchants) ∧
    ¬ Resubmits 0 w Sample.resubmitted := by
  obtain ⟨w, hw, hP⟩ := Sample.exists_dropped [Sample.midnight 5 2]
    (P := fun w => decide ((⟨"a", 1⟩ ∈ w.db.event_idempotency ∧
      w.db.merchants = Sample.merchants) ∧
      (evalWith (M := services) (Call.lets false) 0
        ([.clock (Sample.instant 4), .auto, .clock (Sample.instant 4),
          .uuid 2] ++ List.replicate 5 .auto)
        (ingestEventRequest (Sample.payment 'a' 250)) w).map (fun r => !r.1.isOk) =
          some true)) (by decide +kernel)
  obtain ⟨hclaimed, hrun⟩ := of_decide_eq_true hP
  refine ⟨w, hw, hclaimed, fun h => ?_⟩
  obtain ⟨x, w', he, herr⟩ := exists_eval_of_evalWith
    (P := fun x => !x.isOk) (fun _ _ => notifying_of_lets) hrun
  obtain ⟨-, a, rfl, -⟩ :=
    (h.events _ (List.mem_singleton.mpr rfl)).answers x w' he
  cases herr

end AnalyticsPipeline
