import AnalyticsPipeline.Guarantees.ExactlyOnce
import AnalyticsPipeline.Metatheory.SolitaryIngestBatch

/-!
# A batch against its events one by one

Storing a batch agrees with storing its events one after another exactly when no
new key is repeated in it. A repeated key finds its own event when the requests
come one by one; the batch gives the events of one key the same identifier and
the same instant, and the primary key refuses the whole batch.
-/

namespace AnalyticsPipeline

open Framework

/-! ## Requests at rest -/

/-- Nobody is at work. -/
structure AtRest (w : World) : Prop where
  coherent : Coherent w
  deduplicated : Deduplicated w.db
  idle : ∀ j, w.txs.get? j = none
  counts : Counts w.redis

/-- The state once every open transaction is gone. -/
def World.settle (w : World) : World := { w with txs := ∅ }

theorem reach_atRest {merchants : List Merchant} {c : Config services PyError}
    (hc : Reach anyConsumers (Config.idle (World.start merchants)) c) :
    AtRest c.world.settle := by
  obtain ⟨hw, hs⟩ : Coherent c.world ∧ Serial (fun _ _ _ => True)
      (History.start merchants) c.world.toHistory :=
    reach_serial (fun _ _ hp => hp) (fun _ _ _ _ => trivial) hc
  exact {
    coherent := ⟨by simp [World.settle], by simp [World.settle], hw.raw_issued⟩
    deduplicated := hs.deduplicated (deduplicated_start merchants)
    idle := by simp [World.settle]
    counts := reach_counts (fun _ _ hp => hp) hc }

section AtRest

variable {w w' : World} {i : ℕ}

theorem AtRest.at (h : AtRest w) (i : ℕ) :
    At i w.toHistory w.redis w.issued none w :=
  ⟨rfl, rfl, rfl, h.idle i⟩

/-- What an ingest request keeps when it runs alone. -/
theorem AtRest.after {α : Type} {p : Service α} {x : Except PyError α}
    (h : AtRest w) (he : Eval (M := services) noFailure i p w x w')
    (hwp : Wp anyConsumers (Inv fun h => Deduplicated h.db) i p
      (fun _ w => w.txs.get? i = none) w)
    (hat : ∃ h' r' d', At i h' r' d' none w' ∧ (Counts w.redis → Counts r')) :
    AtRest w' := by
  obtain ⟨-, hw', hd'⟩ := Wp.eval ⟨h.coherent, h.deduplicated⟩ hwp
    (fun _ _ _ _ => trivial) he
  obtain ⟨h', r', d', hat, hcounts⟩ := hat
  exact ⟨hw', hd', idle_of_eval h.idle he hat.tx, hat.redis ▸ hcounts h.counts⟩

theorem ingests_deduplicated :
    Ingests anyConsumers fun h => Deduplicated h.db :=
  fun hw _ _ _ hi => hi.events.deduplicates hw.2

theorem AtRest.ingestEvent {e : EventIngest}
    {x : Except PyError (EventIngestResponse × Bool)} (h : AtRest w)
    (he : Eval (M := services) noFailure i (ingestEventRequest e) w x w') :
    AtRest w' ∧ EventOutcome false w.db w.redis e x w'.db := by
  obtain ⟨h', r', d', hat, hcounts, hout⟩ := after_ingestEventRequest
    (h.at i) h.coherent.raw_issued h.deduplicated.keyed _ _ he
  refine ⟨h.after he (wp_ingestEventRequest e
    (ingests_deduplicated.prepares fun _ hS => hS) (h.idle i)) ⟨h', r', d', hat, hcounts⟩, ?_⟩
  rwa [show w'.db = h'.db from congrArg History.db hat.history]

theorem AtRest.ingestBatch {payload : BatchEventIngest}
    {x : Except PyError BatchIngestResponse} (h : AtRest w)
    (he : Eval (M := services) noFailure i (ingestBatchRequest payload) w x w') :
    AtRest w' ∧ BatchIngestOutcome false w.db w.redis payload.events x w'.db := by
  obtain ⟨h', r', d', hat, hcounts, hout⟩ := after_ingestBatchRequest
    (h.at i) h.coherent.raw_issued h.deduplicated.keyed _ _ he
  refine ⟨h.after he (wp_ingestBatchRequest payload
    (ingests_deduplicated.prepares fun _ hS => hS) (h.idle i)) ⟨h', r', d', hat, hcounts⟩, ?_⟩
  rwa [show w'.db = h'.db from congrArg History.db hat.history]

end AtRest

/-! ## One event after another -/

/-- The answers to events ingested in turn, and the tables they leave. -/
inductive InTurn : Db → List EventIngest → List (EventIngestResponse × Bool) →
    Db → Prop where
  | nil {db : Db} : InTurn db [] [] db
  | found {db db' : Db} {e : EventIngest} {events : List EventIngest}
      {answers : List (EventIngestResponse × Bool)} {row : RawEvent} :
      e.idempotency_key ∈ db.claimedKeys →
      row.idempotency_key = e.idempotency_key → InTurn db events answers db' →
      InTurn db (e :: events) ((row.response true, true) :: answers) db'
  | new {db db' : Db} {e : EventIngest} {events : List EventIngest}
      {answers : List (EventIngestResponse × Bool)} {v : RawValues DateTime}
      {row : RawEvent} :
      NewEvent db e v → row.content = v →
      row.idempotency_key = e.idempotency_key →
      InTurn ((ingestWrites [row] [row.claim]).overlay db) events answers db' →
      InTurn db (e :: events) ((row.response false, false) :: answers) db'

section InTurn

variable {w w' : World} {i : ℕ} {db db' : Db} {e : EventIngest}
  {events : List EventIngest} {answers : List (EventIngestResponse × Bool)}

@[simp] theorem claimedKeys_overlay (rows : List RawEvent)
    (claims : List EventIdempotency) :
    ((ingestWrites rows claims).overlay db).claimedKeys =
      db.claimedKeys ++ claims.map (·.idempotency_key) := by
  simp [Db.claimedKeys, ingestWrites]

/-- What can be ingested still can after another event. -/
theorem Ingestible.overlay (h : Ingestible db e) (rows : List RawEvent)
    (claims : List EventIdempotency) :
    Ingestible ((ingestWrites rows claims).overlay db) e where
  merchant := by
    obtain ⟨m, hm, hid⟩ := h.merchant
    exact ⟨m, List.mem_append_left _ hm, hid⟩
  key_text := h.key_text
  columns := by
    rw [claimedKeys_overlay]
    exact h.columns.imp_left (List.mem_append_left _)

theorem eval_inTurn {x : Except PyError (List (EventIngestResponse × Bool))}
    (h : AtRest w) (hing : ∀ e ∈ events, Ingestible w.db e)
    (he : Eval (M := services) noFailure i (events.mapM ingestEventRequest) w x
      w') :
    ∃ answers, x = .ok answers ∧ AtRest w' ∧ InTurn w.db events answers w'.db := by
  induction events generalizing w x with
  | nil =>
      obtain ⟨rfl, rfl⟩ := eval_ret_iff.mp he
      exact ⟨[], rfl, h, .nil⟩
  | cons e events ih =>
      rw [List.mapM_cons] at he
      have hstep : ∀ r w₁, Eval (M := services) noFailure i
          (ingestEventRequest e) w r w₁ → ∃ a, r = .ok a ∧ AtRest w₁ ∧
            (∀ e' ∈ events, Ingestible w₁.db e') ∧
            ∀ answers db', InTurn w₁.db events answers db' →
              InTurn w.db (e :: events) (a :: answers) db' := by
        intro r w₁ he₁
        obtain ⟨h₁, hout⟩ := h.ingestEvent he₁
        have hrest : ∀ e' ∈ events, Ingestible w.db e' :=
          fun e' he' => hing e' (.tail e he')
        generalize w₁.db = db₁ at hout ⊢
        cases hout with
        | refused hno =>
            exact absurd ((hing e List.mem_cons_self).acceptable h.deduplicated
              h.counts) hno
        | found _ hkey hfind =>
            obtain ⟨row, -, hk, hrow⟩ := h.deduplicated.storedEvent? hkey
            obtain rfl := Option.some.inj (hfind.symm.trans hrow)
            exact ⟨_, rfl, h₁, hrest, fun _ _ hturn => .found hkey hk hturn⟩
        | new hnew _ hcontent hk =>
            exact ⟨_, rfl, h₁, fun e' he' => (hrest e' he').overlay _ _,
              fun _ _ hturn => .new hnew hcontent hk hturn⟩
      rcases eval_bind_iff.mp he with ⟨a, w₁, he₁, he₂⟩ | ⟨err, he₁, -⟩
      · obtain ⟨a', ha, h₁, hing₁, hturn⟩ := hstep _ _ he₁
        cases ha
        rcases eval_bind_iff.mp he₂ with ⟨answers, w₂, he₂, he₃⟩ | ⟨err, he₂, -⟩
        · obtain ⟨rfl, rfl⟩ := eval_ret_iff.mp he₃
          obtain ⟨answers', hans, h₂, hin⟩ := ih h₁ hing₁ he₂
          cases hans
          exact ⟨_, rfl, h₂, hturn _ _ hin⟩
        · obtain ⟨_, hans, -⟩ := ih h₁ hing₁ he₂
          cases hans
      · obtain ⟨_, ha, -⟩ := hstep _ _ he₁
        cases ha

/-- Storing an event claims none of the new keys still to come. -/
theorem claimed_overlay_iff {row : RawEvent}
    (hk : row.idempotency_key ∉ (db.unclaimed events).map (·.idempotency_key))
    (he : e ∈ events) :
    e.idempotency_key ∈
        ((ingestWrites [row] [row.claim]).overlay db).claimedKeys ↔
      e.idempotency_key ∈ db.claimedKeys := by
  rw [claimedKeys_overlay, List.mem_append, List.map_singleton,
    List.mem_singleton, or_iff_left_iff_imp]
  intro heq
  by_contra hnew
  refine hk (List.mem_map.mpr ⟨e, ?_, heq⟩)
  exact List.mem_filter.mpr ⟨he, decide_eq_true hnew⟩

theorem unclaimed_overlay {row : RawEvent}
    (hk : row.idempotency_key ∉ (db.unclaimed events).map (·.idempotency_key)) :
    ((ingestWrites [row] [row.claim]).overlay db).unclaimed events =
      db.unclaimed events := by
  refine List.filter_congr fun e he => ?_
  rw [decide_eq_decide, claimed_overlay_iff hk he]

/-- Different new keys: each event is answered as the tables were at first. -/
theorem InTurn.summary (h : InTurn db events answers db')
    (hnd : ((db.unclaimed events).map (·.idempotency_key)).Nodup) :
    answers.map (fun a => (a.1.idempotency_key, a.1.duplicate)) =
      events.map (fun e =>
        (e.idempotency_key, decide (e.idempotency_key ∈ db.claimedKeys))) ∧
    db'.claimedKeys =
      db.claimedKeys ++ (db.unclaimed events).map (·.idempotency_key) ∧
    ∃ vs, (db.unclaimed events).mapM EventIngest.columns = .ok vs ∧
      db'.raw_events.map RawEvent.content =
        db.raw_events.map RawEvent.content ++ vs := by
  induction h with
  | nil => exact ⟨rfl, by simp [Db.unclaimed], [], rfl, by simp⟩
  | @found db db' e events answers row hkey hk _ ih =>
      have hskip : db.unclaimed (e :: events) = db.unclaimed events :=
        List.filter_cons_of_neg (by simpa using hkey)
      rw [hskip] at hnd ⊢
      obtain ⟨hanswers, hrest⟩ := ih hnd
      refine ⟨?_, hrest⟩
      rw [List.map_cons, List.map_cons, hanswers]
      simp [RawEvent.response, hk, hkey]
  | @new db db' e events answers v row hnew hcontent hk _ ih =>
      have hkeep : db.unclaimed (e :: events) = e :: db.unclaimed events :=
        List.filter_cons_of_pos (by simpa using hnew.unclaimed)
      rw [hkeep, List.map_cons, List.nodup_cons] at hnd
      have hkeys' : row.idempotency_key ∉
          (db.unclaimed events).map (·.idempotency_key) := hk.symm ▸ hnd.1
      rw [unclaimed_overlay hkeys'] at ih
      obtain ⟨hanswers, hkeys, vs, hvs, hraw⟩ := ih hnd.2
      rw [hkeep]
      refine ⟨?_, ?_, v :: vs, ?_, ?_⟩
      · rw [List.map_cons, List.map_cons, hanswers]
        congr 1
        · simp [RawEvent.response, hk, hnew.unclaimed]
        · refine List.map_congr_left fun e' he' => ?_
          rw [decide_eq_decide.mpr (claimed_overlay_iff hkeys' he')]
      · rw [hkeys, claimedKeys_overlay]
        simp [RawEvent.claim, hk]
      · rw [mapM_eq_ok_iff] at hvs ⊢
        exact .cons hnew.columns hvs
      · rw [hraw]
        simp [ingestWrites, hcontent]

end InTurn

/-! ## Agreement -/

/-- A request for the event alone succeeds. -/
def Accepts (i : ℕ) (w : World) (e : EventIngest) : Prop :=
  ∃ a w', Eval (M := services) noFailure i (ingestEventRequest e) w (.ok a) w'

/-- The batch with this response and the requests with these answers did the
same, up to generated identifiers and instants. -/
structure SameIngest (events : List EventIngest) (response : BatchIngestResponse)
    (db : Db) (answers : List (EventIngestResponse × Bool)) (db' : Db) :
    Prop where
  raw_events : (db.raw_events.map RawEvent.content).Perm
    (db'.raw_events.map RawEvent.content)
  event_idempotency : db.claimedKeys.Perm db'.claimedKeys
  /-- In both a claimed key names the event with that key. -/
  deduplicated : Deduplicated db ∧ Deduplicated db'
  keys : response.events.map (·.idempotency_key) =
    events.map (·.idempotency_key)
  answers : response.events.map (fun x => (x.idempotency_key, x.duplicate)) =
    answers.map fun a => (a.1.idempotency_key, a.1.duplicate)
  total : response.accepted + response.duplicates = events.length
  accepted : response.accepted = (response.events.countP (!·.duplicate) : ℤ)

/-- `ingest_batch` succeeds and agrees with `ingest_event` in a loop. -/
structure BatchAgrees (i : ℕ) (w : World) (payload : BatchEventIngest) :
    Prop where
  runs : ∃ x w', Eval (M := services) noFailure i (ingestBatchRequest payload)
    w x w'
  succeeds : ∀ x w', Eval (M := services) noFailure i
    (ingestBatchRequest payload) w x w' → ∃ response, x = .ok response
  sequence : ∃ answers w', Eval (M := services) noFailure i
    (payload.events.mapM ingestEventRequest) w (.ok answers) w'
  same : ∀ {response w₁ answers w₂},
    Eval (M := services) noFailure i (ingestBatchRequest payload) w
      (.ok response) w₁ →
    Eval (M := services) noFailure i (payload.events.mapM ingestEventRequest) w
      (.ok answers) w₂ →
    SameIngest payload.events response w₁.db answers w₂.db

section Agreement

variable {w w' : World} {i : ℕ} {e : EventIngest} {payload : BatchEventIngest}

theorem AtRest.ingestible (h : AtRest w) (ha : Accepts i w e) :
    Ingestible w.db e := by
  obtain ⟨a, w', he⟩ := ha
  obtain ⟨-, hout⟩ := h.ingestEvent he
  generalize w'.db = db' at hout
  cases hout with
  | found hacc _ _ => exact hacc.ingestible
  | new hnew hcounts _ _ => exact (hnew.acceptable hcounts).ingestible

/-- Only a repeated new key makes a batch of ingestible events fail. -/
theorem AtRest.batchIngestible (h : AtRest w) {events : List EventIngest}
    (hing : ∀ e ∈ events, Ingestible w.db e)
    (hnd : ((w.db.unclaimed events).map (·.idempotency_key)).Nodup) :
    BatchIngestible w.db w.redis events where
  merchants := fun e he => (hing e he).merchant
  storable := ⟨fun e he => (hing e he).key_text, fun e he => by
    obtain ⟨he, hnew⟩ := List.mem_filter.mp he
    exact (hing e he).columns.resolve_left (of_decide_eq_true hnew), hnd⟩
  counts := fun _ => h.counts

theorem AtRest.batch_succeeds (h : AtRest w)
    (hing : BatchIngestible w.db w.redis payload.events)
    {x : Except PyError BatchIngestResponse}
    (he : Eval (M := services) noFailure i (ingestBatchRequest payload) w x w') :
    ∃ rows claims responses,
      x = .ok ⟨rows.length, payload.events.length - rows.length, responses⟩ ∧
      StoredBatch w.db payload.events rows claims ∧
      Responses w.db payload.events rows responses ∧
      w'.db = (ingestWrites rows claims).overlay w.db := by
  obtain ⟨-, hout⟩ := h.ingestBatch he
  generalize w'.db = db' at hout ⊢
  cases hout with
  | refused hno => exact absurd hing hno
  | aborted hfails _ _ => cases hfails
  | stored _ hbatch hresp =>
      exact ⟨_, _, _, rfl, hbatch, hresp, if_neg (by simp)⟩

/-- The new events are the ones accepted. -/
theorem Responses.countP {db : Db} {events : List EventIngest}
    {rows : List RawEvent} {responses : List EventIngestResponse}
    (h : Responses db events rows responses) :
    responses.countP (!·.duplicate) = (db.unclaimed events).length := by
  have hflags := congrArg (List.map Prod.snd) h.flags
  rw [List.map_map, List.map_map] at hflags
  have hresponses : responses.countP (!·.duplicate) =
      (responses.map (·.duplicate)).countP (! ·) := by
    rw [List.countP_map]
    rfl
  have hevents : (db.unclaimed events).length = (events.map fun e =>
      decide (e.idempotency_key ∈ db.claimedKeys)).countP (! ·) := by
    rw [List.countP_map, Db.unclaimed, ← List.countP_eq_length_filter]
    refine List.countP_congr fun e _ => ?_
    simp
  rw [hresponses, hevents]
  exact congrArg _ hflags

theorem AtRest.sameIngest (h : AtRest w)
    (hing : BatchIngestible w.db w.redis payload.events)
    (hall : ∀ e ∈ payload.events, Ingestible w.db e)
    {response : BatchIngestResponse} {w₁ w₂ : World}
    {answers : List (EventIngestResponse × Bool)}
    (hbatch : Eval (M := services) noFailure i (ingestBatchRequest payload) w
      (.ok response) w₁)
    (hturns : Eval (M := services) noFailure i
      (payload.events.mapM ingestEventRequest) w (.ok answers) w₂) :
    SameIngest payload.events response w₁.db answers w₂.db := by
  obtain ⟨rows, claims, responses, hok, hstored, hresp, hdb⟩ :=
    h.batch_succeeds hing hbatch
  obtain ⟨answers', hok', h₂, hturn⟩ := eval_inTurn h hall hturns
  cases hok
  cases hok'
  obtain ⟨hanswers, hkeys, vs, hvs, hraw⟩ := hturn.summary hstored.storable.distinct
  have hcontent : rows.map RawEvent.content = vs := by
    have hsame := hstored.stored.mapM_columns
    rw [hvs] at hsame
    exact (Except.ok.inj hsame).symm
  have hlength : rows.length = (w.db.unclaimed payload.events).length :=
    hstored.stored.length_eq.symm
  exact {
    raw_events := by
      rw [hdb, hraw, Db.overlay_raw_events, List.map_append, ← hcontent]
      exact .refl _
    event_idempotency := by
      rw [hdb, hkeys, claimedKeys_overlay]
      exact hstored.keys.append_left _
    deduplicated := ⟨(h.ingestBatch hbatch).1.deduplicated, h₂.deduplicated⟩
    keys := by
      have hfst := congrArg (List.map Prod.fst) hresp.flags
      rwa [List.map_map, List.map_map] at hfst
    answers := hresp.flags.trans hanswers.symm
    total := by
      dsimp only
      omega
    accepted := by
      dsimp only
      rw [hresp.countP, hlength] }

theorem draws_inTurn : ∀ events : List EventIngest,
    Prog.Within Call.draws events.length (events.mapM ingestEventRequest)
  | [] => .ret
  | e :: events => by
      rw [List.mapM_cons, List.length_cons, Nat.add_comm]
      refine Prog.Within.bind (metered_draws.ingestEventRequest e) fun a => ?_
      exact Prog.Within.bind (n := 0) (draws_inTurn events) fun _ => .ret

end Agreement

/-- **Batch against sequence**: in every reachable state of the tables, for
every batch whose events can be ingested one by one, `ingest_batch` succeeds
and agrees with `ingest_event` in a loop if and only if no key that is not
stored yet occurs twice in the batch. -/
theorem batch_agrees_iff (merchants : List Merchant)
    {c : Config services PyError}
    (hc : Reach anyConsumers (Config.idle (World.start merchants)) c) (i : ℕ)
    (payload : BatchEventIngest)
    (haccepts : ∀ e ∈ payload.events, Accepts i c.world.settle e)
    (hsupply : c.world.issued.entries.length + payload.events.length ≤ 2 ^ 128) :
    BatchAgrees i c.world.settle payload ↔
      ((c.world.db.unclaimed payload.events).map (·.idempotency_key)).Nodup := by
  have hrest := reach_atRest hc
  have hall : ∀ e ∈ payload.events, Ingestible c.world.settle.db e :=
    fun e he => hrest.ingestible (haccepts e he)
  have halone : Alone i c.world.settle := fun j _ => hrest.idle j
  constructor
  · intro h
    obtain ⟨x, w', he⟩ := h.runs
    obtain ⟨response, rfl⟩ := h.succeeds x w' he
    obtain ⟨-, hout⟩ := hrest.ingestBatch he
    generalize w'.db = db' at hout
    cases hout with
    | stored hing _ _ => exact hing.storable.distinct
  · intro hnd
    have hing := hrest.batchIngestible hall hnd
    obtain ⟨x, w', he⟩ := exists_eval_service false
      (metered_draws.ingestBatchRequest payload) halone
      (by rw [Nat.mul_one, Nat.add_zero, Nat.zero_add]; exact hsupply)
    obtain ⟨y, w₂, he₂⟩ := exists_eval_service false
      (draws_inTurn payload.events) halone hsupply
    refine ⟨⟨x, w', he⟩, fun x w' he => ?_, ?_, hrest.sameIngest hing hall⟩
    · obtain ⟨rows, claims, responses, rfl, -⟩ := hrest.batch_succeeds hing he
      exact ⟨_, rfl⟩
    · obtain ⟨answers, rfl, -⟩ := eval_inTurn hrest hall he₂
      exact ⟨answers, w₂, he₂⟩

/-! ## Two batches -/

namespace Sample

/-- Enough identifiers and clock readings for a request. -/
def requestChoices (ids : List UUID) (late : Bool) : List Choice :=
  [.clock (instant 1), .auto, .clock (instant 1)] ++ ids.map .uuid ++
    List.replicate (if late then 7 else 6) .auto

theorem accepts_payment (key : Char) (amount_cents : ℕ)
    (h : (evalWith (M := services) (Call.lets false) 0
      (requestChoices [1] false) (ingestEventRequest (payment key amount_cents))
      (World.start merchants).settle).map (fun r => r.1.isOk) = some true) :
    Accepts 0 (World.start merchants).settle (payment key amount_cents) := by
  obtain ⟨x, w', he, hok⟩ := exists_eval_of_evalWith
    (fun _ _ => notifying_of_lets) h
  cases x with
  | error err => cases hok
  | ok a => exact ⟨a, w', he⟩

def pair (key : Char) : BatchEventIngest where
  events := [payment 'a' 250, payment key 250]
  length_range := ⟨Nat.one_le_ofNat, by simp⟩

end Sample

theorem batch_agrees_iff_distinct :
    BatchAgrees 0 (World.start Sample.merchants).settle (Sample.pair 'b') := by
  refine (batch_agrees_iff Sample.merchants .refl 0 (Sample.pair 'b') ?_
    (by decide)).mpr (by decide)
  simp only [Sample.pair, List.forall_mem_cons, List.not_mem_nil, false_imp_iff,
    implies_true, and_true]
  exact ⟨Sample.accepts_payment 'a' 250 (by decide +kernel),
    Sample.accepts_payment 'b' 250 (by decide +kernel)⟩

/-- Each of two events with one new key can be ingested; as a batch they are
refused, since they share their identifier and their instant. -/
theorem repeated_new_key_refused :
    ∃ (c : Config services PyError) (payload : BatchEventIngest),
      Reach anyConsumers (Config.idle (World.start Sample.merchants)) c ∧
      (∀ e ∈ payload.events, Accepts 0 c.world.settle e) ∧
      c.world.issued.entries.length + payload.events.length ≤ 2 ^ 128 ∧
      ¬ BatchAgrees 0 c.world.settle payload := by
  refine ⟨Config.idle (World.start Sample.merchants), Sample.pair 'a', .refl,
    ?_, by decide, fun h => ?_⟩
  · simp only [Sample.pair, List.forall_mem_cons, List.not_mem_nil,
      false_imp_iff, implies_true, and_true, and_self]
    exact Sample.accepts_payment 'a' 250 (by decide +kernel)
  · have hrun : (evalWith (M := services) (Call.lets false) 0
        (Sample.requestChoices [1, 2] true) (ingestBatchRequest (Sample.pair 'a'))
        (World.start Sample.merchants).settle).map (fun r => !r.1.isOk) =
          some true := by decide +kernel
    obtain ⟨x, w', he, herr⟩ := exists_eval_of_evalWith
      (P := fun x => !x.isOk) (fun _ _ => notifying_of_lets) hrun
    obtain ⟨response, rfl⟩ := h.succeeds x w' he
    cases herr

end AnalyticsPipeline
