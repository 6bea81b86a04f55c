import AnalyticsPipeline.Metatheory.RedisKinds
import AnalyticsPipeline.Metatheory.SolitaryIngestBatch

/-!
# Ingestion among others

What an ingest request returns when others act between any two of its calls: its
own calls to Redis and its notification succeed, and what is asked of the others
is their invariant only. A request then fails over an unknown merchant, and over
values no column takes; a key that is lost to another request is no failure.
-/

namespace AnalyticsPipeline

open Framework

/-! ## What is never lost -/

/-- `b` has the events and the claims of `a`. -/
structure Db.Precedes (a b : Db) : Prop where
  raw_events : a.raw_events ⊆ b.raw_events
  event_idempotency : a.event_idempotency ⊆ b.event_idempotency

namespace Db.Precedes

variable {a b c : Db}

theorem refl (a : Db) : a.Precedes a := ⟨fun _ h => h, fun _ h => h⟩

theorem trans (h : a.Precedes b) (h' : b.Precedes c) : a.Precedes c :=
  ⟨fun _ hr => h'.raw_events (h.raw_events hr),
    fun _ hc => h'.event_idempotency (h.event_idempotency hc)⟩

theorem install (ws : Db) : a.Precedes (ws.overlay a) :=
  ⟨List.subset_append_left _ _, List.subset_append_left _ _⟩

theorem overlay (h : a.Precedes b) (ws : Db) :
    (ws.overlay a).Precedes (ws.overlay b) := by
  have happend : ∀ {β : Type} {l l' m : List β}, l ⊆ l' → l ++ m ⊆ l' ++ m :=
    fun hl => List.append_subset.mpr
      ⟨fun _ hx => List.mem_append_left _ (hl hx), List.subset_append_right _ _⟩
  exact ⟨happend h.raw_events, happend h.event_idempotency⟩

theorem claimedKeys (h : a.Precedes b) {key : String} (hkey : key ∈ a.claimedKeys) :
    key ∈ b.claimedKeys :=
  List.map_subset _ h.event_idempotency hkey

/-- What could be stored still can: a key claimed meanwhile asks for less. -/
theorem storable (h : a.Precedes b) {events : List EventIngest}
    (hst : BatchStorable a events) : BatchStorable b events := by
  have hsub : (b.unclaimed events).Sublist (a.unclaimed events) := by
    apply List.monotone_filter_right
    intro e he
    rw [decide_eq_true_eq] at he ⊢
    exact fun hkey => he (h.claimedKeys hkey)
  exact ⟨hst.key_text, fun e he => hst.columns e (hsub.subset he),
    hst.distinct.sublist (hsub.map _)⟩

theorem of_frame {i : ℕ} {w w' : World} (h : Frame i w w') :
    w.db.Precedes w'.db :=
  ⟨h.raw_events.subset, h.event_idempotency.subset⟩

end Db.Precedes

/-! ## Calls that succeed -/

/-- No call of the session fails of itself, and it finds a typed keyspace. -/
structure Attended (pol : ServicePolicy) (i : ℕ) : Prop where
  up : ∀ w c n, ¬ pol.call w i c (.fail n)
  typed : ∀ {w c ch}, pol.call w i c ch → w.redis.Typed

section Calls

variable {pol : ServicePolicy} {S : History → Prop} {i : ℕ} {α : Type}
  {Q : Except PyError α → World → Prop} {w : World} {tx : Tx}

/-- The ingestion counter counts. -/
theorem Attended.wp_record (h : Attended pol i) {count : ℕ}
    {f : Unit → Service α}
    (hnext : ∀ w' r, Interferes pol S i w w' → Inv S w' →
      Wp pol (Inv S) i (f ()) Q { w' with redis := r }) :
    Wp pol (Inv S) i (RedisRepository.recordIngestion count >>= f) Q w := by
  rw [RedisRepository.recordIngestion, RedisRepository.write, bind_assoc,
    perform_bind]
  intro w' hr hi ch x w'' hcall he
  have hlast : ∀ op ∈ [RedisOp.incrby "metrics:ingestion_rate" (count : ℤ),
      .expire "metrics:ingestion_rate" 2], op.Lasts := by
    intro op hop
    simp only [List.mem_cons, List.not_mem_nil, or_false] at hop
    rcases hop with rfl | rfl <;> trivial
  have hok := (h.typed hcall).runAll_ok (Pipeline.record count).fits hlast
  have hx : x = .ok () := by
    cases ch <;> simp only [World.exec, reduceCtorEq, Option.some.injEq,
      Prod.mk.injEq] at he
    · exact he.1.symm.trans hok
    · exact absurd hcall (h.up _ _ _)
  obtain ⟨r, rfl⟩ := exec_quiet rfl he
  subst hx
  exact ⟨⟨hi.1.of_eq rfl rfl rfl, hi.2⟩, hnext w' r hr hi⟩

/-- The notification is sent. -/
theorem Attended.wp_notify (h : Attended pol i) {id : UUID}
    {f : Unit → Service α} (htx : w.txs.get? i = some tx)
    (hopen : tx.aborted = false)
    (hnext : ∀ w', Interferes pol S i w w' → Inv S w' →
      w'.txs.get? i = some tx → Wp pol (Inv S) i (f ()) Q w') :
    Wp pol (Inv S) i (notifyBestEffort id >>= f) Q w := by
  apply AnalyticsPipeline.wp_notify htx hopen hnext
  rintro _ _ _ _ _ ⟨w', payload, n, hfail⟩ _
  exact absurd hfail (h.up _ _ _)

theorem Attended.wp_announce (h : Attended pol i) {rows : List RawEvent}
    {f : Unit → Service α} (hw : Coherent w) (htx : w.txs.get? i = some tx)
    (hopen : tx.aborted = false)
    (hnext : ∀ w', Frame i w w' → Coherent w' → w'.txs.get? i = some tx →
      Wp pol (Inv S) i (f ()) Q w') :
    Wp pol (Inv S) i (IngestionService.announce rows >>= f) Q w := by
  rw [IngestionService.announce]
  cases rows.getLast? with
  | none => exact hnext w (.refl i w) hw htx
  | some last =>
      dsimp only
      rw [bind_assoc]
      apply h.wp_record
      intro w₁ r hr₁ _
      have hf₁ : Frame i w { w₁ with redis := r } :=
        (frame_of_rely hr₁).trans (.of_eq rfl rfl List.prefix_rfl id)
      refine h.wp_notify (w := { w₁ with redis := r }) (hf₁.tx.trans htx) hopen ?_
      intro w₂ hr₂ hi₂ htx₂
      exact hnext w₂ (hf₁.trans (frame_of_rely hr₂)) hi₂.1 htx₂

/-! ### A claimed key -/

/-- The event of a claimed key is found. -/
theorem wp_foundEvent {key : String} {f : RawEvent → Service α}
    (hS : ∀ h, S h → Deduplicated h.db) (htx : w.txs.get? i = some tx)
    (hopen : tx.aborted = false) (hempty : tx.writes = ∅)
    (hkey : key ∈ w.db.claimedKeys)
    (hnext : ∀ w' r, Interferes pol S i w w' → Inv S w' →
      w'.txs.get? i = some tx → r ∈ w'.db.raw_events → r.idempotency_key = key →
      Wp pol (Inv S) i (f r) Q w') :
    Wp pol (Inv S) i (EventRepository.existingEvent key >>= f) Q w := by
  have hview : ∀ w' : World, w'.view tx = w'.db := by
    intro w'
    rw [World.view, hempty, Db.empty_overlay]
  rw [EventRepository.existingEvent, bind_assoc, execute_bind]
  refine wp_read (by simp) (fun _ _ _ => rfl) (fun _ _ _ => rfl) htx hopen ?_
  intro w₁ hr₁ hi₁ htx₁
  have hkey₁ := (Db.Precedes.of_frame (frame_of_rely hr₁)).claimedKeys hkey
  obtain ⟨c, hc, rfl⟩ := List.mem_map.mp hkey₁
  obtain ⟨r, hr, rfl⟩ := ((hS _ hi₁.2).claims c).mp hc
  have hone : w₁.db.event_idempotency.filter
      (·.idempotency_key = r.claim.idempotency_key) = [r.claim] :=
    filter_key_eq (hS _ hi₁.2).keys hc
  dsimp only
  rw [hview, hone, bind_assoc]
  change Wp pol (Inv S) i ((execute (.selectRawEventsById r.id) >>= one) >>= f) Q w₁
  rw [bind_assoc, execute_bind]
  refine wp_read (by simp) (fun _ _ _ => rfl) (fun _ _ _ => rfl) htx₁ hopen ?_
  intro w₂ hr₂ hi₂ htx₂
  have hr' : r ∈ w₂.db.raw_events :=
    (frame_of_rely hr₂).raw_events.subset hr
  dsimp only
  rw [hview, filter_key_eq (hS _ hi₂.2).ids hr']
  exact hnext w₂ r (hr₁.trans hr₂) hi₂ htx₂ hr' rfl

/-! ### A storable batch -/

section Store

variable {events : List EventIngest} {map : Dict String UUID}
  {claims : List EventIdempotency} {occurred_at : DateTime}

/-- The claims won are those of the keys that are still free. -/
theorem Claimed.filter_eq (hd : Drawn i (events.map (·.idempotency_key)) map w)
    (h : Claimed map claims w.db tx) :
    events.filter (·.idempotency_key ∈ claims.map (·.idempotency_key)) =
      w.db.unclaimed events := by
  apply List.filter_congr
  intro e he
  rw [decide_eq_decide]
  constructor
  · intro hwon hkey
    obtain ⟨c, hc, hck⟩ := List.mem_map.mp hwon
    exact h.fresh c hc (hck ▸ hkey)
  · intro hfree
    have hk : e.idempotency_key ∈ map.keys :=
      (hd.keys _).mpr (List.mem_map_of_mem he)
    exact (h.covered _ hk).resolve_right hfree

/-- The rows of storable events are stored. -/
theorem wp_storeRows {f : List RawEvent → Service α}
    (hS : ∀ h, S h → Deduplicated h.db ∧ BatchStorable h.db events)
    (htx : w.txs.get? i = some tx)
    (hd : Drawn i (events.map (·.idempotency_key)) map w)
    (hc : Claimed map claims w.db tx)
    (hnext : ∀ w' tx' rows, Coherent w' → w'.txs.get? i = some tx' →
      Inserted events rows w'.db tx' →
      StoredRows (events.filter
        (·.idempotency_key ∈ claims.map (·.idempotency_key))) rows →
      Wp pol (Inv S) i (f rows) Q w') :
    Wp pol (Inv S) i
      (execute (.insertRawEvents (EventRepository.rawValuesOf events
        (claims.map (·.idempotency_key)) map occurred_at)) >>= f) Q w := by
  have hmap : ∀ e ∈ events.filter
      (·.idempotency_key ∈ claims.map (·.idempotency_key)),
      ∃ u, map.get? e.idempotency_key = some u := by
    intro e he
    exact Dict.mem_keys_iff.mp
      ((hd.keys _).mpr (List.mem_map_of_mem (List.mem_of_mem_filter he)))
  apply wp_store_or htx hd hc
  · intro w' ch err hi hd' hc' hrun w''
    obtain ⟨hdb, hst⟩ := hS _ hi.2
    rw [hc'.filter_eq hd'] at hmap
    have hvalues : EventRepository.rawValuesOf events
        (claims.map (·.idempotency_key)) map occurred_at =
          (w'.db.unclaimed events).filterMap fun e =>
            (map.get? e.idempotency_key).map fun id =>
              e.rawValues id occurred_at := by
      rw [EventRepository.rawValuesOf, hc'.filter_eq hd']
    have hview : (w'.view tx).raw_events = w'.db.raw_events := by
      simp [World.view, hc'.written, Stmt.idempotencyWrites]
    -- no column refuses a value, and no two rows share an identifier
    rcases run_insertRawEvents_fails hrun with ⟨err', hvs⟩ | ⟨vs, hvs, hnd⟩
    · obtain ⟨v, hv, herror⟩ := exists_of_mapM_error hvs
      rw [hvalues] at hv
      obtain ⟨e, he, hv⟩ := List.mem_filterMap.mp hv
      obtain ⟨u, -, rfl⟩ := Option.map_eq_some_iff.mp hv
      obtain ⟨c, hcol⟩ := hst.columns e he
      rw [stored_rawValues, hcol] at herror
      cases herror
    · obtain ⟨hrows, hids⟩ :=
        @mapM_stored_rows _ _ _ tx.now hmap _ hvalues _ hvs
      rw [hview] at hnd
      refine absurd ?_ hnd
      exact (nodup_rows_iff (h := w'.toHistory) hd' rfl hdb.keyed hrows hids).mpr
        hst.distinct
  · intro w' tx' stored hcoh htx' hstored hins
    have hrows := (@mapM_stored_rows _ _ _ tx.now hmap _ rfl _ hstored).1
    exact hnext w' tx' _ hcoh htx' hins hrows

/-- A storable event: the row of its key, or its own. -/
theorem wp_insertStorable {event : EventIngest}
    {f : RawEvent × Bool → Service α}
    (hS : ∀ h, S h → Deduplicated h.db ∧ BatchStorable h.db [event])
    (htx : w.txs.get? i = some tx) (hopen : tx.aborted = false)
    (hempty : tx.writes = ∅)
    (hdup : ∀ w' tx' r, Inv S w' → w'.txs.get? i = some tx' →
      tx'.aborted = false → tx'.writes = ∅ → r ∈ w'.db.raw_events →
      r.idempotency_key = event.idempotency_key →
      Wp pol (Inv S) i (f (r, true)) Q w')
    (hnew : ∀ w' tx' r, Coherent w' → w'.txs.get? i = some tx' →
      Inserted [event] [r] w'.db tx' →
      r.idempotency_key = event.idempotency_key → event.columns = .ok r.content →
      Wp pol (Inv S) i (f (r, false)) Q w') :
    Wp pol (Inv S) i
      (EventRepository.insertEvent event occurred_at >>= f) Q w := by
  rw [EventRepository.insertEvent, bind_assoc, perform_bind]
  refine wp_uuid4 fun w₁ u hr₁ hi₁ hu => ?_
  have hdrawn := (Drawn.empty (i := i)).draw (k := event.idempotency_key)
    hi₁.1.raw_issued hu
  have htx₁ := (frame_of_rely hr₁).tx.trans htx
  have htext := (hS _ hi₁.2).2.key_text event (List.mem_singleton.mpr rfl)
  rw [bind_assoc]
  change Wp pol (Inv S) i (execute (.insertIdempotency
    (((∅ : Dict String UUID).set event.idempotency_key u).entries.map
      fun p => ⟨p.1, p.2⟩)) >>= _) Q _
  refine wp_claim_or (w := { w₁ with issued := w₁.issued.set u i }) htx₁ hopen
    hempty hdrawn ?_ fun w₂ tx₂ claims hcoh₂ htx₂ hd₂ hc₂ => ?_
  · rintro w' ⟨k, hk, hnul⟩
    have hkey : k = event.idempotency_key :=
      List.mem_singleton.mp ((hdrawn.keys k).mp hk)
    rw [hkey, htext] at hnul
    cases hnul
  split
  · rename_i hnone
    have hwrites : tx₂.writes = ∅ := by
      rw [hc₂.written, hnone]
      rfl
    have hkey : event.idempotency_key ∈ w₂.db.claimedKeys := by
      have hk := (hd₂.keys event.idempotency_key).mpr (List.mem_singleton.mpr rfl)
      refine (hc₂.covered _ hk).resolve_left ?_
      rw [hnone]
      exact List.not_mem_nil
    rw [bind_assoc]
    refine wp_foundEvent (fun h hs => (hS h hs).1) htx₂ hc₂.isOpen hwrites hkey ?_
    intro w₃ r _ hi₃ htx₃ hr hrk
    exact hdup w₃ tx₂ r hi₃ htx₃ hc₂.isOpen hwrites hr hrk
  · rename_i hsome
    obtain ⟨c, hc⟩ := List.exists_mem_of_ne_nil _ hsome
    -- the claim won is the one that was offered
    have hck : c.idempotency_key = event.idempotency_key :=
      List.mem_singleton.mp ((hd₂.keys _).mp
        (Dict.mem_keys_iff.mpr ⟨_, hc₂.drawn c hc⟩))
    have hkey : event.idempotency_key ∈ claims.map (·.idempotency_key) :=
      hck ▸ List.mem_map_of_mem (f := EventIdempotency.idempotency_key) hc
    have hwon : [event].filter
        (·.idempotency_key ∈ claims.map (·.idempotency_key)) = [event] :=
      List.filter_cons_of_pos (decide_eq_true hkey)
    have hvalues : [event.rawValues u occurred_at] =
        EventRepository.rawValuesOf [event] (claims.map (·.idempotency_key))
          ((∅ : Dict String UUID).set event.idempotency_key u) occurred_at := by
      rw [EventRepository.rawValuesOf, hwon]
      simp
    rw [bind_assoc, hvalues]
    refine wp_storeRows hS htx₂ hd₂ hc₂ fun w₃ tx₃ rows hcoh₃ htx₃ hins hrows => ?_
    rw [hwon] at hrows
    rcases List.forall₂_cons_left_iff.mp hrows with ⟨row, rest, hrow, hrest, rfl⟩
    obtain rfl := List.forall₂_nil_left_iff.mp hrest
    exact hnew w₃ tx₃ row hcoh₃ htx₃ hins hrow.2 hrow.1

/-- A storable batch: a row for each key that was free, and a count of the other
events. -/
theorem wp_insertBatchStorable {f : List RawEvent × ℤ → Service α}
    (hS : ∀ h, S h → Deduplicated h.db ∧ BatchStorable h.db events)
    (hi : Inv S w) (htx : w.txs.get? i = some tx) (hopen : tx.aborted = false)
    (hempty : tx.writes = ∅)
    (hnext : ∀ w' tx' rows, Coherent w' → w'.txs.get? i = some tx' →
      Inserted events rows w'.db tx' →
      StoredRows (events.filter
        (·.idempotency_key ∈ rows.map (·.idempotency_key))) rows →
      Wp pol (Inv S) i (f (rows, events.length - rows.length)) Q w') :
    Wp pol (Inv S) i
      (EventRepository.insertBatch events occurred_at >>= f) Q w := by
  have htext := (hS _ hi.2).2.key_text
  rw [EventRepository.insertBatch, bind_assoc]
  refine wp_eventIdMap htx .empty fun w₁ map htx₁ hd₁ => ?_
  rw [List.nil_append] at hd₁
  rw [bind_assoc]
  refine wp_claim_or htx₁ hopen hempty hd₁ ?_ fun w₂ tx₂ claims hcoh₂ htx₂ hd₂ hc₂ => ?_
  · rintro w' ⟨k, hk, hnul⟩
    obtain ⟨e, he, rfl⟩ := List.mem_map.mp ((hd₁.keys k).mp hk)
    rw [htext e he] at hnul
    cases hnul
  dsimp only
  split
  · rename_i hnone
    have hins := hc₂.nothing hd₂.keys hnone
    rw [hnone, pure_bind]
    refine hnext w₂ tx₂ [] hcoh₂ htx₂ hins ?_
    rw [List.filter_eq_nil_iff.mpr (by simp)]
    exact .nil
  · rw [bind_assoc]
    refine wp_storeRows hS htx₂ hd₂ hc₂ fun w₃ tx₃ rows hcoh₃ htx₃ hins hrows => ?_
    -- one row for each claim
    have hnd : (rows.map (·.idempotency_key)).Nodup :=
      hins.stored ▸ hins.new.deduplicated.nodup_raw_keys
    have hkeys : ∀ k, k ∈ claims.map (·.idempotency_key) ↔
        k ∈ rows.map (·.idempotency_key) := by
      intro k
      rw [hrows.map_key]
      constructor
      · intro hk
        obtain ⟨c, hc, rfl⟩ := List.mem_map.mp hk
        obtain ⟨e, he, hek⟩ := List.mem_map.mp ((hd₂.keys _).mp
          (Dict.mem_keys_iff.mpr ⟨_, hc₂.drawn c hc⟩))
        refine List.mem_map.mpr ⟨e, List.mem_filter.mpr ⟨he, ?_⟩, hek⟩
        exact decide_eq_true (hek ▸ hk)
      · intro hk
        obtain ⟨e, he, rfl⟩ := List.mem_map.mp hk
        exact of_decide_eq_true (List.mem_filter.mp he).2
    have hlength : (claims.map (·.idempotency_key)).length = rows.length := by
      rw [((List.perm_ext_iff_of_nodup hc₂.nodup hnd).mpr hkeys).length_eq,
        List.length_map]
    have hwon : events.filter
        (·.idempotency_key ∈ claims.map (·.idempotency_key)) =
          events.filter (·.idempotency_key ∈ rows.map (·.idempotency_key)) :=
      List.filter_congr fun e _ => decide_eq_decide.mpr (hkeys _)
    rw [pure_bind, hlength]
    rw [hwon] at hrows
    exact hnext w₃ tx₃ rows hcoh₃ htx₃ hins hrows

end Store

end Calls

/-! ## Requests -/

/-- The response names the stored event of the key; one it calls new is new, and
has the columns of what was submitted. -/
def RightAnswer (before after : Db) (e : EventIngest) (x : EventIngestResponse) :
    Prop :=
  ∃ row ∈ after.raw_events, row.idempotency_key = e.idempotency_key ∧
    x = row.response x.duplicate ∧ (x.duplicate = false →
      row ∉ before.raw_events ∧ e.columns = .ok row.content)

theorem RightAnswer.mono {before a b : Db} {e : EventIngest}
    {x : EventIngestResponse} (hab : a.Precedes b)
    (h : RightAnswer before a e x) : RightAnswer before b e x := by
  obtain ⟨row, hrow, hrest⟩ := h
  exact ⟨row, hab.raw_events hrow, hrest⟩

/-- What a service leaves to the commit: new events, with which its result is
right. -/
def LeavesRight {α : Type} (i : ℕ) (Q : α → Db → Prop) (E : PyError → Prop)
    (r : Except PyError α) (w : World) : Prop :=
  match r with
  | .ok x => ∃ tx, w.txs.get? i = some tx ∧ tx.aborted = false ∧
      NewEvents w.db tx.now tx.writes ∧ Q x (w.view tx)
  | .error e => E e

/-- The result is right, and an error is one of the expected. -/
def Correct {α : Type} (Q : α → Db → Prop) (E : PyError → Prop)
    (r : Except PyError α) (db : Db) : Prop :=
  match r with
  | .ok x => Q x db
  | .error e => E e

/-- A state that has come of `before`: its merchants, and at least its events. -/
structure Since (before : Db) (h : History) : Prop where
  deduplicated : Deduplicated h.db
  precedes : before.Precedes h.db
  merchants : h.db.merchants = before.merchants

section Requests

variable {pol : ServicePolicy} {S : History → Prop} {i : ℕ} {α : Type}
  {Q : α → Db → Prop} {E : PyError → Prop} {w : World} {tx : Tx} {before : Db}

theorem wp_leavesRight {x : α} (hQ : ∀ {a b : Db}, a.Precedes b → Q x a → Q x b)
    (hw : Coherent w) (htx : w.txs.get? i = some tx) (hopen : tx.aborted = false)
    (hnew : NewEvents w.db tx.now tx.writes) (hx : Q x (w.view tx)) :
    Wp pol (Inv S) i (pure x) (LeavesRight i Q E) w := by
  refine wp_ret fun w' hr _ => ?_
  have hf := frame_of_rely hr
  have hview : (w.view tx).Precedes (w'.view tx) :=
    (Db.Precedes.of_frame hf).overlay tx.writes
  exact ⟨tx, hf.tx.trans htx, hopen, hnew.frame hw hf htx, hQ hview hx⟩

/-- **A request** whose transaction is good when it commits returns the result
of its service. -/
theorem wp_request {body : Service α} {answers : α → Answers}
    (hQ : ∀ x {a b : Db}, a.Precedes b → Q x a → Q x b)
    (hS : ∀ {h : History} {now : DateTime} {ws : Db} {answers : Answers}, S h →
      NewEvents h.db now ws → S (h.install ws answers))
    (hidle : w.txs.get? i = none)
    (hbody : ∀ w' t, Inv S w' → w'.txs.get? i = none →
      Wp pol (Inv S) i body (LeavesRight i Q E) (w'.setTx i ⟨t, false, ∅⟩)) :
    Wp pol (Inv S) i (getDb answers body)
      (fun r w => Correct Q E r w.db) w := by
  have hkeep : ∀ (r : Except PyError α) {w w' : World}, Frame i w w' →
      Correct Q E r w.db → Correct Q E r w'.db := by
    intro r w w' hf hr
    cases r with
    | ok x => exact hQ x (.of_frame hf) hr
    | error e => exact hr
  refine wp_sessionScope (R := fun r w => Correct Q E r w.db) hidle ?_ ?_
  · intro w₁ t _ hi hnone
    have hi' : Inv S (w₁.setTx i ⟨t, false, ∅⟩) :=
      ⟨World.Effect.coherent (c := .begin) hi.1 (.begin t hnone) (by simp), hi.2⟩
    refine Wp.tryCatch (Wp.bind (Wp.mono ?_ (Wp.stable (hbody w₁ t hi hnone))) hi')
      hi'
    intro r w₂ hi₂ hR
    cases r with
    | error e =>
        have he : E e := hR w₂ .refl hi₂
        refine wp_ret fun w₃ _ _ => wp_rollback fun w₄ _ _ => ?_
        exact wp_ret fun _ _ _ => he
    | ok x =>
        obtain ⟨tx, htx, hopen, -⟩ := hR w₂ .refl hi₂
        refine wp_commit htx ?_ ?_
        · intro hab
          rw [hopen] at hab
          cases hab
        · intro _ w₃ hr₃ hi₃ htx₃ _
          obtain ⟨tx', htx', -, hnew, hx⟩ := hR w₃ hr₃ hi₃
          obtain rfl : tx = tx' := Option.some.inj (htx₃.symm.trans htx')
          refine ⟨hS hi₃.2 hnew, wp_ret fun w₄ hr₄ _ => wp_ret fun w₅ hr₅ _ => ?_⟩
          exact hkeep (.ok x) ((frame_of_rely hr₄).trans (frame_of_rely hr₅)) hx
  · intro r w₁ w₂ _ hR hr _
    exact hkeep r (frame_of_rely hr) hR

theorem Since.install {h : History} {now : DateTime} {ws : Db} {answers : Answers}
    (hs : Since before h) (hnew : NewEvents h.db now ws) :
    Since before (h.install ws answers) where
  deduplicated := hnew.deduplicates hs.deduplicated
  precedes := hs.precedes.trans (.install ws)
  merchants := by
    show (ws.overlay h.db).merchants = before.merchants
    rw [Db.overlay_merchants, hnew.others, hs.merchants]
    exact List.append_nil _

theorem Since.storable {events : List EventIngest}
    (hst : BatchStorable before events) :
    ∀ h, Since before h → Deduplicated h.db ∧ BatchStorable h.db events :=
  fun _ hs => ⟨hs.deduplicated, hs.precedes.storable hst⟩

theorem Since.hasMerchant_iff {h : History} (hs : Since before h) {m : UUID} :
    h.db.hasMerchant m ↔ before.hasMerchant m := by
  rw [Db.hasMerchant, hs.merchants, Db.hasMerchant]

/-- The rows a transaction stores were not there before. -/
theorem Inserted.not_mem {events : List EventIngest} {rows : List RawEvent}
    {db : Db} (h : Inserted events rows db tx) (hdb : before.Precedes db)
    {r : RawEvent} (hr : r ∈ rows) : r ∉ before.raw_events :=
  fun hmem => h.new.fresh_ids r (h.stored ▸ hr) r (hdb.raw_events hmem) rfl

/-! ### One event -/

/-- The answer to an event, and the flag that chooses its status code. -/
def AnswersEvent (before : Db) (e : EventIngest) (x : EventIngestResponse × Bool)
    (db : Db) : Prop :=
  before.hasMerchant e.merchant_id ∧ RightAnswer before db e x.1 ∧
    x.2 = x.1.duplicate

/-- One of the merchants is unknown. -/
def UnknownMerchant (before : Db) (events : List EventIngest) (err : PyError) :
    Prop :=
  ∃ e ∈ events, err = .merchantNotFound e.merchant_id.str ∧
    ¬ before.hasMerchant e.merchant_id

theorem AnswersEvent.mono {e : EventIngest} (x : EventIngestResponse × Bool)
    {a b : Db} (hab : a.Precedes b) (h : AnswersEvent before e x a) :
    AnswersEvent before e x b := ⟨h.1, h.2.1.mono hab, h.2.2⟩

theorem Attended.wp_ingestEvent (h : Attended pol i) {event : EventIngest}
    (hst : BatchStorable before [event]) (htx : w.txs.get? i = some tx)
    (hopen : tx.aborted = false) (hempty : tx.writes = ∅) :
    Wp pol (Inv (Since before)) i (IngestionService.ingestEvent event)
      (LeavesRight i (AnswersEvent before event) (UnknownMerchant before [event]))
      w := by
  rw [IngestionService.ingestEvent, EventRepository.merchantExists, bind_assoc,
    execute_bind]
  refine wp_read (by simp) (fun _ _ _ => rfl) (fun _ _ _ => rfl) htx hopen ?_
  intro w₁ hr₁ hi₁ htx₁
  have hview : w₁.view tx = w₁.db := by
    rw [World.view, hempty, Db.empty_overlay]
  simp only [pure_bind]
  rw [hview]
  have hfound : (!((w₁.db.merchants.filter
      (·.id ∈ [event.merchant_id])).map (·.id)).isEmpty) = true ↔
        before.hasMerchant event.merchant_id := by
    rw [← hi₁.2.hasMerchant_iff]
    simp [Db.hasMerchant]
  split
  · rename_i hsome
    have hmerchant := hfound.mp hsome
    rw [perform_bind]
    refine wp_quiet rfl fun w₂ t r hr₂ _ => ?_
    have htx₂ := (frame_of_rely hr₂).tx.trans htx₁
    refine wp_insertStorable (w := { w₂ with redis := r }) (Since.storable hst) htx₂
      hopen hempty ?_ ?_
    · intro w₃ tx₃ row hi₃ htx₃ hopen₃ hwrites hrow hkey
      have hnew : NewEvents w₃.db tx₃.now tx₃.writes := hwrites ▸ NewEvents.empty _ _
      refine wp_leavesRight (AnswersEvent.mono _) hi₃.1 htx₃ hopen₃ hnew ?_
      have hmem : row ∈ (w₃.view tx₃).raw_events := List.mem_append_left _ hrow
      exact ⟨hmerchant, ⟨row, hmem, hkey, rfl, fun hdup => absurd hdup (by
        simp [RawEvent.response])⟩, rfl⟩
    · intro w₃ tx₃ row hcoh₃ htx₃ hins hkey hcol
      simp only [Bool.false_eq_true, if_false]
      refine h.wp_notify htx₃ hins.isOpen fun w₄ hr₄ hi₄ htx₄ => ?_
      have h₄ := hins.frame hcoh₃ (frame_of_rely hr₄) htx₃
      refine h.wp_record fun w₅ r₅ hr₅ hi₅ => ?_
      have hf₅ := frame_of_rely hr₅
      have h₅ := h₄.frame hi₄.1 hf₅ htx₄
      refine wp_leavesRight (w := { w₅ with redis := r₅ }) (AnswersEvent.mono _)
        (hi₅.1.of_eq rfl rfl rfl) (hf₅.tx.trans htx₄) h₅.isOpen h₅.new ?_
      have hmem : row ∈ (w₅.view tx₃).raw_events :=
        List.mem_append_right _ (h₅.stored ▸ List.mem_singleton.mpr rfl)
      have hfresh : row ∉ before.raw_events :=
        h₅.not_mem hi₅.2.precedes (List.mem_singleton.mpr rfl)
      exact ⟨hmerchant, ⟨row, hmem, hkey, rfl, fun _ => ⟨hfresh, hcol⟩⟩, rfl⟩
  · rename_i hnone
    refine wp_ret fun w₂ _ _ => ⟨event, List.mem_singleton.mpr rfl, rfl, ?_⟩
    exact fun hm => hnone (hfound.mpr hm)

/-! ### A batch -/

/-- The answers to a batch, event by event, and their counts. -/
structure AnswersBatch (before : Db) (events : List EventIngest)
    (x : BatchIngestResponse) (db : Db) : Prop where
  merchants : ∀ e ∈ events, before.hasMerchant e.merchant_id
  events : List.Forall₂ (RightAnswer before db) events x.events
  accepted : x.accepted = (x.events.filter (!·.duplicate)).length
  duplicates : x.duplicates = (x.events.filter (·.duplicate)).length

theorem AnswersBatch.mono {events : List EventIngest} (x : BatchIngestResponse)
    {a b : Db} (hab : a.Precedes b) (h : AnswersBatch before events x a) :
    AnswersBatch before events x b :=
  ⟨h.merchants, h.events.imp fun _ _ hx => hx.mono hab, h.accepted, h.duplicates⟩

section Responses

variable {events : List EventIngest} {rows : List RawEvent} {db : Db}
  {existing : Dict String RawEvent} {occurred_at : DateTime}

theorem Inserted.duplicate_iff (h : Inserted events rows db tx)
    (hdb : Deduplicated db)
    (hexisting : ∀ k r, existing.get? k = some r ↔
      k ∉ rows.map (·.idempotency_key) ∧
        k ∈ events.map (·.idempotency_key) ∧
        r ∈ (tx.writes.overlay db).raw_events ∧ r.idempotency_key = k)
    {e : EventIngest} (he : e ∈ events) :
    (IngestionService.batchResponse occurred_at
      (Dict.ofList (rows.map fun r => (r.idempotency_key, r))) existing
      e).duplicate = true ↔ e.idempotency_key ∉ rows.map (·.idempotency_key) := by
  obtain ⟨r, hk, ⟨hresp, hr⟩ | ⟨hresp, -, hnot⟩⟩ :=
    h.batchResponse hdb he hexisting occurred_at
  · rw [hresp]
    refine iff_of_false (by simp [RawEvent.response]) fun hnot => hnot ?_
    exact hk ▸ List.mem_map_of_mem hr
  · rw [hresp]
    exact iff_of_true rfl hnot

theorem Inserted.answersBatch (h : Inserted events rows db tx)
    (hdb : Deduplicated db) (hbefore : before.Precedes db)
    (hmerchants : ∀ e ∈ events, before.hasMerchant e.merchant_id)
    (hrows : StoredRows (events.filter
      (·.idempotency_key ∈ rows.map (·.idempotency_key))) rows)
    (hexisting : ∀ k r, existing.get? k = some r ↔
      k ∉ rows.map (·.idempotency_key) ∧
        k ∈ events.map (·.idempotency_key) ∧
        r ∈ (tx.writes.overlay db).raw_events ∧ r.idempotency_key = k) :
    AnswersBatch before events
      ⟨rows.length, events.length - rows.length,
        events.map (IngestionService.batchResponse occurred_at
          (Dict.ofList (rows.map fun r => (r.idempotency_key, r))) existing)⟩
      (tx.writes.overlay db) := by
  have hnd : (rows.map (·.idempotency_key)).Nodup :=
    h.stored ▸ h.new.deduplicated.nodup_raw_keys
  generalize hf : IngestionService.batchResponse occurred_at
    (Dict.ofList (rows.map fun r => (r.idempotency_key, r))) existing = f
  have haccepted : ((events.map f).filter (!·.duplicate)).length = rows.length := by
    rw [List.filter_map, List.length_map, ← hrows.length_eq]
    congr 1
    apply List.filter_congr
    intro e he
    rw [← hf, Bool.eq_iff_iff]
    simp only [Function.comp_apply, Bool.not_eq_eq_eq_not, Bool.not_true,
      decide_eq_true_eq]
    rw [← Bool.not_eq_true, h.duplicate_iff hdb hexisting he, not_not]
  have hsplit := List.length_eq_length_filter_add (l := events.map f) (·.duplicate)
  rw [haccepted, List.length_map] at hsplit
  refine ⟨hmerchants, ?_, congrArg Nat.cast haccepted.symm, ?_⟩
  · rw [List.forall₂_map_right_iff, List.forall₂_same]
    intro e he
    rcases h.batchResponse hdb he hexisting occurred_at with
      ⟨r, hk, ⟨hresp, hr⟩ | ⟨hresp, hr, -⟩⟩
    · -- the row is the one of this event
      have hwon : e ∈ events.filter
          (·.idempotency_key ∈ rows.map (·.idempotency_key)) :=
        List.mem_filter.mpr
          ⟨he, decide_eq_true (hk ▸ List.mem_map_of_mem hr)⟩
      obtain ⟨r', hr', hcol, hk'⟩ := hrows.exists_row hwon
      obtain rfl := List.inj_on_of_nodup_map hnd hr hr' (hk.trans hk'.symm)
      have hmem : r ∈ (tx.writes.overlay db).raw_events :=
        List.mem_append_right _ (h.stored ▸ hr)
      rw [← hf, hresp]
      exact ⟨r, hmem, hk, rfl, fun _ => ⟨h.not_mem hbefore hr, hcol⟩⟩
    · rw [← hf, hresp]
      exact ⟨r, List.mem_append_left _ hr, hk, rfl, fun hdup => by cases hdup⟩
  · show (events.length : ℤ) - rows.length =
      ((events.map f).filter (·.duplicate)).length
    omega

end Responses

theorem wp_rightResponses {events : List EventIngest} {rows : List RawEvent}
    {occurred_at : DateTime} (hw : Coherent w) (htx : w.txs.get? i = some tx)
    (hins : Inserted events rows w.db tx)
    (hmerchants : ∀ e ∈ events, before.hasMerchant e.merchant_id)
    (hrows : StoredRows (events.filter
      (·.idempotency_key ∈ rows.map (·.idempotency_key))) rows) :
    Wp pol (Inv (Since before)) i
      (do
        let responses ← IngestionService.batchResponses events occurred_at rows
        pure ⟨rows.length, events.length - rows.length, responses⟩)
      (LeavesRight i (AnswersBatch before events) E) w := by
  rw [IngestionService.batchResponses, EventRepository.getByIdempotencyKeys,
    bind_assoc]
  split
  · rename_i hnone
    refine wp_ret fun w₁ hr₁ hi₁ => ?_
    have hf := frame_of_rely hr₁
    have h₁ := hins.frame hw hf htx
    have hempty : (tx.writes.overlay w₁.db).raw_events.filter
        (fun r => decide (r.idempotency_key ∈ ([] : List String))) = [] := by
      simp
    have hexisting := h₁.existing hi₁.2.deduplicated
    rw [hnone, hempty] at hexisting
    exact ⟨tx, hf.tx.trans htx, h₁.isOpen, h₁.new,
      h₁.answersBatch hi₁.2.deduplicated hi₁.2.precedes hmerchants hrows hexisting⟩
  · rw [bind_assoc, execute_bind]
    refine wp_read (by simp) (fun _ _ _ => rfl) (fun _ _ _ => rfl) htx hins.isOpen ?_
    intro w₁ hr₁ hi₁ htx₁
    have h₁ := hins.frame hw (frame_of_rely hr₁) htx
    exact wp_leavesRight (AnswersBatch.mono _) hi₁.1 htx₁ h₁.isOpen h₁.new
      (h₁.answersBatch hi₁.2.deduplicated hi₁.2.precedes hmerchants hrows
        (h₁.existing hi₁.2.deduplicated))

theorem Attended.wp_storeBatch (h : Attended pol i) {events : List EventIngest}
    (hst : BatchStorable before events)
    (hmerchants : ∀ e ∈ events, before.hasMerchant e.merchant_id)
    (htx : w.txs.get? i = some tx) (hopen : tx.aborted = false)
    (hempty : tx.writes = ∅) :
    Wp pol (Inv (Since before)) i (IngestionService.storeBatch events)
      (LeavesRight i (AnswersBatch before events) E) w := by
  rw [IngestionService.storeBatch, perform_bind]
  refine wp_quiet rfl fun w₁ t r hr₁ hi₁ => ?_
  have htx₁ := (frame_of_rely hr₁).tx.trans htx
  have hi : Inv (Since before) { w₁ with redis := r } :=
    ⟨hi₁.1.of_eq rfl rfl rfl, hi₁.2⟩
  refine wp_insertBatchStorable (w := { w₁ with redis := r }) (Since.storable hst) hi
    htx₁ hopen hempty fun w₂ tx₂ rows hcoh₂ htx₂ hins hrows => ?_
  refine h.wp_announce hcoh₂ htx₂ hins.isOpen fun w₃ hf₃ hcoh₃ htx₃ => ?_
  exact wp_rightResponses hcoh₃ htx₃ (hins.frame hcoh₂ hf₃ htx₂) hmerchants hrows

theorem Attended.wp_ingestBatch (h : Attended pol i) {events : List EventIngest}
    (hst : BatchStorable before events) (htx : w.txs.get? i = some tx)
    (hopen : tx.aborted = false) (hempty : tx.writes = ∅) :
    Wp pol (Inv (Since before)) i (IngestionService.ingestBatch events)
      (LeavesRight i (AnswersBatch before events) (UnknownMerchant before events))
      w := by
  have hids : ∀ m, m ∈ (events.map (·.merchant_id)).dedup ↔
      ∃ e ∈ events, e.merchant_id = m := by
    simp
  rw [IngestionService.ingestBatch, EventRepository.missingMerchantIds]
  split
  · rename_i hnone
    rw [pure_bind]
    refine h.wp_storeBatch hst (fun e he => ?_) htx hopen hempty
    have hmem := (hids _).mpr ⟨e, he, rfl⟩
    rw [hnone] at hmem
    exact absurd hmem List.not_mem_nil
  · rw [bind_assoc, execute_bind]
    refine wp_read (by simp) (fun _ _ _ => rfl) (fun _ _ _ => rfl) htx hopen ?_
    intro w₁ _ hi₁ htx₁
    have hview : w₁.view tx = w₁.db := by
      rw [World.view, hempty, Db.empty_overlay]
    have hfound : ∀ m ∈ (events.map (·.merchant_id)).dedup,
        m ∈ (w₁.db.merchants.filter
          (·.id ∈ (events.map (·.merchant_id)).dedup)).map (·.id) ↔
            before.hasMerchant m := by
      intro m hm
      rw [← hi₁.2.hasMerchant_iff, List.mem_map]
      constructor
      · rintro ⟨row, hrow, rfl⟩
        exact ⟨row, List.mem_of_mem_filter hrow, rfl⟩
      · rintro ⟨row, hrow, rfl⟩
        exact ⟨row, List.mem_filter.mpr ⟨hrow, decide_eq_true hm⟩, rfl⟩
    dsimp only
    rw [pure_bind, hview]
    split
    · rename_i missing rest hmissing
      have hmem : missing ∈ missing :: rest := List.mem_cons_self
      rw [← hmissing, List.mem_filter, decide_eq_true_eq] at hmem
      obtain ⟨e, he, rfl⟩ := (hids _).mp hmem.1
      refine wp_ret fun w₂ _ _ => ⟨e, he, rfl, fun hm => ?_⟩
      exact hmem.2 ((hfound _ hmem.1).mpr hm)
    · rename_i hmissing
      refine h.wp_storeBatch hst (fun e he => ?_) htx₁ hopen hempty
      have hmem := (hids _).mpr ⟨e, he, rfl⟩
      by_contra hm
      have hnot := mt (hfound _ hmem).mp hm
      exact List.filter_eq_nil_iff.mp hmissing _ hmem (decide_eq_true hnot)

end Requests

end AnalyticsPipeline
