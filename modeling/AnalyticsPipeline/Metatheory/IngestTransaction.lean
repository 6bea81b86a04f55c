import AnalyticsPipeline.Metatheory.ProgramLogic
import AnalyticsPipeline.Model.IngestionService

/-!
# The transaction of an ingest request

What a request has written when it commits (`IngestTx`), whatever happened
around it: events under fresh identifiers, and one claim for each of them on a
key nobody had claimed. Its answers name those events, or events that were
committed before.
-/

namespace AnalyticsPipeline

open Framework

/-! ## Deduplicated tables -/

/-- The claim an event holds on its key. -/
def RawEvent.claim (r : RawEvent) : EventIdempotency := ⟨r.idempotency_key, r.id⟩

/-- The deduplication table is the event table, seen through its keys. -/
structure Deduplicated (db : Db) : Prop where
  keys : (db.event_idempotency.map (·.idempotency_key)).Nodup
  ids : (db.raw_events.map (·.id)).Nodup
  claims : ∀ c, c ∈ db.event_idempotency ↔ ∃ r ∈ db.raw_events, r.claim = c

namespace Deduplicated

variable {db ws : Db}

theorem claim_mem (h : Deduplicated db) {r : RawEvent}
    (hr : r ∈ db.raw_events) : r.claim ∈ db.event_idempotency :=
  (h.claims _).mpr ⟨r, hr, rfl⟩

theorem eq_of_id (h : Deduplicated db) {r r' : RawEvent}
    (hr : r ∈ db.raw_events) (hr' : r' ∈ db.raw_events) (heq : r.id = r'.id) :
    r = r' :=
  List.inj_on_of_nodup_map h.ids hr hr' heq

/-- One key, one event. -/
theorem eq_of_key (h : Deduplicated db) {r r' : RawEvent}
    (hr : r ∈ db.raw_events) (hr' : r' ∈ db.raw_events)
    (heq : r.idempotency_key = r'.idempotency_key) : r = r' := by
  have hclaim : r.claim = r'.claim :=
    List.inj_on_of_nodup_map h.keys (h.claim_mem hr) (h.claim_mem hr') heq
  exact h.eq_of_id hr hr' (congrArg EventIdempotency.event_id hclaim)

theorem empty : Deduplicated ∅ :=
  ⟨List.nodup_nil, List.nodup_nil, by simp⟩

/-- Tables with disjoint keys and identifiers may be joined. -/
theorem overlay (h : Deduplicated db) (hws : Deduplicated ws)
    (hkeys : ∀ c ∈ ws.event_idempotency,
      c.idempotency_key ∉ db.event_idempotency.map (·.idempotency_key))
    (hids : ∀ r ∈ ws.raw_events, ∀ r' ∈ db.raw_events, r'.id ≠ r.id) :
    Deduplicated (ws.overlay db) where
  keys := by
    rw [Db.overlay_event_idempotency, List.map_append, List.nodup_append]
    refine ⟨h.keys, hws.keys, ?_⟩
    rintro k hk _ hk' rfl
    obtain ⟨c, hc, rfl⟩ := List.mem_map.mp hk'
    exact hkeys c hc hk
  ids := by
    rw [Db.overlay_raw_events, List.map_append, List.nodup_append]
    refine ⟨h.ids, hws.ids, ?_⟩
    rintro _ hu _ hu' rfl
    obtain ⟨r', hr', heq⟩ := List.mem_map.mp hu
    obtain ⟨r, hr, rfl⟩ := List.mem_map.mp hu'
    exact hids r hr r' hr' heq
  claims := fun c => by
    simp only [Db.overlay_event_idempotency, Db.overlay_raw_events,
      List.mem_append, h.claims, hws.claims, or_and_right, exists_or]

/-- Nothing else of the database matters. -/
theorem of_eq {db' : Db} (h : Deduplicated db)
    (hidem : db'.event_idempotency = db.event_idempotency)
    (hraw : db'.raw_events = db.raw_events) : Deduplicated db' :=
  ⟨hidem ▸ h.keys, hraw ▸ h.ids, hidem ▸ hraw ▸ h.claims⟩

end Deduplicated

/-! ## What a request commits -/

structure NewEvents (db : Db) (now : DateTime) (ws : Db) : Prop where
  stamped : ∀ r ∈ ws.raw_events, r.created_at = now
  deduplicated : Deduplicated ws
  fresh_keys : ∀ c ∈ ws.event_idempotency,
    c.idempotency_key ∉ db.event_idempotency.map (·.idempotency_key)
  fresh_ids : ∀ r ∈ ws.raw_events, ∀ r' ∈ db.raw_events, r'.id ≠ r.id
  text : ∀ c ∈ ws.event_idempotency, hasNul c.idempotency_key = false
  others : ws = { (∅ : Db) with
    raw_events := ws.raw_events, event_idempotency := ws.event_idempotency }

/-- A complete ingest transaction about to commit. -/
structure IngestTx (h : History) (now : DateTime) (ws : Db)
    (answers : Answers) : Prop where
  events : NewEvents h.db now ws
  answered : ∀ p ∈ answers, ∃ r : RawEvent, r.idempotency_key = p.1 ∧
    p.2 = r.response p.2.duplicate ∧
    if p.2.duplicate then r ∈ h.db.raw_events else r ∈ ws.raw_events
  acknowledged : ∀ r ∈ ws.raw_events, ∃ p ∈ answers,
    p.1 = r.idempotency_key ∧ p.2.duplicate = false

theorem NewEvents.empty (db : Db) (now : DateTime) : NewEvents db now ∅ :=
  ⟨by simp, .empty, by simp, by simp, by simp, rfl⟩

theorem NewEvents.deduplicates {db ws : Db} {now : DateTime}
    (h : NewEvents db now ws) (hd : Deduplicated db) :
    Deduplicated (ws.overlay db) :=
  hd.overlay h.deduplicated h.fresh_keys h.fresh_ids

/-- A request about to commit: it has new events, and where the tables are
deduplicated it has its answers right as well. -/
structure Prepared (S : History → Prop) (h : History) (now : DateTime) (ws : Db)
    (answers : Answers) : Prop where
  events : NewEvents h.db now ws
  answered : (∀ h, S h → Deduplicated h.db) → IngestTx h now ws answers

/-- The event that the claim of the key names. -/
def Db.LeadsTo (db : Db) (key : String) (r : RawEvent) : Prop :=
  r ∈ db.raw_events ∧ ⟨key, r.id⟩ ∈ db.event_idempotency

theorem Deduplicated.key_of_leadsTo {db : Db} {key : String} {r : RawEvent}
    (hd : Deduplicated db) (h : db.LeadsTo key r) : r.idempotency_key = key := by
  obtain ⟨hr, hc⟩ := h
  obtain ⟨r', hr', hclaim⟩ := (hd.claims _).mp hc
  obtain rfl := hd.eq_of_id hr' hr (congrArg EventIdempotency.event_id hclaim)
  exact congrArg EventIdempotency.idempotency_key hclaim

/-! ## Stability -/

section Stability

variable {i : ℕ} {w w' : World} {tx : Tx} {map : Dict String UUID}

/-- Identifiers the session has drawn, one for each key, that no committed
event uses. -/
structure Drawn (i : ℕ) (keys : List String) (map : Dict String UUID)
    (w : World) : Prop where
  keys : ∀ k, k ∈ map.keys ↔ k ∈ keys
  issued : ∀ {k u}, map.get? k = some u → w.issued.get? u = some i
  unused : ∀ {k u}, map.get? k = some u → ∀ r ∈ w.db.raw_events, r.id ≠ u
  injective : ∀ {k k' u}, map.get? k = some u → map.get? k' = some u → k = k'

theorem Drawn.empty : Drawn i [] ∅ w :=
  ⟨by simp [Dict.keys], by simp, by simp, by simp⟩

theorem Drawn.frame {keys : List String} (h : Drawn i keys map w)
    (hf : Frame i w w') : Drawn i keys map w' where
  keys := h.keys
  issued := fun hk => hf.issued (h.issued hk)
  unused := fun {k u} hk r hr => by
    rcases hf.foreign r hr with hr' | hne
    · exact h.unused hk r hr'
    · rintro rfl
      exact hne (h.issued hk)
  injective := h.injective

theorem Drawn.setTx {keys : List String} (h : Drawn i keys map w) {tx' : Tx} :
    Drawn i keys map (w.setTx i tx') :=
  ⟨h.keys, h.issued, h.unused, h.injective⟩

theorem Drawn.congr {keys : List String} (h : Drawn i keys map w)
    (hissued : w'.issued = w.issued)
    (hraw : w'.db.raw_events = w.db.raw_events) : Drawn i keys map w' :=
  ⟨h.keys, fun hk => hissued ▸ h.issued hk, fun hk => hraw ▸ h.unused hk,
    h.injective⟩

/-- An identifier that was never issued is in no event and in no map. -/
theorem Drawn.draw {keys : List String} {u : UUID} {k : String}
    (h : Drawn i keys map w)
    (hraw : ∀ r ∈ w.db.raw_events, w.issued.get? r.id ≠ none)
    (hu : w.issued.get? u = none) :
    Drawn i (keys ++ [k]) (map.set k u)
      { w with issued := w.issued.set u i } where
  keys := fun k' => by
    rw [List.mem_append, List.mem_singleton, ← h.keys, Dict.mem_keys_iff,
      Dict.mem_keys_iff, Dict.get?_set]
    by_cases hk : k' = k <;> simp [hk]
  issued := fun {k' u'} hk => by
    rw [Dict.get?_set] at hk ⊢
    split at hk
    · cases hk
      rw [if_pos rfl]
    · split
      · rfl
      · exact h.issued hk
  unused := fun {k' u'} hk r hr => by
    rw [Dict.get?_set] at hk
    split at hk
    · cases hk
      rintro rfl
      exact hraw r hr hu
    · exact h.unused hk r hr
  injective := fun {k₁ k₂ u'} h₁ h₂ => by
    have hold : ∀ {k'}, map.get? k' ≠ some u := by
      intro k' hk'
      rw [h.issued hk'] at hu
      cases hu
    rw [Dict.get?_set] at h₁ h₂
    split at h₁ <;> split at h₂
    · subst_vars
      rfl
    · cases h₁
      exact absurd h₂ hold
    · cases h₂
      exact absurd h₁ hold
    · exact h.injective h₁ h₂

theorem NewEvents.frame {now : DateTime} (h : NewEvents w.db now tx.writes)
    (hw : Coherent w) (hf : Frame i w w') (htx : w.txs.get? i = some tx) :
    NewEvents w'.db now tx.writes where
  stamped := h.stamped
  deduplicated := h.deduplicated
  fresh_keys := fun c hc hmem => by
    obtain ⟨c', hc', heq⟩ := List.mem_map.mp hmem
    have hlock : Lock.idempotency c.idempotency_key ∈ tx.writes.locks :=
      Db.idempotency_mem_locks.mpr ⟨c, hc, rfl⟩
    have hsame : w.db.AgreesAt w'.db (.idempotency c.idempotency_key) :=
      hf.locked htx _ hlock
    exact h.fresh_keys c hc
      (List.mem_map.mpr ⟨c', (hsame c' heq).mp hc', heq⟩)
  fresh_ids := fun r hr r' hr' heq => by
    rcases hf.foreign r' hr' with hold | hne
    · exact h.fresh_ids r hr r' hold heq
    · exact hne (heq ▸ hw.pending_issued htx r hr)
  text := h.text
  others := h.others

theorem IngestTx.frame {answers : Answers}
    (h : IngestTx w.toHistory tx.now tx.writes answers)
    (hw : Coherent w) (hf : Frame i w w') (htx : w.txs.get? i = some tx) :
    IngestTx w'.toHistory tx.now tx.writes answers where
  events := h.events.frame hw hf htx
  answered := fun p hp => by
    obtain ⟨r, hk, hr, hmem⟩ := h.answered p hp
    refine ⟨r, hk, hr, ?_⟩
    by_cases hdup : p.2.duplicate = true
    · rw [if_pos hdup] at hmem ⊢
      exact hf.raw_events.subset hmem
    · rw [if_neg hdup] at hmem ⊢
      exact hmem
  acknowledged := h.acknowledged

theorem Prepared.frame {S : History → Prop} {answers : Answers}
    (h : Prepared S w.toHistory tx.now tx.writes answers) (hw : Coherent w)
    (hf : Frame i w w') (htx : w.txs.get? i = some tx) :
    Prepared S w'.toHistory tx.now tx.writes answers :=
  ⟨h.events.frame hw hf htx, fun hS => (h.answered hS).frame hw hf htx⟩

end Stability

/-! ## Claiming and storing -/

/-- The claims an `INSERT ... ON CONFLICT DO NOTHING` has won, among those a
request offered. -/
structure Claimed (map : Dict String UUID) (claims : List EventIdempotency)
    (db : Db) (tx : Tx) : Prop where
  isOpen : tx.aborted = false
  written : tx.writes = Stmt.idempotencyWrites claims
  nodup : (claims.map (·.idempotency_key)).Nodup
  drawn : ∀ c ∈ claims, map.get? c.idempotency_key = some c.event_id
  text : ∀ c ∈ claims, hasNul c.idempotency_key = false
  fresh : ∀ c ∈ claims,
    c.idempotency_key ∉ db.event_idempotency.map (·.idempotency_key)
  covered : ∀ k ∈ map.keys, k ∈ claims.map (·.idempotency_key) ∨
    k ∈ db.event_idempotency.map (·.idempotency_key)

/-- The events are stored, or were before. -/
structure Inserted (events : List EventIngest) (rows : List RawEvent) (db : Db)
    (tx : Tx) : Prop where
  isOpen : tx.aborted = false
  new : NewEvents db tx.now tx.writes
  stored : tx.writes.raw_events = rows
  submitted : ∀ r ∈ rows, r.idempotency_key ∈ events.map (·.idempotency_key)
  covered : ∀ e ∈ events, e.idempotency_key ∈ rows.map (·.idempotency_key) ∨
    e.idempotency_key ∈ db.event_idempotency.map (·.idempotency_key)

theorem mem_rawValuesOf {events : List EventIngest} {keys : List String}
    {map : Dict String UUID} {occurred_at : DateTime} {v : RawValues PyDateTime} :
    v ∈ EventRepository.rawValuesOf events keys map occurred_at ↔
      ∃ e ∈ events, e.idempotency_key ∈ keys ∧
        ∃ u, map.get? e.idempotency_key = some u ∧
          v = e.rawValues u occurred_at := by
  simp [EventRepository.rawValuesOf, and_assoc, eq_comm]

theorem Db.rollup_empty : (∅ : Db).rollup = fun _ => ∅ := rfl

theorem overlay_idempotencyWrites (claims : List EventIdempotency) :
    (Stmt.idempotencyWrites claims).overlay ∅ =
      Stmt.idempotencyWrites claims := by
  simp [Stmt.idempotencyWrites, Db.overlay, Db.rollup_empty]

theorem Claimed.insert {map : Dict String UUID} {db : Db} {tx : Tx}
    (hopen : tx.aborted = false)
    (htext : (map.entries.map fun p => (⟨p.1, p.2⟩ : EventIdempotency)).any
      (hasNul ·.idempotency_key) = false) :
    Claimed map
      (freshBy (·.idempotency_key) (db.event_idempotency.map (·.idempotency_key))
        (map.entries.map fun p => ⟨p.1, p.2⟩)) db
      { tx with writes := Stmt.idempotencyWrites (freshBy (·.idempotency_key)
        (db.event_idempotency.map (·.idempotency_key))
        (map.entries.map fun p => ⟨p.1, p.2⟩)) } where
  isOpen := hopen
  written := rfl
  nodup := nodup_map_freshBy
  drawn := fun c hc => by
    obtain ⟨p, hp, rfl⟩ := List.mem_map.mp (freshBy_sublist.subset hc)
    exact Dict.get?_eq_some_iff.mpr hp
  text := fun c hc => by
    have hall := List.any_eq_false.mp htext c (freshBy_sublist.subset hc)
    simpa using hall
  fresh := fun c hc =>
    (mem_map_freshBy_iff.mp (List.mem_map_of_mem
      (f := EventIdempotency.idempotency_key) hc)).2
  covered := fun k hk => by
    by_cases hdb : k ∈ db.event_idempotency.map (·.idempotency_key)
    · exact .inr hdb
    · refine .inl (mem_map_freshBy_iff.mpr ⟨?_, hdb⟩)
      rw [List.map_map]
      exact hk

theorem Claimed.frame {i : ℕ} {w w' : World} {tx : Tx}
    {map : Dict String UUID} {claims : List EventIdempotency}
    (h : Claimed map claims w.db tx) (hf : Frame i w w')
    (htx : w.txs.get? i = some tx) : Claimed map claims w'.db tx where
  isOpen := h.isOpen
  written := h.written
  nodup := h.nodup
  drawn := h.drawn
  text := h.text
  fresh := fun c hc hmem => by
    obtain ⟨c', hc', heq⟩ := List.mem_map.mp hmem
    have hlock : Lock.idempotency c.idempotency_key ∈ tx.writes.locks := by
      rw [h.written]
      exact Db.idempotency_mem_locks.mpr ⟨c, hc, rfl⟩
    have hsame : w.db.AgreesAt w'.db (.idempotency c.idempotency_key) :=
      hf.locked htx _ hlock
    exact h.fresh c hc (List.mem_map.mpr ⟨c', (hsame c' heq).mp hc', heq⟩)
  covered := fun k hk => (h.covered k hk).imp_right fun hdb =>
    (hf.event_idempotency.map _).subset hdb

theorem Inserted.frame {i : ℕ} {w w' : World} {tx : Tx}
    {events : List EventIngest} {rows : List RawEvent}
    (h : Inserted events rows w.db tx) (hw : Coherent w) (hf : Frame i w w')
    (htx : w.txs.get? i = some tx) : Inserted events rows w'.db tx where
  isOpen := h.isOpen
  new := h.new.frame hw hf htx
  stored := h.stored
  submitted := h.submitted
  covered := fun e he => (h.covered e he).imp_right fun hdb =>
    (hf.event_idempotency.map _).subset hdb

section Store

variable {i : ℕ} {w : World} {tx : Tx} {map : Dict String UUID}
  {claims : List EventIdempotency} {events : List EventIngest}
  {occurred_at : DateTime} {stored : List (RawValues DateTime)} {rows : List RawEvent}

/-- The claims, the submitted events and the instants behind the rows a request
stores are those of the values it built. -/
theorem identity_stored
    (hstored : (EventRepository.rawValuesOf events (claims.map (·.idempotency_key)) map
      occurred_at).mapM RawValues.stored = .ok stored)
    (hrows : rows = stored.map fun v => { v with created_at := tx.now }) :
    rows.map (fun r => RawValues.identity r.toRawValues) =
      (EventRepository.rawValuesOf events (claims.map (·.idempotency_key)) map
        occurred_at).map RawValues.identity := by
  rw [← mapM_stored_identity hstored, hrows, List.map_map]
  rfl

/-- A stored row realizes a claim that was won, at the instant of the request. -/
theorem Claimed.of_row (h : Claimed map claims w.db tx)
    (hident : rows.map (fun r => RawValues.identity r.toRawValues) =
      (EventRepository.rawValuesOf events (claims.map (·.idempotency_key)) map
        occurred_at).map RawValues.identity) {r : RawEvent} (hr : r ∈ rows) :
    r.claim ∈ claims ∧ r.occurred_at = occurred_at ∧
      r.idempotency_key ∈ events.map (·.idempotency_key) := by
  have hmem := hident ▸ List.mem_map_of_mem
    (f := fun r : RawEvent => RawValues.identity r.toRawValues) hr
  obtain ⟨v, hv, heq⟩ := List.mem_map.mp hmem
  obtain ⟨e, he, hk, u, hu, rfl⟩ := mem_rawValuesOf.mp hv
  simp only [RawValues.identity, EventIngest.rawValues, Prod.mk.injEq] at heq
  obtain ⟨rfl, hkr, rfl⟩ := heq
  obtain ⟨c, hc, hck⟩ := List.mem_map.mp hk
  have hid : c.event_id = r.id := by
    have hdrawn := h.drawn c hc
    rw [hck, hu] at hdrawn
    exact (Option.some.inj hdrawn).symm
  have hclaim : r.claim = c := by
    rw [RawEvent.claim, ← hkr, ← hck, ← hid]
  exact ⟨hclaim ▸ hc, rfl, hkr ▸ List.mem_map_of_mem he⟩

/-- Every claim that was won is realized by a stored row. -/
theorem Claimed.exists_row (h : Claimed map claims w.db tx)
    (hd : Drawn i (events.map (·.idempotency_key)) map w)
    (hident : rows.map (fun r => RawValues.identity r.toRawValues) =
      (EventRepository.rawValuesOf events (claims.map (·.idempotency_key)) map
        occurred_at).map RawValues.identity) {c : EventIdempotency}
    (hc : c ∈ claims) : ∃ r ∈ rows, r.claim = c := by
  have hkey : c.idempotency_key ∈ events.map (·.idempotency_key) :=
    (hd.keys _).mp (Dict.mem_keys_iff.mpr ⟨_, h.drawn c hc⟩)
  obtain ⟨e, he, hek⟩ := List.mem_map.mp hkey
  have hv : e.rawValues c.event_id occurred_at ∈
      EventRepository.rawValuesOf events (claims.map (·.idempotency_key)) map
        occurred_at :=
    mem_rawValuesOf.mpr ⟨e, he, List.mem_map.mpr ⟨c, hc, hek.symm⟩,
      c.event_id, hek ▸ h.drawn c hc, rfl⟩
  have hmem := hident.symm ▸ List.mem_map_of_mem
    (f := RawValues.identity) hv
  obtain ⟨r, hr, heq⟩ := List.mem_map.mp hmem
  simp only [RawValues.identity, EventIngest.rawValues, Prod.mk.injEq] at heq
  refine ⟨r, hr, ?_⟩
  rw [RawEvent.claim, heq.1, heq.2.1, hek]

/-- At one instant, the primary key is the identifier. -/
theorem nodup_ids_of_primaryKey (hat : ∀ r ∈ rows, r.occurred_at = occurred_at)
    (hkey : (rows.map RawEvent.primaryKey).Nodup) : (rows.map (·.id)).Nodup := by
  have hpair : rows.map RawEvent.primaryKey =
      (rows.map (·.id)).map fun u => (u, occurred_at) := by
    rw [List.map_map]
    exact List.map_congr_left fun r hr => by
      simp [RawEvent.primaryKey, hat r hr]
  rw [hpair] at hkey
  exact hkey.of_map _

/-- Storing the events of the claims that were won: one event for each claim,
since a second one under the same identifier and instant violates the primary
key. -/
theorem Claimed.store (h : Claimed map claims w.db tx)
    (hd : Drawn i (events.map (·.idempotency_key)) map w)
    (hstored : (EventRepository.rawValuesOf events (claims.map (·.idempotency_key)) map
      occurred_at).mapM RawValues.stored = .ok stored)
    (hrows : rows = stored.map fun v => { v with created_at := tx.now })
    (hkey : ((w.view tx).raw_events ++ rows).map RawEvent.primaryKey |>.Nodup) :
    Inserted events rows w.db
      { tx with writes := (Stmt.rawWrites rows).overlay tx.writes } := by
  have hident := identity_stored hstored hrows
  have hraw : ((Stmt.rawWrites rows).overlay tx.writes).raw_events = rows := by
    simp [h.written, Stmt.rawWrites, Stmt.idempotencyWrites]
  have hidem : ((Stmt.rawWrites rows).overlay tx.writes).event_idempotency =
      claims := by
    simp [h.written, Stmt.rawWrites, Stmt.idempotencyWrites]
  -- first the new events, then what was submitted and covered
  refine ⟨h.isOpen, ⟨?_, ⟨?_, ?_, ?_⟩, ?_, ?_, ?_, ?_⟩, hraw, ?_, ?_⟩
  · intro r hr
    rw [hraw, hrows] at hr
    obtain ⟨v, -, rfl⟩ := List.mem_map.mp hr
    rfl
  · rw [hidem]
    exact h.nodup
  · rw [hraw]
    rw [List.map_append] at hkey
    exact nodup_ids_of_primaryKey (fun r hr => (h.of_row hident hr).2.1)
      (List.nodup_append.mp hkey).2.1
  · intro c
    rw [hraw, hidem]
    refine ⟨h.exists_row hd hident, ?_⟩
    rintro ⟨r, hr, rfl⟩
    exact (h.of_row hident hr).1
  · rw [hidem]
    exact h.fresh
  · intro r hr r' hr'
    rw [hraw] at hr
    exact hd.unused (h.drawn _ (h.of_row hident hr).1) r' hr'
  · rw [hidem]
    exact h.text
  · rw [hraw, hidem, h.written]
    simp [Stmt.rawWrites, Stmt.idempotencyWrites, Db.overlay, Db.rollup_empty]
  · exact fun r hr => (h.of_row hident hr).2.2
  · intro e he
    have hk : e.idempotency_key ∈ map.keys :=
      (hd.keys _).mpr (List.mem_map_of_mem he)
    refine (h.covered _ hk).imp_left fun hc => ?_
    obtain ⟨c, hc, hck⟩ := List.mem_map.mp hc
    obtain ⟨r, hr, hrc⟩ := h.exists_row hd hident hc
    exact List.mem_map.mpr ⟨r, hr,
      (congrArg EventIdempotency.idempotency_key hrc).trans hck⟩

end Store

/-! ## The steps of a request -/

section Steps

variable {pol : ServicePolicy} {S : History → Prop} {i : ℕ} {α : Type}
  {Q : Except PyError α → World → Prop} {w : World} {tx : Tx}

theorem wp_eventIdMap {events : List EventIngest} {keys : List String}
    {map : Dict String UUID} {f : Dict String UUID → Service α}
    (htx : w.txs.get? i = some tx) (h : Drawn i keys map w)
    (hnext : ∀ w' map', w'.txs.get? i = some tx →
      Drawn i (keys ++ events.map (·.idempotency_key)) map' w' →
      Wp pol (Inv S) i (f map') Q w') :
    Wp pol (Inv S) i (EventRepository.eventIdMap events map >>= f) Q w := by
  induction events generalizing keys map w with
  | nil => exact hnext w map htx (by simpa using h)
  | cons e events ih =>
      rw [EventRepository.eventIdMap, bind_assoc, perform_bind]
      refine wp_uuid4 fun w' u hr hi hu => ?_
      have hdrawn := ((h.frame (frame_of_rely hr)).draw (k := e.idempotency_key)
        hi.1.raw_issued hu)
      refine ih ((frame_of_rely hr).tx.trans htx) hdrawn ?_
      intro w₂ map' htx₂ h₂
      exact hnext w₂ map' htx₂ (by simpa using h₂)

/-- The claims fail over a null character, and over nothing else. -/
theorem wp_claim_or {keys : List String} {map : Dict String UUID}
    {f : List EventIdempotency → Service α} (htx : w.txs.get? i = some tx)
    (hopen : tx.aborted = false) (hempty : tx.writes = ∅)
    (h : Drawn i keys map w)
    (hraise : ∀ w', (∃ k ∈ map.keys, hasNul k = true) →
      Q (.error (.db .invalidText)) w')
    (hnext : ∀ w' tx' claims, Coherent w' → w'.txs.get? i = some tx' →
      Drawn i keys map w' → Claimed map claims w'.db tx' →
      Wp pol (Inv S) i (f claims) Q w') :
    Wp pol (Inv S) i
      (execute (.insertIdempotency (map.entries.map fun p => ⟨p.1, p.2⟩)) >>= f)
      Q w := by
  rw [execute_bind]
  refine wp_sql htx hopen (by simp) ?_ ?_
  · intro w' ch x ws hr hi htx' _ hrun hcoh
    obtain ⟨htext, rfl, rfl⟩ := Stmt.run_insertIdempotency.mp hrun
    have hview : (w'.view tx).event_idempotency = w'.db.event_idempotency := by
      simp [World.view, hempty]
    rw [hview, hempty, overlay_idempotencyWrites] at hcoh
    rw [hview, hempty, overlay_idempotencyWrites]
    generalize hclaims : freshBy (·.idempotency_key)
      (w'.db.event_idempotency.map (·.idempotency_key))
      (map.entries.map fun p => (⟨p.1, p.2⟩ : EventIdempotency)) = claims
      at hcoh ⊢
    have hclaimed : Claimed map claims w'.db
        { tx with writes := Stmt.idempotencyWrites claims } :=
      hclaims ▸ Claimed.insert hopen htext
    have hset : (w'.setTx i { tx with
        writes := Stmt.idempotencyWrites claims }).txs.get? i =
        some { tx with writes := Stmt.idempotencyWrites claims } := by
      rw [World.get?_setTx, if_pos rfl]
    exact ⟨hi.2, hnext _ _ claims hcoh hset
      ((h.frame (frame_of_rely hr)).setTx) hclaimed⟩
  · intro w' ch e _ _ _ hrun _
    simp only [Stmt.run] at hrun
    split at hrun
    · rename_i hnul
      cases hrun
      obtain ⟨c, hc, htext⟩ := List.any_eq_true.mp hnul
      obtain ⟨p, hp, rfl⟩ := List.mem_map.mp hc
      exact wp_ret fun w'' _ _ =>
        hraise w'' ⟨p.1, List.mem_map_of_mem hp, htext⟩
    · cases hrun

theorem wp_claim {keys : List String} {map : Dict String UUID}
    {f : List EventIdempotency → Service α} (htx : w.txs.get? i = some tx)
    (hopen : tx.aborted = false) (hempty : tx.writes = ∅)
    (h : Drawn i keys map w) (hraise : ∀ e w, Q (.error e) w)
    (hnext : ∀ w' tx' claims, Coherent w' → w'.txs.get? i = some tx' →
      Drawn i keys map w' → Claimed map claims w'.db tx' →
      Wp pol (Inv S) i (f claims) Q w') :
    Wp pol (Inv S) i
      (execute (.insertIdempotency (map.entries.map fun p => ⟨p.1, p.2⟩)) >>= f)
      Q w :=
  wp_claim_or htx hopen hempty h (fun w' _ => hraise _ w') hnext

/-- Should the insertion fail, it fails with the claims still held. -/
theorem wp_store_or {events : List EventIngest} {map : Dict String UUID}
    {claims : List EventIdempotency} {occurred_at : DateTime}
    {f : List RawEvent → Service α} (htx : w.txs.get? i = some tx)
    (hd : Drawn i (events.map (·.idempotency_key)) map w)
    (h : Claimed map claims w.db tx)
    (hraise : ∀ w' ch e, Inv S w' → Drawn i (events.map (·.idempotency_key)) map w' →
      Claimed map claims w'.db tx →
      (Stmt.insertRawEvents (EventRepository.rawValuesOf events
        (claims.map (·.idempotency_key)) map occurred_at)).run tx.now ch
          (w'.view tx) = some (.error e) → ∀ w'', Q (.error (.db e)) w'')
    (hnext : ∀ w' tx' stored, Coherent w' → w'.txs.get? i = some tx' →
      (EventRepository.rawValuesOf events (claims.map (·.idempotency_key)) map
        occurred_at).mapM RawValues.stored = .ok stored →
      Inserted events (stored.map fun v => { v with created_at := tx.now }) w'.db
        tx' →
      Wp pol (Inv S) i
        (f (stored.map fun v => { v with created_at := tx.now })) Q w') :
    Wp pol (Inv S) i
      (execute (.insertRawEvents (EventRepository.rawValuesOf events
        (claims.map (·.idempotency_key)) map occurred_at)) >>= f) Q w := by
  rw [execute_bind]
  refine wp_sql htx h.isOpen ?_ ?_ ?_
  · intro values hs v hv
    obtain rfl := Stmt.insertRawEvents.inj hs
    obtain ⟨e, -, -, u, hu, rfl⟩ := mem_rawValuesOf.mp hv
    exact hd.issued hu
  · intro w' ch x ws hr hi htx' _ hrun hcoh
    obtain ⟨stored, hstored, rfl, hkey, rfl⟩ := Stmt.run_insertRawEvents.mp hrun
    have hf := frame_of_rely hr
    have hins := (h.frame hf htx).store (hd.frame hf) hstored rfl hkey
    refine ⟨hi.2, hnext _ _ _ hcoh ?_ hstored hins⟩
    rw [World.get?_setTx, if_pos rfl]
  · intro w' ch e hr hi _ hrun _
    have hf := frame_of_rely hr
    exact wp_ret fun w'' _ _ =>
      hraise w' ch e hi (hd.frame hf) (h.frame hf htx) hrun w''

theorem wp_store {events : List EventIngest} {map : Dict String UUID}
    {claims : List EventIdempotency} {occurred_at : DateTime}
    {f : List RawEvent → Service α} (htx : w.txs.get? i = some tx)
    (hd : Drawn i (events.map (·.idempotency_key)) map w)
    (h : Claimed map claims w.db tx) (hraise : ∀ e w, Q (.error e) w)
    (hnext : ∀ w' tx' rows, Coherent w' → w'.txs.get? i = some tx' →
      Inserted events rows w'.db tx' → Wp pol (Inv S) i (f rows) Q w') :
    Wp pol (Inv S) i
      (execute (.insertRawEvents (EventRepository.rawValuesOf events
        (claims.map (·.idempotency_key)) map occurred_at)) >>= f) Q w :=
  wp_store_or htx hd h (fun _ _ _ _ _ _ _ w'' => hraise _ w'')
    fun w' tx' _ hcoh htx' _ hins => hnext w' tx' _ hcoh htx' hins

theorem wp_redisWrite {transaction : Bool} {ops : List RedisOp}
    {f : Unit → Service α} (hraise : ∀ e w, Q (.error e) w)
    (hnext : ∀ w' r, Interferes pol S i w w' → Inv S w' →
      Wp pol (Inv S) i (f ()) Q { w' with redis := r }) :
    Wp pol (Inv S) i (RedisRepository.write transaction ops >>= f) Q w := by
  rw [RedisRepository.write, bind_assoc, perform_bind]
  refine wp_quiet rfl fun w' x r hr hi => ?_
  cases x with
  | ok x => exact hnext w' r hr hi
  | error e => exact wp_ret fun w'' _ _ => hraise _ w''

/-- A notification of the session may fail. -/
def NotifyMayFail (pol : ServicePolicy) (i : ℕ) : Prop :=
  ∃ w payload n, pol.call w i (.sql (.pgNotify payload)) (.fail n)

/-- The notification may fail, and then the transaction is lost. -/
theorem wp_notify {id : UUID} {f : Unit → Service α}
    (htx : w.txs.get? i = some tx) (hopen : tx.aborted = false)
    (hnext : ∀ w', Interferes pol S i w w' → Inv S w' →
      w'.txs.get? i = some tx → Wp pol (Inv S) i (f ()) Q w')
    (hlost : ∀ w' tx', Coherent w' → w'.txs.get? i = some tx' →
      tx'.aborted = true → NotifyMayFail pol i →
      (∀ {u j}, w.issued.get? u = some j → w'.issued.get? u = some j) →
      Wp pol (Inv S) i (f ()) Q w') :
    Wp pol (Inv S) i (notifyBestEffort id >>= f) Q w := by
  rw [notifyBestEffort, EventRepository.notifyNewEvent, execute_eq,
    Prog.call_tryCatch, Prog.call_bind]
  refine wp_sql htx hopen (by simp) ?_ ?_
  · intro w' ch x ws hr hi htx' _ hrun _
    have hws : ws = ∅ := by
      simp only [Stmt.run] at hrun
      split at hrun <;> cases hrun
      rfl
    subst hws
    have hsame : w'.setTx i { tx with writes := (∅ : Db).overlay tx.writes } =
        w' := by
      rw [Db.empty_overlay, World.setTx, Dict.set_eq_self htx']
    refine ⟨hi.2, ?_⟩
    change Wp pol (Inv S) i (f ()) Q (w'.setTx i _)
    rw [hsame]
    exact hnext w' hr hi htx'
  · intro w' ch e hr hi htx' hrun hpol
    have hcoh := World.Effect.coherent (c := .rollback) hi.1 (.abort tx htx')
      (by simp)
    have hfail : ∃ n, ch = .fail n := by
      simp only [Stmt.run] at hrun
      split at hrun
      · cases hrun
      · exact ⟨_, rfl⟩
      · cases hrun
    obtain ⟨n, rfl⟩ := hfail
    refine hlost _ { tx with aborted := true, writes := ∅ } hcoh ?_ rfl
      ⟨w', _, n, hpol⟩ (frame_of_rely hr).issued
    rw [World.get?_setTx, if_pos rfl]

end Steps

/-- What a request leaves for its commit, should its transaction still be
good. -/
def Ready {α : Type} (S : History → Prop) (i : ℕ) (answers : α → Answers)
    (r : Except PyError α) (w : World) : Prop :=
  match r with
  | .ok x => ∃ tx, w.txs.get? i = some tx ∧ (tx.aborted = false →
      Prepared S w.toHistory tx.now tx.writes (answers x))
  | .error _ => True

theorem wp_ready {pol : ServicePolicy} {S : History → Prop} {i : ℕ} {α : Type}
    {answers : α → Answers} {w : World} {tx : Tx} {x : α}
    (hw : Coherent w) (htx : w.txs.get? i = some tx)
    (h : tx.aborted = false →
      Prepared S w.toHistory tx.now tx.writes (answers x)) :
    Wp pol (Inv S) i (pure x) (Ready S i answers) w := by
  refine wp_ret fun w' hr _ => ?_
  have hf := frame_of_rely hr
  exact ⟨tx, hf.tx.trans htx, fun hopen => (h hopen).frame hw hf htx⟩

/-! ## A single event -/

section Event

variable {pol : ServicePolicy} {S : History → Prop} {i : ℕ} {α : Type}
  {Q : Except PyError α → World → Prop} {w : World} {tx : Tx}

theorem wp_one {β : Type} {l : List β} {f : β → Service α}
    (hraise : ∀ e w, Q (.error e) w)
    (hnext : ∀ x, l = [x] → Wp pol (Inv S) i (f x) Q w) :
    Wp pol (Inv S) i (one l >>= f) Q w := by
  match l with
  | [] => exact wp_ret fun w' _ _ => hraise _ w'
  | [x] => exact hnext x rfl
  | _ :: _ :: _ => exact wp_ret fun w' _ _ => hraise _ w'

/-- The event found under a claimed key is a committed one. -/
theorem wp_existingEvent {key : String} {f : RawEvent → Service α}
    (htx : w.txs.get? i = some tx) (hopen : tx.aborted = false)
    (hempty : tx.writes = ∅) (hraise : ∀ e w, Q (.error e) w)
    (hnext : ∀ w' r, Interferes pol S i w w' → Inv S w' →
      w'.txs.get? i = some tx → w'.db.LeadsTo key r →
      Wp pol (Inv S) i (f r) Q w') :
    Wp pol (Inv S) i (EventRepository.existingEvent key >>= f) Q w := by
  rw [EventRepository.existingEvent, bind_assoc, execute_bind]
  refine wp_read (by simp) (fun _ _ _ => rfl) (fun _ _ _ => rfl) htx hopen ?_
  intro w₁ hr₁ hi₁ htx₁
  have hview : ∀ w' : World, w'.view tx = w'.db := by
    intro w'
    rw [World.view, hempty, Db.empty_overlay]
  rw [hview]
  change Wp pol (Inv S) i (one (w₁.db.event_idempotency.filter
    (·.idempotency_key = key)) >>= _ >>= f) Q w₁
  rw [bind_assoc]
  refine wp_one hraise fun c hc => ?_
  have hmem : c ∈ w₁.db.event_idempotency ∧ c.idempotency_key = key := by
    have hc' : c ∈ w₁.db.event_idempotency.filter (·.idempotency_key = key) :=
      hc ▸ List.mem_singleton.mpr rfl
    simpa using hc'
  rw [bind_assoc, execute_bind]
  refine wp_read (by simp) (fun _ _ _ => rfl) (fun _ _ _ => rfl) htx₁ hopen ?_
  intro w₂ hr₂ hi₂ htx₂
  rw [hview]
  refine wp_one hraise fun r hr => ?_
  have hmem' : r ∈ w₂.db.raw_events ∧ r.id = c.event_id := by
    have hr' : r ∈ w₂.db.raw_events.filter (·.id = c.event_id) :=
      hr ▸ List.mem_singleton.mpr rfl
    simpa using hr'
  -- claims are never withdrawn, so the one read first still stands
  have hclaim : c ∈ w₂.db.event_idempotency :=
    (frame_of_rely hr₂).event_idempotency.subset hmem.1
  refine hnext w₂ r (hr₁.trans hr₂) hi₂ htx₂ ⟨hmem'.1, ?_⟩
  rw [hmem'.2, ← hmem.2]
  exact hclaim

/-- The row and the duplicate flag of a single insertion. -/
theorem wp_insertEvent {event : EventIngest} {occurred_at : DateTime}
    {f : RawEvent × Bool → Service α}
    (htx : w.txs.get? i = some tx) (hopen : tx.aborted = false)
    (hempty : tx.writes = ∅) (hraise : ∀ e w, Q (.error e) w)
    (hdup : ∀ w' tx' r, Inv S w' → w'.txs.get? i = some tx' →
      tx'.writes = ∅ → w'.db.LeadsTo event.idempotency_key r →
      Wp pol (Inv S) i (f (r, true)) Q w')
    (hnew : ∀ w' tx' r, Coherent w' → w'.txs.get? i = some tx' →
      Inserted [event] [r] w'.db tx' → Wp pol (Inv S) i (f (r, false)) Q w') :
    Wp pol (Inv S) i
      (EventRepository.insertEvent event occurred_at >>= f) Q w := by
  rw [EventRepository.insertEvent, bind_assoc, perform_bind]
  refine wp_uuid4 fun w₁ u hr₁ hi₁ hu => ?_
  have hdrawn := (Drawn.empty (i := i)).draw (k := event.idempotency_key)
    hi₁.1.raw_issued hu
  have htx₁ := (frame_of_rely hr₁).tx.trans htx
  rw [bind_assoc]
  change Wp pol (Inv S) i (execute (.insertIdempotency
    (((∅ : Dict String UUID).set event.idempotency_key u).entries.map
      fun p => ⟨p.1, p.2⟩)) >>= _) Q _
  -- the one key is a batch of one key
  refine wp_claim (w := { w₁ with issued := w₁.issued.set u i }) htx₁ hopen
    hempty hdrawn hraise fun w₂ tx₂ claims hcoh₂ htx₂ hd₂ hc₂ => ?_
  split
  · rename_i hnone
    have hwrites : tx₂.writes = ∅ := by
      rw [hc₂.written, hnone]
      rfl
    rw [bind_assoc]
    refine wp_existingEvent htx₂ hc₂.isOpen hwrites hraise ?_
    intro w₃ r _ hi₃ htx₃ hr
    exact hdup w₃ tx₂ r hi₃ htx₃ hwrites hr
  · rename_i hsome
    obtain ⟨c, hc⟩ := List.exists_mem_of_ne_nil _ hsome
    -- the claim won is the one that was offered
    have hck : c.idempotency_key = event.idempotency_key := by
      have hdr := hc₂.drawn c hc
      rw [Dict.get?_set] at hdr
      by_contra hne
      simp [hne] at hdr
    have hkey : event.idempotency_key ∈ claims.map (·.idempotency_key) :=
      hck ▸ List.mem_map_of_mem (f := EventIdempotency.idempotency_key) hc
    have hvalues : [event.rawValues u occurred_at] =
        EventRepository.rawValuesOf [event] (claims.map (·.idempotency_key))
          ((∅ : Dict String UUID).set event.idempotency_key u) occurred_at := by
      rw [EventRepository.rawValuesOf, List.filter_cons_of_pos (by simpa using hkey)]
      simp
    rw [bind_assoc, hvalues]
    refine wp_store htx₂ hd₂ hc₂ hraise fun w₃ tx₃ rows hcoh₃ htx₃ hins => ?_
    rw [bind_assoc]
    refine wp_one hraise fun r hr => ?_
    subst hr
    exact hnew w₃ tx₃ r hcoh₃ htx₃ hins

/-- The answer to a single event. -/
def eventAnswers (event : EventIngest) (x : EventIngestResponse × Bool) :
    Answers :=
  [(event.idempotency_key, x.1)]

theorem wp_ingestEvent {event : EventIngest} (htx : w.txs.get? i = some tx)
    (hopen : tx.aborted = false) (hempty : tx.writes = ∅) :
    Wp pol (Inv S) i (IngestionService.ingestEvent event)
      (Ready S i (eventAnswers event)) w := by
  have hraise : ∀ (e : PyError) w,
      Ready S i (eventAnswers event) (.error e) w := fun _ _ => trivial
  rw [IngestionService.ingestEvent, EventRepository.merchantExists, bind_assoc,
    execute_bind]
  refine wp_read (by simp) (fun _ _ _ => rfl) (fun _ _ _ => rfl) htx hopen ?_
  intro w₁ _ _ htx₁
  simp only [pure_bind]
  split
  · rw [perform_bind]
    refine wp_quiet rfl fun w₂ t r hr₂ _ => ?_
    have htx₂ := (frame_of_rely hr₂).tx.trans htx₁
    -- a duplicate writes nothing, a new event its row and its claim
    refine wp_insertEvent (w := { w₂ with redis := r }) htx₂ hopen hempty
      hraise ?_ ?_
    · intro w₃ tx₃ row hi₃ htx₃ hwrites hrow
      have hevents : NewEvents w₃.db tx₃.now tx₃.writes :=
        hwrites ▸ NewEvents.empty _ _
      refine wp_ready hi₃.1 htx₃ fun _ => ⟨hevents, fun hS => ⟨hevents, ?_, ?_⟩⟩
      · have hkey := (hS _ hi₃.2).key_of_leadsTo hrow
        simp only [eventAnswers, List.mem_singleton, forall_eq]
        exact ⟨row, hkey, rfl, hrow.1⟩
      · simp [hwrites]
    · intro w₃ tx₃ row hcoh₃ htx₃ hins
      -- the answer, once the event is stored
      have hready : ∀ w₄, Coherent w₄ → w₄.txs.get? i = some tx₃ →
          Inserted [event] [row] w₄.db tx₃ → Wp pol (Inv S) i
            (pure (row.response false, false)) (Ready S i (eventAnswers event))
            w₄ := by
        intro w₄ hcoh₄ htx₄ h₄
        have hkey : row.idempotency_key = event.idempotency_key := by
          simpa using h₄.submitted row (List.mem_singleton.mpr rfl)
        refine wp_ready hcoh₄ htx₄ fun _ =>
          ⟨h₄.new, fun _ => ⟨h₄.new, ?_, ?_⟩⟩
        · simp only [eventAnswers, List.mem_singleton, forall_eq]
          refine ⟨row, hkey, rfl, ?_⟩
          simp [RawEvent.response, h₄.stored]
        · intro r hr
          rw [h₄.stored, List.mem_singleton] at hr
          subst hr
          exact ⟨_, List.mem_singleton.mpr rfl, hkey.symm, rfl⟩
      simp only [Bool.false_eq_true, if_false]
      -- a failed notification aborts the transaction, so nothing is promised
      refine wp_notify htx₃ hins.isOpen ?_ ?_
      · intro w₄ hr₄ hi₄ htx₄
        have h₄ := hins.frame hcoh₃ (frame_of_rely hr₄) htx₃
        refine wp_redisWrite hraise fun w₅ r₅ hr₅ hi₅ => ?_
        have hf₅ := frame_of_rely hr₅
        have h₅ := h₄.frame hi₄.1 hf₅ htx₄
        exact hready { w₅ with redis := r₅ } (hi₅.1.of_eq rfl rfl rfl)
          (hf₅.tx.trans htx₄) h₅
      · intro w₄ tx₄ _ htx₄ hab _ _
        refine wp_redisWrite hraise fun w₅ r₅ hr₅ hi₅ => ?_
        have htx₅ := (frame_of_rely hr₅).tx.trans htx₄
        refine wp_ready (w := { w₅ with redis := r₅ })
          (hi₅.1.of_eq rfl rfl rfl) htx₅ ?_
        intro hopen₄
        exact absurd hab (by simp [hopen₄])
  · exact wp_ret fun _ _ _ => trivial

end Event

/-! ## A batch -/

section Batch

variable {pol : ServicePolicy} {S : History → Prop} {i : ℕ} {α : Type}
  {Q : Except PyError α → World → Prop} {w : World} {tx : Tx}

theorem Claimed.nothing {map : Dict String UUID}
    {claims : List EventIdempotency} {events : List EventIngest} {db : Db}
    (h : Claimed map claims db tx)
    (hkeys : ∀ k, k ∈ map.keys ↔ k ∈ events.map (·.idempotency_key))
    (hnone : claims.map (·.idempotency_key) = []) :
    Inserted events [] db tx := by
  have hwrites : tx.writes = ∅ := by
    rw [h.written, List.map_eq_nil_iff.mp hnone]
    rfl
  refine ⟨h.isOpen, hwrites ▸ NewEvents.empty _ _, by rw [hwrites]; rfl,
    by simp, ?_⟩
  intro e he
  have hk := h.covered _ ((hkeys _).mpr (List.mem_map_of_mem he))
  rw [hnone] at hk
  exact .inr (hk.resolve_left List.not_mem_nil)

theorem wp_insertBatch {events : List EventIngest} {occurred_at : DateTime}
    {f : List RawEvent × ℤ → Service α} (htx : w.txs.get? i = some tx)
    (hopen : tx.aborted = false) (hempty : tx.writes = ∅)
    (hraise : ∀ e w, Q (.error e) w)
    (hnext : ∀ w' tx' rows n, Coherent w' → w'.txs.get? i = some tx' →
      Inserted events rows w'.db tx' → Wp pol (Inv S) i (f (rows, n)) Q w') :
    Wp pol (Inv S) i
      (EventRepository.insertBatch events occurred_at >>= f) Q w := by
  rw [EventRepository.insertBatch, bind_assoc]
  refine wp_eventIdMap htx .empty fun w₁ map htx₁ hd₁ => ?_
  rw [List.nil_append] at hd₁
  rw [bind_assoc]
  refine wp_claim htx₁ hopen hempty hd₁ hraise ?_
  intro w₂ tx₂ claims hcoh₂ htx₂ hd₂ hc₂
  simp only
  split
  · rename_i hnone
    exact hnext w₂ tx₂ [] _ hcoh₂ htx₂ (hc₂.nothing hd₂.keys hnone)
  · rw [bind_assoc]
    refine wp_store htx₂ hd₂ hc₂ hraise fun w₃ tx₃ rows hcoh₃ htx₃ hins => ?_
    exact hnext w₃ tx₃ rows _ hcoh₃ htx₃ hins

/-- The announcement leaves everything as it was, or loses the transaction. -/
theorem wp_announce {rows : List RawEvent} {f : Unit → Service α}
    (htx : w.txs.get? i = some tx) (hopen : tx.aborted = false)
    (hraise : ∀ e w, Q (.error e) w)
    (hnext : ∀ w', Frame i w w' → Coherent w' → w'.txs.get? i = some tx →
      Wp pol (Inv S) i (f ()) Q w')
    (hlost : ∀ w' tx', Coherent w' → w'.txs.get? i = some tx' →
      tx'.aborted = true → NotifyMayFail pol i →
      (∀ {u j}, w.issued.get? u = some j → w'.issued.get? u = some j) →
      Wp pol (Inv S) i (f ()) Q w') (hw : Coherent w) :
    Wp pol (Inv S) i (IngestionService.announce rows >>= f) Q w := by
  rw [IngestionService.announce]
  cases rows.getLast? with
  | none => exact hnext w (.refl i w) hw htx
  | some last =>
      dsimp only
      rw [bind_assoc]
      refine wp_redisWrite hraise fun w₁ r hr₁ _ => ?_
      have hf₁ := frame_of_rely hr₁
      refine wp_notify (w := { w₁ with redis := r }) (hf₁.tx.trans htx) hopen
        ?_ ?_
      · intro w₂ hr₂ hi₂ htx₂
        have hf₂ := frame_of_rely hr₂
        have hf : Frame i w₁ { w₁ with redis := r } :=
          .of_eq rfl rfl List.prefix_rfl id
        exact hnext w₂ (hf₁.trans (hf.trans hf₂)) hi₂.1 htx₂
      · intro w₂ tx₂ hcoh₂ htx₂ hab hfail hissued
        exact hlost w₂ tx₂ hcoh₂ htx₂ hab hfail
          fun hu => hissued (hf₁.issued hu)

theorem Deduplicated.nodup_raw_keys {db : Db} (h : Deduplicated db) :
    (db.raw_events.map (·.idempotency_key)).Nodup :=
  (h.ids.of_map _).map_on fun _ hr _ hr' heq => h.eq_of_key hr hr' heq

/-- The map `{row.idempotency_key: row}` of rows with different keys. -/
theorem get?_byKey {rows : List RawEvent} {k : String} {r : RawEvent}
    (h : (rows.map (·.idempotency_key)).Nodup) :
    (Dict.ofList (rows.map fun r => (r.idempotency_key, r))).get? k = some r ↔
      r ∈ rows ∧ r.idempotency_key = k := by
  have hfst : (rows.map fun r => (r.idempotency_key, r)).map Prod.fst =
      rows.map (·.idempotency_key) := by
    simp
  rw [Dict.get?_ofList_eq_some_iff (hfst ▸ h), List.mem_map]
  constructor
  · rintro ⟨r', hr', heq⟩
    cases heq
    exact ⟨hr', rfl⟩
  · rintro ⟨hr, rfl⟩
    exact ⟨r, hr, rfl⟩

theorem keys_byKey {rows : List RawEvent} {k : String}
    (h : (rows.map (·.idempotency_key)).Nodup) :
    k ∈ (Dict.ofList (rows.map fun r => (r.idempotency_key, r))).keys ↔
      k ∈ rows.map (·.idempotency_key) := by
  have hfst : (rows.map fun r => (r.idempotency_key, r)).map Prod.fst =
      rows.map (·.idempotency_key) := List.map_map ..
  rw [Dict.mem_keys_ofList (hfst ▸ h), hfst]

/-- What the response to one event of a batch says. -/
theorem Inserted.batchResponse {events : List EventIngest}
    {rows : List RawEvent} {db : Db} {existing : Dict String RawEvent}
    {e : EventIngest} (h : Inserted events rows db tx)
    (hdb : Deduplicated db) (he : e ∈ events)
    (hexisting : ∀ k r, existing.get? k = some r ↔
      k ∉ rows.map (·.idempotency_key) ∧
        k ∈ events.map (·.idempotency_key) ∧
        r ∈ (tx.writes.overlay db).raw_events ∧ r.idempotency_key = k)
    (occurred_at : DateTime) :
    ∃ r : RawEvent, r.idempotency_key = e.idempotency_key ∧
      ((IngestionService.batchResponse occurred_at
          (Dict.ofList (rows.map fun r => (r.idempotency_key, r))) existing e =
          r.response false ∧ r ∈ rows) ∨
        IngestionService.batchResponse occurred_at
          (Dict.ofList (rows.map fun r => (r.idempotency_key, r))) existing e =
          r.response true ∧ r ∈ db.raw_events ∧
          e.idempotency_key ∉ rows.map (·.idempotency_key)) := by
  have hnd : (rows.map (·.idempotency_key)).Nodup :=
    h.stored ▸ h.new.deduplicated.nodup_raw_keys
  rw [IngestionService.batchResponse]
  cases hins : (Dict.ofList (rows.map fun r => (r.idempotency_key, r))).get?
      e.idempotency_key with
  | some r =>
      obtain ⟨hr, hk⟩ := (get?_byKey hnd).mp hins
      exact ⟨r, hk, .inl ⟨rfl, hr⟩⟩
  | none =>
      have hnot : e.idempotency_key ∉ rows.map (·.idempotency_key) := by
        intro hmem
        obtain ⟨r, hr, hk⟩ := List.mem_map.mp hmem
        rw [(get?_byKey hnd).mpr ⟨hr, hk⟩] at hins
        cases hins
      obtain ⟨c, hc, hck⟩ :=
        List.mem_map.mp ((h.covered e he).resolve_left hnot)
      obtain ⟨r, hr, rfl⟩ := (hdb.claims c).mp hc
      have hget : existing.get? e.idempotency_key = some r :=
        (hexisting _ _).mpr ⟨hnot, List.mem_map_of_mem he,
          List.mem_append_left _ hr, hck⟩
      refine ⟨r, hck, .inr ⟨?_, hr, hnot⟩⟩
      simp only [hget, RawEvent.response]
      rw [← hck]
      rfl

/-- The answers of a batch to its keys. -/
def batchAnswers (events : List EventIngest) (x : BatchIngestResponse) :
    Answers :=
  (events.map (·.idempotency_key)).zip x.events

/-- Answers that name their keys, and identifiers that were drawn. -/
def Genuine (w : World) (answers : Answers) : Prop :=
  ∀ p ∈ answers,
    p.2.idempotency_key = p.1 ∧ w.issued.get? p.2.event_id ≠ none

theorem IngestTx.genuine {answers : Answers}
    (h : IngestTx w.toHistory tx.now tx.writes answers) (hw : Coherent w)
    (htx : w.txs.get? i = some tx) : Genuine w answers := by
  intro p hp
  obtain ⟨r, hk, hr, hmem⟩ := h.answered p hp
  rw [hr]
  refine ⟨hk, ?_⟩
  show w.issued.get? r.id ≠ none
  split at hmem
  · exact hw.raw_issued r hmem
  · rw [hw.pending_issued htx r hmem]
    simp

/-- What a batch leaves when it returns: a response for each event, and its
transaction ready for its commit unless a notification has failed. -/
def BatchReturned (pol : ServicePolicy) (S : History → Prop) (i : ℕ)
    (events : List EventIngest) (r : Except PyError BatchIngestResponse)
    (w : World) : Prop :=
  match r with
  | .ok x => x.events.length = events.length ∧
      ∃ tx, w.txs.get? i = some tx ∧
        (tx.aborted = false →
          Prepared S w.toHistory tx.now tx.writes (batchAnswers events x)) ∧
        (tx.aborted = true →
          NotifyMayFail pol i ∧ Genuine w (batchAnswers events x))
  | .error _ => True

theorem BatchReturned.ready {events : List EventIngest}
    {r : Except PyError BatchIngestResponse}
    (h : BatchReturned pol S i events r w) :
    Ready S i (batchAnswers events) r w := by
  cases r with
  | ok x =>
      obtain ⟨-, tx, htx, hready, -⟩ := h
      exact ⟨tx, htx, hready⟩
  | error e => trivial

theorem Inserted.ingestTx {events : List EventIngest} {rows : List RawEvent}
    {h : History} {existing : Dict String RawEvent} {occurred_at : DateTime}
    {accepted duplicates : ℤ} (hins : Inserted events rows h.db tx)
    (hdb : Deduplicated h.db)
    (hexisting : ∀ k r, existing.get? k = some r ↔
      k ∉ rows.map (·.idempotency_key) ∧
        k ∈ events.map (·.idempotency_key) ∧
        r ∈ (tx.writes.overlay h.db).raw_events ∧ r.idempotency_key = k) :
    IngestTx h tx.now tx.writes (batchAnswers events
      ⟨accepted, duplicates, events.map (IngestionService.batchResponse
        occurred_at (Dict.ofList (rows.map fun r => (r.idempotency_key, r)))
        existing)⟩) where
  events := hins.new
  answered := fun p hp => by
    rw [batchAnswers, List.zip_map', List.mem_map] at hp
    obtain ⟨e, he, rfl⟩ := hp
    obtain ⟨r, hk, ⟨hresp, hr⟩ | ⟨hresp, hr, -⟩⟩ :=
      hins.batchResponse hdb he hexisting occurred_at
    · refine ⟨r, hk, ?_, ?_⟩
      · simp [hresp, RawEvent.response]
      · simpa [hresp, RawEvent.response, hins.stored] using hr
    · refine ⟨r, hk, ?_, ?_⟩
      · simp [hresp, RawEvent.response]
      · simpa [hresp, RawEvent.response] using hr
  acknowledged := fun r hr => by
    rw [hins.stored] at hr
    obtain ⟨e, he, hek⟩ := List.mem_map.mp (hins.submitted r hr)
    refine ⟨(e.idempotency_key, IngestionService.batchResponse occurred_at
      (Dict.ofList (rows.map fun r => (r.idempotency_key, r))) existing e),
      ?_, hek, ?_⟩
    · rw [batchAnswers, List.zip_map', List.mem_map]
      exact ⟨e, he, rfl⟩
    · obtain ⟨r', -, ⟨hresp, -⟩ | ⟨-, -, hnot⟩⟩ :=
        hins.batchResponse hdb he hexisting occurred_at
      · simp [hresp, RawEvent.response]
      · exact absurd (hek ▸ List.mem_map_of_mem hr) hnot

theorem Inserted.deduplicated {events : List EventIngest}
    {rows : List RawEvent} {db : Db} (h : Inserted events rows db tx)
    (hdb : Deduplicated db) : Deduplicated (tx.writes.overlay db) :=
  h.new.deduplicates hdb

/-- The stored events of the keys that were not inserted. -/
theorem Inserted.existing {events : List EventIngest} {rows : List RawEvent}
    {db : Db} (h : Inserted events rows db tx) (hdb : Deduplicated db)
    (k : String) (r : RawEvent) :
    (Dict.ofList (((tx.writes.overlay db).raw_events.filter
        (·.idempotency_key ∈ (events.map (·.idempotency_key)).filter
          (· ∉ (Dict.ofList (rows.map fun r => (r.idempotency_key, r))).keys))).map
        fun r => (r.idempotency_key, r))).get? k = some r ↔
      k ∉ rows.map (·.idempotency_key) ∧
        k ∈ events.map (·.idempotency_key) ∧
        r ∈ (tx.writes.overlay db).raw_events ∧ r.idempotency_key = k := by
  have hnd : (rows.map (·.idempotency_key)).Nodup :=
    h.stored ▸ h.new.deduplicated.nodup_raw_keys
  have hfst : (rows.map fun r => (r.idempotency_key, r)).map Prod.fst =
      rows.map (·.idempotency_key) := by
    simp
  have hkeys : ∀ k', k' ∈
      (Dict.ofList (rows.map fun r => (r.idempotency_key, r))).keys ↔
        k' ∈ rows.map (·.idempotency_key) := by
    intro k'
    rw [Dict.mem_keys_ofList (hfst ▸ hnd), hfst]
  have hview := (h.deduplicated hdb).nodup_raw_keys
  rw [get?_byKey (hview.sublist (List.filter_sublist.map _)), List.mem_filter]
  simp only [decide_eq_true_eq, List.mem_filter, hkeys]
  constructor
  · rintro ⟨⟨hr, hk, hnot⟩, rfl⟩
    exact ⟨hnot, hk, hr, rfl⟩
  · rintro ⟨hnot, hk, hr, rfl⟩
    exact ⟨⟨hr, hk, hnot⟩, rfl⟩

theorem wp_batchResponses {events : List EventIngest} {rows : List RawEvent}
    {occurred_at : DateTime} {n : ℤ} (hw : Coherent w) (htx : w.txs.get? i = some tx)
    (h : Inserted events rows w.db tx) :
    Wp pol (Inv S) i
      (do
        let responses ← IngestionService.batchResponses events occurred_at rows
        pure ⟨rows.length, n, responses⟩)
      (BatchReturned pol S i events) w := by
  have hopen : ∀ {P : Prop}, tx.aborted = true → P := fun hab => by
    rw [h.isOpen] at hab
    cases hab
  rw [IngestionService.batchResponses, EventRepository.getByIdempotencyKeys,
    bind_assoc]
  split
  · rename_i hnone
    refine wp_ret fun w₁ hr₁ hi₁ => ?_
    have hf := frame_of_rely hr₁
    have h₁ := h.frame hw hf htx
    refine ⟨List.length_map .., tx, hf.tx.trans htx,
      fun _ => ⟨h₁.new, fun hS => ?_⟩, hopen⟩
    have hexisting := h₁.existing (hS _ hi₁.2)
    have hempty : (tx.writes.overlay w₁.db).raw_events.filter
        (fun r => decide (r.idempotency_key ∈ ([] : List String))) = [] := by
      simp
    rw [hnone, hempty] at hexisting
    exact h₁.ingestTx (hS _ hi₁.2) hexisting
  · rw [bind_assoc, execute_bind]
    refine wp_read (by simp) (fun _ _ _ => rfl) (fun _ _ _ => rfl) htx h.isOpen ?_
    intro w₁ hr₁ hi₁ htx₁
    have h₁ := h.frame hw (frame_of_rely hr₁) htx
    refine wp_ret fun w₂ hr₂ _ => ?_
    have hf₂ := frame_of_rely hr₂
    refine ⟨List.length_map .., tx, hf₂.tx.trans htx₁, fun _ =>
      Prepared.frame ⟨h₁.new, fun hS => ?_⟩ hi₁.1 hf₂ htx₁, hopen⟩
    have hdb := hS _ hi₁.2
    exact h₁.ingestTx hdb (h₁.existing hdb)

/-- In a lost transaction the lookup of duplicates fails, so the responses are
those of a batch without any. -/
theorem wp_batchResponses_lost {events : List EventIngest}
    {rows : List RawEvent} {occurred_at : DateTime} {n : ℤ}
    (htx : w.txs.get? i = some tx) (hab : tx.aborted = true)
    (hfail : NotifyMayFail pol i)
    (hnd : (rows.map (·.idempotency_key)).Nodup)
    (hissued : ∀ r ∈ rows, w.issued.get? r.id = some i) :
    Wp pol (Inv S) i
      (do
        let responses ← IngestionService.batchResponses events occurred_at rows
        pure ⟨rows.length, n, responses⟩)
      (BatchReturned pol S i events) w := by
  rw [IngestionService.batchResponses, EventRepository.getByIdempotencyKeys,
    bind_assoc]
  split
  · rename_i hnone
    refine wp_ret fun w₁ hr₁ _ => ?_
    have hf := frame_of_rely hr₁
    refine ⟨List.length_map .., tx, hf.tx.trans htx, fun hopen => ?_,
      fun _ => ⟨hfail, fun p hp => ?_⟩⟩
    · rw [hab] at hopen
      cases hopen
    · rw [batchAnswers, List.zip_map', List.mem_map] at hp
      obtain ⟨e, he, rfl⟩ := hp
      have hkey : e.idempotency_key ∈
          (Dict.ofList (rows.map fun r => (r.idempotency_key, r))).keys := by
        have hall := List.filter_eq_nil_iff.mp hnone _
          (List.mem_map_of_mem he)
        simpa using hall
      obtain ⟨r, hget⟩ := Dict.mem_keys_iff.mp hkey
      obtain ⟨hr, hk⟩ := (get?_byKey hnd).mp hget
      simp only [IngestionService.batchResponse, hget, RawEvent.response]
      refine ⟨hk, ?_⟩
      rw [hf.issued (hissued r hr)]
      simp
  · rw [bind_assoc, execute_bind]
    refine wp_sql_aborted htx hab fun w₁ _ _ _ => ?_
    exact wp_ret fun _ _ _ => trivial

theorem wp_storeBatch {events : List EventIngest}
    (htx : w.txs.get? i = some tx) (hopen : tx.aborted = false) (hempty : tx.writes = ∅) :
    Wp pol (Inv S) i (IngestionService.storeBatch events)
      (BatchReturned pol S i events) w := by
  have hraise : ∀ (e : PyError) w,
      BatchReturned pol S i events (.error e) w := fun _ _ => trivial
  rw [IngestionService.storeBatch, perform_bind]
  refine wp_quiet rfl fun w₁ t r hr₁ _ => ?_
  have htx₁ := (frame_of_rely hr₁).tx.trans htx
  refine wp_insertBatch (w := { w₁ with redis := r }) htx₁ hopen hempty hraise
    fun w₂ tx₂ rows n hcoh₂ htx₂ hins => ?_
  refine wp_announce htx₂ hins.isOpen hraise ?_ ?_ hcoh₂
  · intro w₃ hf₃ hcoh₃ htx₃
    exact wp_batchResponses hcoh₃ htx₃ (hins.frame hcoh₂ hf₃ htx₂)
  · intro w₃ tx₃ _ htx₃ hab hfail hissued
    have hnd := hins.new.deduplicated.nodup_raw_keys
    rw [hins.stored] at hnd
    refine wp_batchResponses_lost htx₃ hab hfail hnd fun r hr => ?_
    exact hissued (hcoh₂.pending_issued htx₂ r (hins.stored ▸ hr))

theorem wp_ingestBatch {events : List EventIngest}
    (htx : w.txs.get? i = some tx) (hopen : tx.aborted = false) (hempty : tx.writes = ∅) :
    Wp pol (Inv S) i (IngestionService.ingestBatch events)
      (BatchReturned pol S i events) w := by
  rw [IngestionService.ingestBatch, EventRepository.missingMerchantIds]
  split
  · rw [pure_bind]
    exact wp_storeBatch htx hopen hempty
  · rw [bind_assoc, execute_bind]
    refine wp_read (by simp) (fun _ _ _ => rfl) (fun _ _ _ => rfl) htx hopen ?_
    intro w₁ _ _ htx₁
    dsimp only
    rw [pure_bind]
    split
    · exact wp_ret fun _ _ _ => trivial
    · exact wp_storeBatch htx₁ hopen hempty

end Batch

/-! ## Requests -/

section Requests

variable {pol : ServicePolicy} {S : History → Prop} {i : ℕ} {w : World}

/-- What the invariant must allow: the commit of an ingest transaction. -/
def Ingests (pol : ServicePolicy) (S : History → Prop) : Prop :=
  ∀ {i : ℕ} {w : World} {tx : Tx} {answers : Answers}, Inv S w →
    w.txs.get? i = some tx → tx.aborted = false →
    pol.call w i (.commit answers) .auto →
    IngestTx w.toHistory tx.now tx.writes answers →
    S (w.toHistory.install tx.writes answers)

/-- The same, also for tables that need not be deduplicated. -/
def Prepares (pol : ServicePolicy) (S : History → Prop) : Prop :=
  ∀ {i : ℕ} {w : World} {tx : Tx} {answers : Answers}, Inv S w →
    w.txs.get? i = some tx → tx.aborted = false →
    pol.call w i (.commit answers) .auto →
    Prepared S w.toHistory tx.now tx.writes answers →
    S (w.toHistory.install tx.writes answers)

theorem Ingests.prepares (hS : ∀ h, S h → Deduplicated h.db)
    (h : Ingests pol S) : Prepares pol S :=
  fun hi htx hopen hpol hp => h hi htx hopen hpol (hp.answered hS)

/-- **An ingest request under interference**: it meets the shared state only in
the commit of what it has prepared. -/
theorem wp_ingestEventRequest (payload : EventIngest)
    (hcommit : Prepares pol S) (hidle : w.txs.get? i = none) :
    Wp pol (Inv S) i (ingestEventRequest payload)
      (fun _ w => w.txs.get? i = none) w := by
  refine wp_getDb (R := fun x w tx => Prepared S w.toHistory tx.now tx.writes
    (eventAnswers payload x)) hidle ?_ ?_
  · intro w₁ t _ _ _
    exact wp_ingestEvent (by rw [World.get?_setTx, if_pos rfl]) rfl rfl
  · intro x w₁ tx hi htx hopen hready hpol
    exact hcommit hi htx hopen hpol hready

theorem wp_ingestBatchRequest (payload : BatchEventIngest)
    (hcommit : Prepares pol S) (hidle : w.txs.get? i = none) :
    Wp pol (Inv S) i (ingestBatchRequest payload)
      (fun _ w => w.txs.get? i = none) w := by
  refine wp_getDb (R := fun x w tx => Prepared S w.toHistory tx.now tx.writes
    (batchAnswers payload.events x)) hidle ?_ ?_
  · intro w₁ t _ _ _
    exact Wp.mono (fun _ _ _ h => h.ready)
      (wp_ingestBatch (by rw [World.get?_setTx, if_pos rfl]) rfl rfl)
  · intro x w₁ tx hi htx hopen hready hpol
    exact hcommit hi htx hopen hpol hready

end Requests

end AnalyticsPipeline
