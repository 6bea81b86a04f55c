import AnalyticsPipeline.Metatheory.SolitaryIngest

/-!
# A batch request alone

A batch is stored as a whole: its new events, each under an identifier of its
key. Two new events with one key get one identifier and the same instant, and
the primary key refuses them both.
-/

namespace AnalyticsPipeline

open Framework

/-! ## Rows of a batch -/

/-- The events of a batch whose keys nobody claimed before. -/
def Db.unclaimed (db : Db) (events : List EventIngest) : List EventIngest :=
  events.filter (·.idempotency_key ∉ db.claimedKeys)

/-- The rows of the new events. -/
def StoredRows (events : List EventIngest) (rows : List RawEvent) : Prop :=
  List.Forall₂ (fun e row => e.columns = .ok row.content ∧
    row.idempotency_key = e.idempotency_key) events rows

theorem StoredRows.map_key {events : List EventIngest} {rows : List RawEvent}
    (h : StoredRows events rows) :
    rows.map (·.idempotency_key) = events.map (·.idempotency_key) := by
  induction h with
  | nil => rfl
  | cons hrow _ ih => rw [List.map_cons, List.map_cons, hrow.2, ih]

theorem StoredRows.mapM_columns {events : List EventIngest}
    {rows : List RawEvent} (h : StoredRows events rows) :
    events.mapM EventIngest.columns = .ok (rows.map RawEvent.content) := by
  rw [mapM_eq_ok_iff, List.forall₂_map_right_iff]
  exact h.imp fun _ _ hrow => hrow.1

theorem StoredRows.exists_row {events : List EventIngest} {rows : List RawEvent}
    (h : StoredRows events rows) {e : EventIngest} (he : e ∈ events) :
    ∃ row ∈ rows, e.columns = .ok row.content ∧
      row.idempotency_key = e.idempotency_key := by
  induction h with
  | nil => cases he
  | @cons e' row events rows hrow _ ih =>
      rcases List.mem_cons.mp he with rfl | he
      · exact ⟨row, List.mem_cons_self, hrow⟩
      · obtain ⟨row', hrow', heq⟩ := ih he
        exact ⟨row', .tail row hrow', heq⟩

section Rows

variable {events : List EventIngest} {map : Dict String UUID}
  {occurred_at now : DateTime}

/-- The rows that the values of a batch become. -/
theorem mapM_stored_rows (hmap : ∀ e ∈ events, ∃ u,
      map.get? e.idempotency_key = some u)
    {values : List (RawValues PyDateTime)} (hvalues : values = events.filterMap fun e =>
      (map.get? e.idempotency_key).map fun id => e.rawValues id occurred_at)
    {vs : List (RawValues DateTime)} (hstored : values.mapM RawValues.stored = .ok vs) :
    StoredRows events
        (vs.map fun v => ({ v with created_at := now } : RawEvent)) ∧
      ∀ row ∈ vs.map fun v => ({ v with created_at := now } : RawEvent),
        map.get? row.idempotency_key = some row.id ∧
          row.occurred_at = occurred_at := by
  subst hvalues
  induction events generalizing vs with
  | nil =>
      cases hstored
      exact ⟨.nil, by simp⟩
  | cons e events ih =>
      obtain ⟨u, hu⟩ := hmap e List.mem_cons_self
      rw [List.filterMap_cons_some (b := e.rawValues u occurred_at)
        (by rw [hu]; rfl)] at hstored
      have hall := mapM_eq_ok_iff.mp hstored
      rw [List.forall₂_cons_left_iff] at hall
      obtain ⟨v, vs, hv, hrest, rfl⟩ := hall
      obtain ⟨hrows, hids⟩ := ih (fun e' he' => hmap e' (.tail e he'))
        (mapM_eq_ok_iff.mpr hrest)
      rw [stored_rawValues] at hv
      obtain ⟨c, hcol, rfl⟩ := exists_of_map_ok hv
      obtain ⟨hk, hid, hoccurred⟩ := key_of_columns hcol
      refine ⟨.cons ⟨?_, hk⟩ hrows, ?_⟩
      · rw [hcol, RawEvent.content, ← hid, ← hoccurred]
      · rintro row hrow
        rcases List.mem_cons.mp hrow with rfl | hrow
        · exact ⟨by rw [hk]; exact hu, rfl⟩
        · exact hids row hrow

end Rows

/-- Every new event of the batch can be stored, and no two have one key. -/
structure BatchStorable (db : Db) (events : List EventIngest) : Prop where
  key_text : ∀ e ∈ events, hasNul e.idempotency_key = false
  columns : ∀ e ∈ db.unclaimed events, ∃ v, e.columns = .ok v
  distinct : ((db.unclaimed events).map (·.idempotency_key)).Nodup

/-! ## The claims of a batch -/

section Claims

variable {i : ℕ} {h : History} {w : World} {events : List EventIngest}
  {map : Dict String UUID} {claims : List EventIdempotency} {tx : Tx}
  {occurred_at now : DateTime}

/-- The keys won are those of the new events. -/
theorem mem_claims_iff (hd : Drawn i (events.map (·.idempotency_key)) map w)
    (hclaims : claims = freshBy (·.idempotency_key) h.db.claimedKeys
      (map.entries.map fun p => ⟨p.1, p.2⟩)) {k : String} :
    k ∈ claims.map (·.idempotency_key) ↔
      k ∈ (h.db.unclaimed events).map (·.idempotency_key) := by
  rw [hclaims, mem_map_freshBy_iff, List.map_map]
  have hmap : k ∈ map.entries.map ((·.idempotency_key) ∘ fun p =>
      (⟨p.1, p.2⟩ : EventIdempotency)) ↔ k ∈ events.map (·.idempotency_key) :=
    hd.keys k
  rw [hmap]
  simp only [Db.unclaimed, List.mem_map, List.mem_filter, decide_eq_true_eq]
  constructor
  · rintro ⟨⟨e, he, rfl⟩, hk⟩
    exact ⟨e, ⟨he, hk⟩, rfl⟩
  · rintro ⟨e, ⟨he, hk⟩, rfl⟩
    exact ⟨⟨e, he, rfl⟩, hk⟩

/-- The values inserted are those of the new events, in their order. -/
theorem rawValuesOf_claims
    (hd : Drawn i (events.map (·.idempotency_key)) map w)
    (hclaims : claims = freshBy (·.idempotency_key) h.db.claimedKeys
      (map.entries.map fun p => ⟨p.1, p.2⟩)) :
    EventRepository.rawValuesOf events (claims.map (·.idempotency_key)) map
      occurred_at = (h.db.unclaimed events).filterMap fun e =>
        (map.get? e.idempotency_key).map fun id => e.rawValues id occurred_at := by
  rw [EventRepository.rawValuesOf]
  congr 1
  refine List.filter_congr fun e he => ?_
  rw [decide_eq_decide, mem_claims_iff hd hclaims]
  simp only [Db.unclaimed, List.mem_map, List.mem_filter, decide_eq_true_eq]
  constructor
  · rintro ⟨e', ⟨-, hk⟩, heq⟩
    exact heq ▸ hk
  · exact fun hk => ⟨e, ⟨he, hk⟩, rfl⟩

theorem drawn_unclaimed (hd : Drawn i (events.map (·.idempotency_key)) map w) :
    ∀ e ∈ h.db.unclaimed events, ∃ u, map.get? e.idempotency_key = some u := by
  intro e he
  exact Dict.mem_keys_iff.mp ((hd.keys _).mpr
    (List.mem_map_of_mem (List.mem_of_mem_filter he)))

/-- The primary key admits the rows exactly when no new key is repeated. -/
theorem nodup_rows_iff {rows : List RawEvent}
    (hd : Drawn i (events.map (·.idempotency_key)) map w) (hdb : w.db = h.db)
    (hpk : h.db.Keyed) (hrows : StoredRows (h.db.unclaimed events) rows)
    (hids : ∀ row ∈ rows, map.get? row.idempotency_key = some row.id ∧
      row.occurred_at = occurred_at) :
    ((h.db.raw_events ++ rows).map RawEvent.primaryKey).Nodup ↔
      ((h.db.unclaimed events).map (·.idempotency_key)).Nodup := by
  rw [← hrows.map_key]
  constructor
  · intro hnd
    rw [List.map_append] at hnd
    have hrowsNd := (List.nodup_append.mp hnd).2.1
    have hkeys : rows.map RawEvent.primaryKey =
        (rows.map (·.idempotency_key)).map fun k =>
          ((map.get? k).getD 0, occurred_at) := by
      rw [List.map_map]
      refine List.map_congr_left fun row hrow => ?_
      obtain ⟨hid, hoccurred⟩ := hids row hrow
      simp [RawEvent.primaryKey, hid, hoccurred]
    rw [hkeys] at hrowsNd
    exact hrowsNd.of_map _
  · intro hnd
    refine hpk.append ((hnd.of_map _).map_on fun row hrow row' hrow' heq => ?_) ?_
    · have hk : row.idempotency_key = row'.idempotency_key :=
        hd.injective (hids row hrow).1 (heq ▸ (hids row' hrow').1)
      exact List.inj_on_of_nodup_map hnd hrow hrow' hk
    · intro row hrow r hr
      exact hd.unused (hids row hrow).1 r (hdb ▸ hr)

end Claims

/-! ## Inserting a batch -/

/-- The new events of a batch as they were stored. -/
structure StoredBatch (db : Db) (events : List EventIngest)
    (rows : List RawEvent) (claims : List EventIdempotency) : Prop where
  storable : BatchStorable db events
  stored : StoredRows (db.unclaimed events) rows
  claimed : ∀ c, c ∈ claims ↔ ∃ row ∈ rows, row.claim = c
  keys : (claims.map (·.idempotency_key)).Perm
    ((db.unclaimed events).map (·.idempotency_key))

section Insert

variable {i : ℕ} {h : History} {r : Redis} {d : Dict UUID ℕ} {w : World}
  {fails : Bool} {now occurred_at : DateTime} {events : List EventIngest}

theorem RawIssued.set {u : UUID} (hraw : RawIssued h d) :
    RawIssued h (d.set u i) := by
  intro row hrow
  rw [Dict.get?_set]
  split
  · simp
  · exact hraw row hrow

theorem after_eventIdMap {t : Option Tx} {keys : List String}
    {map : Dict String UUID} {Q : Except PyError (Dict String UUID) → World → Prop}
    (hat : At i h r d t w) (hraw : RawIssued h d) (hd : Drawn i keys map w)
    (hQ : ∀ map' d' w', At i h r d' t w' →
      Drawn i (keys ++ events.map (·.idempotency_key)) map' w' →
      Q (.ok map') w') :
    After (notifying fails) (M := services) i
      (EventRepository.eventIdMap events map) Q w := by
  induction events generalizing keys map d w with
  | nil => exact after_ret (hQ map d w hat (by simpa using hd))
  | cons e events ih =>
      rw [EventRepository.eventIdMap]
      refine after_uuid4 hat fun u w₁ hu hat₁ => ?_
      have hdrawn := hd.draw (k := e.idempotency_key) (u := u)
        (by rw [hat.issued, hat.history]; exact hraw) (by rw [hat.issued, hu])
      have hd₁ : Drawn i (keys ++ [e.idempotency_key])
          (map.set e.idempotency_key u) w₁ :=
        hdrawn.congr (by rw [hat₁.issued, hat.issued])
          (by rw [hat₁.history, hat.history])
      refine ih hat₁ hraw.set hd₁ fun map' d' w' hat' hd' => ?_
      exact hQ map' d' w' hat' (by simpa using hd')

/-- What the second statement of a batch stores. -/
theorem storedBatch {map : Dict String UUID} {claims : List EventIdempotency}
    {rows : List RawEvent}
    (hd : Drawn i (events.map (·.idempotency_key)) map w)
    (hclaims : claims = freshBy (·.idempotency_key) h.db.claimedKeys
      (map.entries.map fun p => ⟨p.1, p.2⟩))
    (htext : ∀ e ∈ events, hasNul e.idempotency_key = false)
    (hrows : StoredRows (h.db.unclaimed events) rows)
    (hids : ∀ row ∈ rows, map.get? row.idempotency_key = some row.id ∧
      row.occurred_at = occurred_at)
    (hnd : ((h.db.unclaimed events).map (·.idempotency_key)).Nodup) :
    StoredBatch h.db events rows claims where
  storable :=
    ⟨htext, fun e he => by
      obtain ⟨row, -, hcol, -⟩ := hrows.exists_row he
      exact ⟨_, hcol⟩, hnd⟩
  stored := hrows
  claimed := fun c => by
    -- the identifier of a claim is the one drawn for its key
    have hid : ∀ {c}, c ∈ claims →
        map.get? c.idempotency_key = some c.event_id := by
      intro c hc
      rw [hclaims] at hc
      obtain ⟨p, hp, rfl⟩ := List.mem_map.mp (freshBy_sublist.subset hc)
      exact Dict.get?_eq_some_iff.mpr hp
    constructor
    · intro hc
      have hkey : c.idempotency_key ∈ rows.map (·.idempotency_key) := by
        rw [hrows.map_key, ← mem_claims_iff hd hclaims]
        exact List.mem_map_of_mem hc
      obtain ⟨row, hrow, hk⟩ := List.mem_map.mp hkey
      have hrowId := (hids row hrow).1
      rw [hk, hid hc, Option.some.injEq] at hrowId
      exact ⟨row, hrow, by rw [RawEvent.claim, hk, ← hrowId]⟩
    · rintro ⟨row, hrow, rfl⟩
      have hkey : row.idempotency_key ∈ claims.map (·.idempotency_key) := by
        rw [mem_claims_iff hd hclaims, ← hrows.map_key]
        exact List.mem_map_of_mem hrow
      obtain ⟨c, hc, hk⟩ := List.mem_map.mp hkey
      have hrowId := (hids row hrow).1
      rw [← hk, hid hc, Option.some.injEq] at hrowId
      rwa [RawEvent.claim, ← hk, ← hrowId]
  keys := by
    refine (List.perm_ext_iff_of_nodup ?_ hnd).mpr fun k =>
      mem_claims_iff hd hclaims
    rw [hclaims]
    exact nodup_map_freshBy

/-- Why the second statement of a batch fails. -/
theorem run_insertRawEvents_fails {values : List (RawValues PyDateTime)} {view : Db}
    {ch : Choice} {err : DbError}
    (hrun : (Stmt.insertRawEvents values).run now ch view = some (.error err)) :
    (∃ err', values.mapM RawValues.stored = .error err') ∨
      ∃ vs, values.mapM RawValues.stored = .ok vs ∧
        ¬ ((view.raw_events ++ vs.map fun v =>
          ({ v with created_at := now } : RawEvent)).map
            RawEvent.primaryKey).Nodup := by
  cases hvs : values.mapM RawValues.stored with
  | error err' => exact .inl ⟨err', rfl⟩
  | ok vs =>
      refine .inr ⟨vs, rfl, fun hnd => ?_⟩
      have hok := (@Stmt.run_insertRawEvents now ch view _ _ _).mpr
        ⟨vs, hvs, rfl, hnd, rfl⟩
      rw [hrun] at hok
      cases hok

theorem after_insertRows {map : Dict String UUID}
    {claims : List EventIdempotency}
    {Q : Except PyError (List RawEvent) → World → Prop}
    (hat : At i h r d (some ⟨now, false, Stmt.idempotencyWrites claims⟩) w)
    (hpk : h.db.Keyed) (hd : Drawn i (events.map (·.idempotency_key)) map w)
    (hclaims : claims = freshBy (·.idempotency_key) h.db.claimedKeys
      (map.entries.map fun p => ⟨p.1, p.2⟩))
    (htext : ∀ e ∈ events, hasNul e.idempotency_key = false)
    (hstored : ∀ rows w', StoredBatch h.db events rows claims →
      At i h r d (some ⟨now, false, ingestWrites rows claims⟩) w' →
      Q (.ok rows) w')
    (hrefused : ∀ err tx w', ¬ BatchStorable h.db events →
      At i h r d (some tx) w' → Q (.error err) w') :
    After (notifying fails) (M := services) i
      (execute (.insertRawEvents (EventRepository.rawValuesOf events
        (claims.map (·.idempotency_key)) map occurred_at))) Q w := by
  have hvalues := @rawValuesOf_claims _ _ _ _ _ _ occurred_at hd hclaims
  have hmap := drawn_unclaimed (h := h) hd
  have hdb : w.db = h.db := congrArg History.db hat.history
  have hseen : ((Stmt.idempotencyWrites claims).overlay h.db).raw_events =
      h.db.raw_events := by
    simp [Stmt.idempotencyWrites]
  refine after_execute hat rfl (by simp) ?_ ?_
  · intro ch rows ws w' _ hrun hat'
    obtain ⟨vs, hvs, hrowsEq, hnd, rfl⟩ := Stmt.run_insertRawEvents.mp hrun
    obtain ⟨hrows, hids⟩ := @mapM_stored_rows _ _ _ now hmap _ hvalues _ hvs
    rw [← hrowsEq] at hrows hids
    rw [hseen] at hnd
    have hdistinct := (nodup_rows_iff hd hdb hpk hrows hids).mp hnd
    rw [← overlay_idempotencyWrites, rawWrites_overlay] at hat'
    exact hstored rows w'
      (storedBatch hd hclaims htext hrows hids hdistinct) hat'
  · intro ch err w' _ hrun hat'
    refine hrefused _ _ w' (fun hst => ?_) hat'
    -- a column refuses a value, or two rows share their identifier
    rcases run_insertRawEvents_fails hrun with ⟨err', hvs⟩ | ⟨vs, hvs, hnd⟩
    · obtain ⟨v, hv, herror⟩ := exists_of_mapM_error hvs
      rw [hvalues] at hv
      obtain ⟨e, he, hv⟩ := List.mem_filterMap.mp hv
      obtain ⟨u, -, rfl⟩ := Option.map_eq_some_iff.mp hv
      obtain ⟨c, hc⟩ := hst.columns e he
      rw [stored_rawValues, hc] at herror
      cases herror
    · obtain ⟨hrows, hids⟩ := @mapM_stored_rows _ _ _ now hmap _ hvalues _ hvs
      rw [hseen] at hnd
      exact hnd ((nodup_rows_iff hd hdb hpk hrows hids).mpr hst.distinct)

/-- A batch with nothing new. -/
theorem storedBatch_nothing (hnil : h.db.unclaimed events = [])
    (htext : ∀ e ∈ events, hasNul e.idempotency_key = false) :
    StoredBatch h.db events [] [] where
  storable := ⟨htext, by simp [hnil], by simp [hnil]⟩
  stored := hnil ▸ .nil
  claimed := by simp
  keys := by simp [hnil]

/-- The insertion of a batch: its new events are stored, or it is refused. -/
theorem after_insertBatch
    {Q : Except PyError (List RawEvent × ℤ) → World → Prop}
    (hat : At i h r d (some ⟨now, false, ∅⟩) w) (hraw : RawIssued h d)
    (hpk : h.db.Keyed)
    (hstored : ∀ rows claims d' w', StoredBatch h.db events rows claims →
      At i h r d' (some ⟨now, false, ingestWrites rows claims⟩) w' →
      Q (.ok (rows, events.length - rows.length)) w')
    (hrefused : ∀ err d' tx w', ¬ BatchStorable h.db events →
      At i h r d' (some tx) w' → Q (.error err) w') :
    After (notifying fails) (M := services) i
      (EventRepository.insertBatch events occurred_at) Q w := by
  have hview : ((∅ : Db).overlay h.db) = h.db := Db.empty_overlay _
  rw [EventRepository.insertBatch]
  -- one identifier for each distinct key
  refine after_bind (after_eventIdMap hat hraw Drawn.empty ?_)
  intro map d₁ w₁ hat₁ hd₁
  rw [List.nil_append] at hd₁
  dsimp only
  have hkeys : ∀ {e}, e ∈ events → ∃ p ∈ map.entries, p.1 = e.idempotency_key :=
    fun {e} he => List.mem_map.mp
      ((hd₁.keys e.idempotency_key).mpr (List.mem_map_of_mem he))
  refine after_bind (after_execute hat₁ rfl (by simp) ?_ ?_)
  · intro ch claims ws w₂ _ hrun hat₂
    obtain ⟨hnul, hclaims, rfl⟩ := Stmt.run_insertIdempotency.mp hrun
    rw [hview] at hclaims
    rw [overlay_idempotencyWrites] at hat₂
    have htext : ∀ e ∈ events, hasNul e.idempotency_key = false := by
      intro e he
      obtain ⟨p, hp, hk⟩ := hkeys he
      rw [List.any_map, List.any_eq_false] at hnul
      simpa [hk] using hnul p hp
    have hmem := @mem_claims_iff i h w₁ events map claims hd₁ hclaims
    dsimp only
    split
    · rename_i hnone
      -- every key was there before
      have hclaimsNil : claims = [] := List.map_eq_nil_iff.mp hnone
      have hunclaimed : h.db.unclaimed events = [] := by
        rw [← List.map_eq_nil_iff (f := EventIngest.idempotency_key),
          List.eq_nil_iff_forall_not_mem]
        intro k hk
        rw [← hmem, hnone] at hk
        cases hk
      rw [hclaimsNil] at hat₂ ⊢
      exact after_ret (hstored [] [] _ w₂ (storedBatch_nothing hunclaimed htext)
        hat₂)
    · have hd₂ : Drawn i (events.map (·.idempotency_key)) map w₂ :=
        hd₁.congr (by rw [hat₂.issued, hat₁.issued])
        (by rw [hat₂.history, hat₁.history])
      refine after_bind (after_insertRows hat₂ hpk hd₂ hclaims htext ?_ ?_)
      · intro rows w₃ hbatch hat₃
        have hlength : claims.length = rows.length := by
          simpa [hbatch.stored.length_eq] using hbatch.keys.length_eq
        refine after_ret ?_
        rw [List.length_map, hlength]
        exact hstored rows claims _ w₃ hbatch hat₃
      · intro err tx w₃ hno hat₃
        exact hrefused _ _ _ w₃ hno hat₃
  · intro ch err w₂ _ hrun hat₂
    refine hrefused _ _ _ w₂ (fun hst => ?_) hat₂
    -- a key the column refuses
    obtain ⟨v, hv, hnul⟩ := List.any_eq_true.mp (run_insertIdempotency_error hrun)
    obtain ⟨p, hp, rfl⟩ := List.mem_map.mp hv
    obtain ⟨e, he, hk⟩ := List.mem_map.mp
      ((hd₁.keys p.1).mp (List.mem_map_of_mem hp))
    simp [← hk, hst.key_text e he] at hnul

end Insert

/-! ## The responses of a batch -/

section Responses

variable {i : ℕ} {h : History} {r j : Redis} {d : Dict UUID ℕ} {w : World}
  {fails : Bool} {now occurred_at : DateTime} {events : List EventIngest}
  {rows : List RawEvent} {claims : List EventIdempotency} {tx : Tx}

/-- The stored event a batch answers a duplicate with: of several rows of its
key the last. -/
def Db.recalled? (db : Db) (key : String) : Option RawEvent :=
  (db.raw_events.filter (·.idempotency_key = key)).getLast?

/-- What a batch answers to its events, in their order. -/
structure Responses (db : Db) (events : List EventIngest) (rows : List RawEvent)
    (responses : List EventIngestResponse) : Prop where
  flags : responses.map (fun x => (x.idempotency_key, x.duplicate)) =
    events.map fun e =>
      (e.idempotency_key, decide (e.idempotency_key ∈ db.claimedKeys))
  new : ∀ x ∈ responses, x.duplicate = false → ∃ row ∈ rows, x = row.response false
  recalled : ∀ x ∈ responses, x.duplicate = true →
    match db.recalled? x.idempotency_key with
    | some row => x = row.response true
    | none => x.event_id = 0

theorem StoredBatch.new_key (hbatch : StoredBatch h.db events rows claims)
    {e : EventIngest} (he : e ∈ events) :
    e.idempotency_key ∈ rows.map (·.idempotency_key) ↔
      e.idempotency_key ∉ h.db.claimedKeys := by
  rw [hbatch.stored.map_key]
  simp only [Db.unclaimed, List.mem_map, List.mem_filter, decide_eq_true_eq]
  constructor
  · rintro ⟨e', ⟨-, hk⟩, heq⟩
    exact heq ▸ hk
  · exact fun hk => ⟨e, ⟨he, hk⟩, rfl⟩

theorem StoredBatch.nodup_rows (hbatch : StoredBatch h.db events rows claims) :
    (rows.map (·.idempotency_key)).Nodup :=
  hbatch.stored.map_key ▸ hbatch.storable.distinct

/-- The keys that a batch looks up after its insertion. -/
def duplicateKeys (events : List EventIngest) (rows : List RawEvent) :
    List String :=
  (events.map (·.idempotency_key)).filter
    (· ∉ (Dict.ofList (rows.map fun r => (r.idempotency_key, r))).keys)

theorem StoredBatch.mem_duplicateKeys
    (hbatch : StoredBatch h.db events rows claims) {e : EventIngest}
    (he : e ∈ events) : e.idempotency_key ∈ duplicateKeys events rows ↔
      e.idempotency_key ∉ rows.map (·.idempotency_key) := by
  rw [duplicateKeys, List.mem_filter, decide_eq_true_eq,
    keys_byKey hbatch.nodup_rows]
  exact and_iff_right (List.mem_map_of_mem he)

/-- What the lookup finds of a duplicate. -/
theorem StoredBatch.get?_existing
    (hbatch : StoredBatch h.db events rows claims) {e : EventIngest}
    (he : e ∈ events) (hdup : e.idempotency_key ∉ rows.map (·.idempotency_key)) :
    (Dict.ofList ((((h.db.raw_events ++ rows).filter
        (·.idempotency_key ∈ duplicateKeys events rows))).map
          fun r => (r.idempotency_key, r))).get? e.idempotency_key =
      h.db.recalled? e.idempotency_key := by
  have hkey := (hbatch.mem_duplicateKeys he).mpr hdup
  have hrows : rows.filter (fun r => decide (r.idempotency_key =
      e.idempotency_key)) = [] := by
    refine List.filter_eq_nil_iff.mpr fun r hr => ?_
    rw [decide_eq_true_eq]
    exact fun hk => hdup (List.mem_map.mpr ⟨r, hr, hk⟩)
  rw [Dict.get?_ofList_byKey (fun r : RawEvent => r.idempotency_key), List.filter_filter,
    Db.recalled?]
  have hfilter : ∀ r : RawEvent, (decide (r.idempotency_key = e.idempotency_key) &&
      decide (r.idempotency_key ∈ duplicateKeys events rows)) =
      decide (r.idempotency_key = e.idempotency_key) := by
    intro r
    rw [Bool.and_eq_left_iff_imp, decide_eq_true_eq, decide_eq_true_eq]
    exact fun hk => hk ▸ hkey
  simp only [hfilter, List.filter_append, hrows, List.append_nil]

theorem StoredBatch.responses (hbatch : StoredBatch h.db events rows claims)
    {existing : Dict String RawEvent} (hexisting : ∀ e ∈ events,
      e.idempotency_key ∉ rows.map (·.idempotency_key) →
      existing.get? e.idempotency_key = h.db.recalled? e.idempotency_key) :
    Responses h.db events rows (events.map
      (IngestionService.batchResponse occurred_at
        (Dict.ofList (rows.map fun r => (r.idempotency_key, r))) existing)) := by
  -- a key among the new rows is answered as new, another one from what was recalled
  have hresponse : ∀ e ∈ events, ∀ x, IngestionService.batchResponse occurred_at
      (Dict.ofList (rows.map fun r => (r.idempotency_key, r))) existing e = x →
      x.idempotency_key = e.idempotency_key ∧
        (x.duplicate = decide (e.idempotency_key ∈ h.db.claimedKeys)) ∧
        (x.duplicate = false → ∃ row ∈ rows, x = row.response false) ∧
        (x.duplicate = true → match h.db.recalled? x.idempotency_key with
          | some row => x = row.response true
          | none => x.event_id = 0) := by
    rintro e he x rfl
    have hkey := hbatch.new_key he
    rw [IngestionService.batchResponse]
    split
    · rename_i row hrow
      obtain ⟨hrow, hk⟩ := (get?_byKey hbatch.nodup_rows).mp hrow
      have hnew := hkey.mp (List.mem_map.mpr ⟨row, hrow, hk⟩)
      exact ⟨hk, by simp [RawEvent.response, hnew], fun _ => ⟨row, hrow, rfl⟩,
        fun hdup => by cases hdup⟩
    · rename_i hnone
      rw [Dict.get?_eq_none_iff, keys_byKey hbatch.nodup_rows] at hnone
      have hdup := not_not.mp (mt hkey.mpr hnone)
      have hfound := hexisting e he hnone
      split
      · rename_i row hrow
        refine ⟨rfl, by simp [hdup], by simp, fun _ => ?_⟩
        dsimp only
        rw [← hfound, hrow]
        have hk : row.idempotency_key = e.idempotency_key := by
          rw [hfound] at hrow
          simpa using (List.mem_filter.mp (List.mem_of_getLast? hrow)).2
        simp only [RawEvent.response, hk]
      · rename_i hrow
        refine ⟨rfl, by simp [hdup], by simp, fun _ => ?_⟩
        dsimp only
        rw [← hfound, hrow]
  refine ⟨?_, fun x hx => ?_, fun x hx => ?_⟩
  · rw [List.map_map]
    refine List.map_congr_left fun e he => ?_
    obtain ⟨hk, hdup, -⟩ := hresponse e he _ rfl
    exact Prod.ext hk hdup
  · obtain ⟨e, he, rfl⟩ := List.mem_map.mp hx
    exact (hresponse e he _ rfl).2.2.1
  · obtain ⟨e, he, rfl⟩ := List.mem_map.mp hx
    exact (hresponse e he _ rfl).2.2.2

/-- The transaction after the announcement of the new rows. -/
def Tx.announced (fails : Bool) (rows : List RawEvent) (tx : Tx) : Tx :=
  if rows = [] then tx else tx.notified fails

theorem after_announce {record : ℕ → Service Unit}
    {Q : Except PyError Unit → World → Prop}
    (hrecord : Records fails i r j record) (hkept : Counts j → Counts r)
    (hat : At i h r d (some tx) w) (hopen : tx.aborted = false)
    (hok : ∀ r' w', (rows ≠ [] → Counts j) → (Counts j → Counts r') →
      At i h r' d (some (tx.announced fails rows)) w' → Q (.ok ()) w')
    (herror : ∀ err r' w', rows ≠ [] → ¬ Counts j → At i h r' d (some tx) w' →
      Q (.error err) w') :
    After (notifying fails) (M := services) i (announceWith record rows) Q
      w := by
  rw [announceWith]
  split
  · rename_i hlast
    have hnil := List.getLast?_eq_none_iff.mp hlast
    refine after_ret (hok r w (absurd hnil) hkept ?_)
    rwa [Tx.announced, if_pos hnil]
  · rename_i last hlast
    have hsome : rows ≠ [] := by
      rintro rfl
      cases hlast
    refine after_bind (hrecord.after hat ?_ ?_)
    · intro hcounts r' w₁ hcounts' hat₁
      refine after_notify hat₁ hopen fun w₂ hat₂ => ?_
      refine hok r' w₂ (fun _ => hcounts) (fun _ => hcounts') ?_
      rwa [Tx.announced, if_neg hsome]
    · intro hcounts err r' w₁ hat₁
      exact herror err r' w₁ hsome hcounts hat₁

/-- The responses; in an aborted transaction duplicates cannot be looked up. -/
theorem after_batchResponses
    {Q : Except PyError (List EventIngestResponse) → World → Prop}
    (hat : At i h r d (some tx) w)
    (hbatch : StoredBatch h.db events rows claims)
    (hwrites : tx.aborted = false → tx.writes = ingestWrites rows claims)
    (hok : ∀ responses w', Responses h.db events rows responses →
      At i h r d (some tx) w' → Q (.ok responses) w')
    (herror : ∀ err w', tx.aborted = true → At i h r d (some tx) w' →
      Q (.error err) w') :
    After (notifying fails) (M := services) i
      (IngestionService.batchResponses events occurred_at rows) Q w := by
  rw [IngestionService.batchResponses, EventRepository.getByIdempotencyKeys]
  rw [← duplicateKeys]
  split
  · rename_i hnone
    refine after_ret (hok _ w (hbatch.responses fun e he hdup => ?_) hat)
    have hmem := (hbatch.mem_duplicateKeys he).mpr hdup
    rw [hnone] at hmem
    cases hmem
  · cases hopen : tx.aborted with
    | true =>
        exact after_bind (after_bind (after_execute_aborted hat hopen
          (herror _ w hopen hat)))
    | false =>
        refine after_bind (after_bind (after_read hat hopen (by simp)
          (fun ch => rfl) fun w₁ hat₁ => ?_))
        refine after_ret (after_ret (hok _ w₁ (hbatch.responses
          fun e he hdup => ?_) hat₁))
        have hseen : (tx.writes.overlay h.db).raw_events =
            h.db.raw_events ++ rows := by
          rw [hwrites hopen]
          rfl
        rw [hseen]
        exact hbatch.get?_existing he hdup

end Responses

/-! ## A batch request -/

/-- The batch can be ingested. -/
structure BatchIngestible (db : Db) (r : Redis) (events : List EventIngest) :
    Prop where
  merchants : ∀ e ∈ events, db.hasMerchant e.merchant_id
  storable : BatchStorable db events
  counts : db.unclaimed events ≠ [] → Counts r

/-- How the request for a batch can end: what it answers and the tables it
leaves. -/
inductive BatchIngestOutcome (fails : Bool) (db : Db) (r : Redis)
    (events : List EventIngest) :
    Except PyError BatchIngestResponse → Db → Prop where
  | refused {err : PyError} : ¬ BatchIngestible db r events →
      BatchIngestOutcome fails db r events (.error err) db
  | aborted {err : PyError} : fails = true → db.unclaimed events ≠ [] →
      BatchIngestible db r events →
      BatchIngestOutcome fails db r events (.error err) db
  | stored {rows : List RawEvent} {claims : List EventIdempotency}
      {responses : List EventIngestResponse} : BatchIngestible db r events →
      StoredBatch db events rows claims → Responses db events rows responses →
      BatchIngestOutcome fails db r events
        (.ok ⟨rows.length, events.length - rows.length, responses⟩)
        (if fails = true ∧ db.unclaimed events ≠ [] then db
        else (ingestWrites rows claims).overlay db)

section Request

variable {i : ℕ} {h : History} {r j : Redis} {d : Dict UUID ℕ} {w : World}
  {fails : Bool} {now : DateTime} {events : List EventIngest}
  {record : ℕ → Service Unit}

/-- What the body of a request leaves for `get_db`. -/
def BatchReady (fails : Bool) (i : ℕ) (h : History) (r : Redis)
    (events : List EventIngest) (x : Except PyError BatchIngestResponse)
    (w : World) : Prop :=
  ∃ r' d' tx, At i h r' d' (some tx) w ∧ (Counts r → Counts r') ∧
    BatchIngestOutcome fails h.db r events x (match x with
      | .ok _ => if tx.aborted then h.db else tx.writes.overlay h.db
      | .error _ => h.db)

theorem StoredBatch.nil_iff {db : Db} {rows : List RawEvent}
    {claims : List EventIdempotency} (hbatch : StoredBatch db events rows claims) :
    rows = [] ↔ db.unclaimed events = [] := by
  rw [← List.length_eq_zero_iff, ← hbatch.stored.length_eq,
    List.length_eq_zero_iff]

theorem StoredBatch.nothing {db : Db} {events : List EventIngest}
    {rows : List RawEvent} {claims : List EventIdempotency}
    (h : StoredBatch db events rows claims) (hnil : db.unclaimed events = []) :
    rows = [] ∧ (ingestWrites rows claims).overlay db = db := by
  obtain rfl := h.nil_iff.mpr hnil
  have hclaims : claims = [] := by
    refine List.eq_nil_iff_forall_not_mem.mpr fun c hc => ?_
    obtain ⟨row, hrow, -⟩ := (h.claimed c).mp hc
    cases hrow
  subst hclaims
  exact ⟨rfl, Db.empty_overlay db⟩

theorem aborted_announced {tx : Tx} {rows : List RawEvent}
    (hopen : tx.aborted = false) : (tx.announced fails rows).aborted = true ↔
      fails = true ∧ rows ≠ [] := by
  rw [Tx.announced, Tx.notified]
  split
  · simp_all
  · cases fails <;> simp_all

theorem writes_announced {tx : Tx} {rows : List RawEvent}
    (hkept : (tx.announced fails rows).aborted = false) :
    (tx.announced fails rows).writes = tx.writes := by
  rw [Tx.announced, Tx.notified] at hkept ⊢
  split
  · rfl
  · cases fails <;> simp_all

theorem seen_announced {tx : Tx} {db : Db} {rows : List RawEvent}
    (hopen : tx.aborted = false) :
    (if (tx.announced fails rows).aborted then db
      else (tx.announced fails rows).writes.overlay db) =
      if fails = true ∧ rows ≠ [] then db else tx.writes.overlay db := by
  rw [Tx.announced, Tx.notified]
  split
  · simp_all
  · cases fails <;> simp_all

/-- A batch whose merchants exist. -/
theorem after_storeBatch (hrecord : Records fails i r j record)
    (hkept : Counts j → Counts r) (hat : At i h r d (some ⟨now, false, ∅⟩) w)
    (hraw : RawIssued h d) (hpk : h.db.Keyed)
    (hmerchants : ∀ e ∈ events, h.db.hasMerchant e.merchant_id) :
    After (notifying fails) (M := services) i
      (do
        let occurred_at ← perform .now
        let (inserted_rows, duplicate_count) ←
          EventRepository.insertBatch events occurred_at
        announceWith record inserted_rows
        let responses ←
          IngestionService.batchResponses events occurred_at inserted_rows
        pure ⟨inserted_rows.length, duplicate_count, responses⟩)
      (BatchReady fails i h j events) w := by
  refine after_now fun occurred_at => ?_
  refine after_bind (after_insertBatch hat hraw hpk ?_ ?_)
  · intro rows claims d' w₁ hbatch hat₁
    refine after_bind (after_announce hrecord hkept hat₁ rfl ?_ ?_)
    · intro r' w₂ hcounts hcounts' hat₂
      have hing : BatchIngestible h.db j events :=
        ⟨hmerchants, hbatch.storable, fun hne =>
          hcounts fun hnil => hne (hbatch.nil_iff.mp hnil)⟩
      refine after_bind (after_batchResponses hat₂ hbatch
        writes_announced ?_ ?_)
      · intro responses w₃ hresp hat₃
        refine after_ret ⟨r', d', _, hat₃, hcounts', ?_⟩
        dsimp only
        rw [seen_announced rfl]
        simp only [ne_eq, hbatch.nil_iff]
        exact .stored hing hbatch hresp
      · intro err w₃ hab hat₃
        obtain ⟨hfails, hne⟩ := (aborted_announced rfl).mp hab
        exact ⟨r', d', _, hat₃, hcounts', .aborted hfails
          (fun hnil => hne (hbatch.nil_iff.mpr hnil)) hing⟩
    · intro err r' w₂ hne hcounts hat₂
      exact ⟨r', d', _, hat₂, fun hc => absurd hc hcounts, .refused fun hing =>
        hcounts (hing.counts fun hnil => hne (hbatch.nil_iff.mpr hnil))⟩
  · intro err d' tx w₁ hno hat₁
    exact ⟨r, d', tx, hat₁, hkept, .refused fun hing => hno hing.storable⟩

theorem missing_eq_nil_iff {db : Db} :
    ((events.map (·.merchant_id)).dedup.filter
      (· ∉ (db.merchants.filter (·.id ∈ (events.map (·.merchant_id)).dedup)).map
        (·.id))) = [] ↔ ∀ e ∈ events, db.hasMerchant e.merchant_id := by
  simp only [List.filter_eq_nil_iff, List.mem_dedup, List.mem_map,
    List.mem_filter, decide_eq_true_eq, Db.hasMerchant, not_not]
  constructor
  · intro h e he
    obtain ⟨m, ⟨hm, -⟩, hid⟩ := h e.merchant_id ⟨e, he, rfl⟩
    exact ⟨m, hm, hid⟩
  · rintro h _ ⟨e, he, rfl⟩
    obtain ⟨m, hm, hid⟩ := h e he
    exact ⟨m, ⟨hm, e, he, hid.symm⟩, hid⟩

theorem after_ingestBatch (hrecord : Records fails i r j record)
    (hkept : Counts j → Counts r) (hat : At i h r d (some ⟨now, false, ∅⟩) w)
    (hraw : RawIssued h d) (hpk : h.db.Keyed) (hsome : events ≠ []) :
    After (notifying fails) (M := services) i (ingestBatchWith record events)
      (BatchReady fails i h j events) w := by
  have hview : ((∅ : Db).overlay h.db) = h.db := Db.empty_overlay _
  have hids : (events.map (·.merchant_id)).dedup ≠ [] := by
    simpa [List.dedup_eq_nil] using hsome
  rw [ingestBatchWith, EventRepository.missingMerchantIds, if_neg hids]
  refine after_bind (after_bind (after_read hat rfl (by simp) (fun ch => rfl) ?_))
  intro w₁ hat₁
  refine after_ret ?_
  dsimp only
  rw [hview]
  split
  · rename_i hmissing
    refine after_ret ⟨r, d, _, hat₁, hkept, .refused fun hing => ?_⟩
    rw [missing_eq_nil_iff.mpr hing.merchants] at hmissing
    cases hmissing
  · rename_i hnone
    exact after_storeBatch hrecord hkept hat₁ hraw hpk
      (missing_eq_nil_iff.mp hnone)

/-- **A batch alone**: every way its request can end. -/
theorem after_batchRequest {payload : BatchEventIngest}
    (hrecord : Records fails i r j record) (hkept : Counts j → Counts r)
    (hat : At i h r d none w) (hraw : RawIssued h d) (hpk : h.db.Keyed) :
    After (notifying fails) (M := services) i
      (getDb (fun r => (payload.events.map (·.idempotency_key)).zip r.events)
        (ingestBatchWith record payload.events))
      (fun x w' => ∃ h' r' d', At i h' r' d' none w' ∧
        (Counts j → Counts r') ∧
        BatchIngestOutcome fails h.db j payload.events x h'.db) w := by
  have hsome : payload.events ≠ [] :=
    List.ne_nil_of_length_pos payload.length_range.1
  refine after_getDb_outcome (C := fun r' => Counts j → Counts r')
    (P := BatchIngestOutcome fails h.db j payload.events) hat fun now w₁ hat₁ => ?_
  refine After.mono ?_ (after_ingestBatch hrecord hkept hat₁ hraw hpk hsome)
  rintro x w₂ ⟨r', d', tx, hat₂, hcounts, hout⟩
  refine ⟨r', d', tx, hat₂, hcounts, ?_⟩
  cases x with
  | ok a => exact hout
  | error err => exact hout

theorem after_ingestBatchRequest {payload : BatchEventIngest}
    (hat : At i h r d none w) (hraw : RawIssued h d) (hpk : h.db.Keyed) :
    After (notifying fails) (M := services) i (ingestBatchRequest payload)
      (fun x w' => ∃ h' r' d', At i h' r' d' none w' ∧
        (Counts r → Counts r') ∧
        BatchIngestOutcome fails h.db r payload.events x h'.db) w :=
  after_batchRequest (records_recordIngestion fails i r) id hat hraw hpk

end Request

end AnalyticsPipeline
