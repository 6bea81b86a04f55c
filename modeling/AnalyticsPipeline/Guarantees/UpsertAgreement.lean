import AnalyticsPipeline.Guarantees.ExactlyOnce
import AnalyticsPipeline.Metatheory.Aggregation
import AnalyticsPipeline.Metatheory.SolitaryTransaction

/-!
# Batch upserts and single upserts

A batch upsert adds to a row the summary of the amounts accumulated for it, a
single upsert adds one amount. Summaries add up, so both leave the same rows,
however the events are ordered and cut into batches.
-/

namespace AnalyticsPipeline

open Framework

namespace RollupRepository

/-- The single upserts of an event, in its minute, hour and day. -/
def upsertEvent (e : RawEvent) : Service Unit :=
  upsertAllGranularities e.merchant_id e.event_type (minuteBucket (bucketTs e))
    (hourBucket (bucketTs e)) (dayBucket (bucketTs e)) e.amount_cents

end RollupRepository

/-! ## Adding events -/

/-- The rows of one table have the events added to them. -/
structure AddsTo (g : RollupGranularity) (events : List RawEvent) (db db' : Db) :
    Prop where
  rows : ∀ k, (db'.rollup g).get? k = mergeRows ((db.rollup g).get? k)
    (Summary.collect (amountsAt g k events))
  others : ∀ g', g' ≠ g → ∀ k,
    (db'.rollup g').get? k = (db.rollup g').get? k

/-- The rows of every table have the events added to them. -/
def Adds (events : List RawEvent) (db db' : Db) : Prop :=
  ∀ g k, (db'.rollup g).get? k = mergeRows ((db.rollup g).get? k)
    (Summary.collect (amountsAt g k events))

section Adds

variable {events xs ys : List RawEvent} {db db₁ db₂ db' : Db}

theorem Adds.nil (db : Db) : Adds [] db db := by
  intro g k
  rw [amountsAt_nil, Summary.collect_nil, mergeRows, Option.merge_none_right]

theorem Adds.append (h₁ : Adds xs db db₁) (h₂ : Adds ys db₁ db') :
    Adds (xs ++ ys) db db' := by
  intro g k
  rw [h₂ g k, h₁ g k, amountsAt_append, Summary.collect_append]
  exact Std.Associative.assoc _ _ _

theorem Adds.of_tables (hminute : AddsTo .minute events db db₁)
    (hhour : AddsTo .hour events db₁ db₂) (hday : AddsTo .day events db₂ db') :
    Adds events db db' := by
  intro g k
  cases g with
  | minute =>
      rw [hday.others .minute (by decide), hhour.others .minute (by decide)]
      exact hminute.rows k
  | hour =>
      rw [hday.others .hour (by decide), hhour.rows k,
        hminute.others .hour (by decide)]
  | day =>
      rw [hday.rows k, hhour.others .day (by decide),
        hminute.others .day (by decide)]

/-- Writes to one table. -/
theorem addsTo_rollupWrites {g : RollupGranularity} {rows : RollupTable}
    {ws : Db} (hrows : ∀ k, rows.get? k = absorbed
      (((ws.overlay db).rollup g).get? k)
      (Summary.collect (amountsAt g k events))) :
    AddsTo g events (ws.overlay db)
      (((Stmt.rollupWrites g rows).overlay ws).overlay db) where
  rows := fun k => by
    have hrow := hrows k
    rw [Db.get?_overlay_rollup] at hrow ⊢
    rw [Db.get?_overlay_rollup, Db.get?_overlay_rollup, Option.or_assoc,
      ← absorbed_or, ← hrow]
    simp only [Stmt.rollupWrites, if_true]
  others := fun g' hg' k => by
    simp [Stmt.rollupWrites, hg']

end Adds

/-! ## Runs -/

/-- The program adds the events to what its transaction sees. -/
def Adding (R : List RawEvent → Db → Db → Prop) (i : ℕ) (h : History)
    (events : List RawEvent) (p : Service Unit) : Prop :=
  ∀ ⦃r d tx w⦄, At i h r d (some tx) w → tx.aborted = false →
    After noFailure (M := services) i p (fun x w' => x = .ok () ∧
      ∃ tx', At i h r d (some tx') w' ∧ tx'.aborted = false ∧
        R events (tx.writes.overlay h.db) (tx'.writes.overlay h.db)) w

section Rules

variable {i : ℕ} {h : History} {events : List RawEvent}

theorem adding_batchUpsert (g : RollupGranularity) (events : List RawEvent) :
    Adding (AddsTo g) i h events
      (RollupRepository.batchUpsert g (aggregateBy g events)) := by
  intro r d tx w hat hopen
  unfold RollupRepository.batchUpsert
  split
  · -- an empty map: no amount belongs to any row
    rename_i hnone
    refine after_ret ⟨rfl, tx, hat, hopen, fun k => ?_, fun _ _ _ => rfl⟩
    have hempty : (aggregateBy g events).get? k = none := by
      apply Dict.get?_eq_none_iff.mpr
      rw [Dict.keys, hnone]
      exact List.not_mem_nil
    rw [← row_aggregateBy, hempty, mergeRows, Option.map_none,
      Option.merge_none_right]
  · refine after_writes hat hopen (by simp)
      (fun ch _ => .inl (if_pos (AggMap.nodup_values _)))
      fun w₁ hat₁ => ⟨rfl, _, hat₁, hopen, addsTo_rollupWrites fun k => ?_⟩
    rw [← row_aggregateBy]
    exact get?_absorb _ _ k

theorem addRow_eq (stored : Option RollupRow) (amount : ℤ) :
    some (Stmt.addRow stored 1 amount) =
      absorbed stored (some (Summary.single amount)) := by
  cases stored <;> rfl

theorem adding_upsertRollup (g : RollupGranularity) (e : RawEvent) :
    Adding (AddsTo g) i h [e] (RollupRepository.upsertRollup g e.merchant_id
      (g.truncate (bucketTs e)) e.event_type 1 e.amount_cents) := by
  intro r d tx w hat hopen
  show After noFailure (M := services) i
    (execute (.upsertRollupRow g (e.rollupKey g) 1 e.amount_cents)) _ w
  refine after_writes hat hopen (by simp) (fun ch _ => .inl rfl)
    fun w₁ hat₁ => ⟨rfl, _, hat₁, hopen, addsTo_rollupWrites fun k => ?_⟩
  rw [amountsAt_singleton, Dict.get?_set, Dict.get?_empty]
  by_cases hk : e.rollupKey g = k
  · subst hk
    rw [if_pos rfl, if_pos rfl, Summary.collect_of_ne_nil (by simp),
      Summary.ofList_cons, Summary.ofList_nil, add_zero]
    exact addRow_eq _ _
  · rw [if_neg hk, if_neg (Ne.symm hk)]
    rfl

/-- The three tables one after another. -/
theorem adding_tables {minute hour day : Service Unit}
    (hminute : Adding (AddsTo .minute) i h events minute)
    (hhour : Adding (AddsTo .hour) i h events hour)
    (hday : Adding (AddsTo .day) i h events day) :
    Adding Adds i h events (do minute; hour; day) := by
  intro r d tx w hat hopen
  refine after_bind (After.mono ?_ (hminute hat hopen))
  rintro x w₁ ⟨rfl, tx₁, hat₁, hopen₁, h₁⟩
  refine after_bind (After.mono ?_ (hhour hat₁ hopen₁))
  rintro x w₂ ⟨rfl, tx₂, hat₂, hopen₂, h₂⟩
  refine After.mono ?_ (hday hat₂ hopen₂)
  rintro x w₃ ⟨rfl, tx₃, hat₃, hopen₃, h₃⟩
  exact ⟨rfl, tx₃, hat₃, hopen₃, .of_tables h₁ h₂ h₃⟩

theorem adding_upsertDeltas (events : List RawEvent) :
    Adding Adds i h events (RollupWorker.upsertDeltas events) := by
  unfold RollupWorker.upsertDeltas
  split
  · rename_i hnil
    subst hnil
    exact fun _ _ _ _ hat hopen => after_ret ⟨rfl, _, hat, hopen, .nil _⟩
  · rw [aggregateBatch_eq]
    exact adding_tables (adding_batchUpsert .minute events)
      (adding_batchUpsert .hour events) (adding_batchUpsert .day events)

theorem adding_upsertEvent (e : RawEvent) :
    Adding Adds i h [e] (RollupRepository.upsertEvent e) :=
  adding_tables (adding_upsertRollup .minute e) (adding_upsertRollup .hour e)
    (adding_upsertRollup .day e)

/-- **One after another**, the programs add what all of them add. -/
theorem adding_forM {β : Type} {f : β → List RawEvent} {p : β → Service Unit}
    (hp : ∀ b, Adding Adds i h (f b) (p b)) :
    ∀ l : List β, Adding Adds i h (l.flatMap f) (l.forM p)
  | [] => fun _ _ _ _ hat hopen => after_ret ⟨rfl, _, hat, hopen, .nil _⟩
  | b :: l => by
      intro r d tx w hat hopen
      refine after_bind (After.mono ?_ (hp b hat hopen))
      rintro x w₁ ⟨rfl, tx₁, hat₁, hopen₁, h₁⟩
      refine After.mono ?_ (adding_forM hp l hat₁ hopen₁)
      rintro x w₂ ⟨rfl, tx₂, hat₂, hopen₂, h₂⟩
      refine ⟨rfl, tx₂, hat₂, hopen₂, ?_⟩
      rw [List.flatMap_cons]
      exact h₁.append h₂

/-! ### Statements -/

/-- A batch statement that lists a key twice. -/
def Call.repeats : Call → ℕ
  | .sql (.upsertRollup _ values) =>
      if (values.map Prod.fst).Nodup then 0 else 1
  | _ => 0

variable {cost : Call → ℕ}

/-- The batch path makes no call but upserts of distinct keys. -/
theorem within_upsertDeltas (hcost : ∀ g values, (values.map Prod.fst).Nodup →
    cost (.sql (.upsertRollup g values)) = 0) (events : List RawEvent) :
    Prog.Within cost 0 (RollupWorker.upsertDeltas events) := by
  have hbatch : ∀ g agg,
      Prog.Within cost 0 (RollupRepository.batchUpsert g agg) := by
    intro g agg
    unfold RollupRepository.batchUpsert
    split
    · exact .ret
    · exact within_execute (hcost g _ (AggMap.nodup_values agg))
  unfold RollupWorker.upsertDeltas
  split
  · exact .ret
  · refine Prog.Within.bind (m := 0) (n := 0) (hbatch .minute _) fun _ => ?_
    exact Prog.Within.bind (m := 0) (n := 0) (hbatch .hour _)
      fun _ => hbatch .day _

theorem within_upsertEvent (e : RawEvent) :
    Prog.Within Call.draws 0 (RollupRepository.upsertEvent e) :=
  Prog.Within.bind (m := 0) (n := 0) (within_execute rfl) fun _ =>
    Prog.Within.bind (m := 0) (n := 0) (within_execute rfl) fun _ =>
      within_execute rfl

end Rules

section Agreement

variable {i : ℕ} {w : World} {tx : Tx} {events : List RawEvent}
  {batches : List (List RawEvent)}

/-- The program can run, and however it does it returns and its transaction
sees these rows. -/
def Leaves (i : ℕ) (w : World) (p : Service Unit)
    (table : RollupGranularity → RollupKey → Option RollupRow) : Prop :=
  (∃ x w', Eval (M := services) noFailure i p w x w') ∧
    After noFailure (M := services) i p (fun x (w' : World) => x = .ok () ∧
      ∃ tx', w'.txs.get? i = some tx' ∧
        ∀ g k, ((w'.view tx').rollup g).get? k = table g k) w

theorem Adding.leaves {p : Service Unit}
    (hp : Adding Adds i w.toHistory events p)
    (hdraws : Prog.Within Call.draws 0 p) (htx : w.txs.get? i = some tx)
    (hopen : tx.aborted = false) (halone : Alone i w) :
    Leaves i w p fun g k => mergeRows (((w.view tx).rollup g).get? k)
      (Summary.collect (amountsAt g k events)) := by
  constructor
  · exact exists_eval_service false hdraws halone (length_issued_le w)
  · refine After.mono ?_ (hp ⟨rfl, rfl, rfl, htx⟩ hopen)
    rintro x w' ⟨rfl, tx', hat', -, hadds⟩
    refine ⟨rfl, tx', hat'.tx, fun g k => ?_⟩
    have hview : World.view w' tx' = tx'.writes.overlay w.db := hat'.view tx'
    rw [hview]
    exact hadds g k

/-- **Batches and single events agree**: over any rows, for any order and any
split, both ways return and leave the same rows, and no batch statement lists a
key twice. -/
theorem upserts_agree (htx : w.txs.get? i = some tx) (hopen : tx.aborted = false)
    (halone : Alone i w) (hperm : batches.flatten.Perm events) :
    (∃ table, Leaves i w (batches.forM RollupWorker.upsertDeltas) table ∧
      Leaves i w (events.forM RollupRepository.upsertEvent) table) ∧
      Prog.Within Call.repeats 0 (batches.forM RollupWorker.upsertDeltas) := by
  have hbatches : Adding Adds i w.toHistory batches.flatten
      (batches.forM RollupWorker.upsertDeltas) := by
    rw [← List.flatMap_id]
    exact adding_forM adding_upsertDeltas batches
  have hevents : Adding Adds i w.toHistory events
      (events.forM RollupRepository.upsertEvent) := by
    have hall := adding_forM (i := i) (h := w.toHistory) adding_upsertEvent events
    rw [List.flatMap_singleton'] at hall
    exact hall
  refine ⟨⟨_, hbatches.leaves (within_forM (within_upsertDeltas
    fun _ _ _ => rfl) batches) htx hopen halone, ?_⟩, ?_⟩
  · have hleaves := hevents.leaves (within_forM within_upsertEvent events) htx
      hopen halone
    have hsame : ∀ g k, Summary.collect (amountsAt g k batches.flatten) =
        Summary.collect (amountsAt g k events) := fun g k =>
      Summary.collect_perm (amountsAt_perm hperm)
    simp only [hsame]
    exact hleaves
  · exact within_forM (within_upsertDeltas fun _ _ hnd => if_pos hnd) batches

end Agreement

/-- An upsert is to meet a row whose least and greatest amounts are `NULL`. -/
def upserting : World :=
  { World.start Sample.merchants with
    db := { (∅ : Db) with
      merchants := Sample.merchants
      rollup := fun g => (∅ : RollupTable).set
        ⟨7, g.truncate (Sample.instant 0), .paymentInitiated⟩ ⟨1, 30, none, none⟩ }
    txs := (∅ : Dict ℕ Tx).set 0 ⟨Sample.instant 5, false, ∅⟩ }

def threePayments : List RawEvent :=
  [Sample.row (Sample.payment 'a' 250) 101 0,
    Sample.row (Sample.payment 'b' 100) 102 0,
    Sample.row (Sample.payment 'c' 40) 103 1]

theorem upserts_agree_reversed :
    (∃ table, Leaves 0 upserting ([(threePayments.drop 1).reverse,
        threePayments.take 1].forM RollupWorker.upsertDeltas) table ∧
      Leaves 0 upserting (threePayments.forM RollupRepository.upsertEvent)
        table) ∧
      Prog.Within Call.repeats 0 ([(threePayments.drop 1).reverse,
        threePayments.take 1].forM RollupWorker.upsertDeltas) :=
  upserts_agree rfl rfl (alone_of_txs rfl) (List.reverse_perm threePayments)

end AnalyticsPipeline
