import AnalyticsPipeline.Framework.Completion
import AnalyticsPipeline.Metatheory.Footprints

/-!
# Stages of a request

A request for one event claims one key, and nothing it locks afterwards can be
locked by another: its row is under an identifier it has drawn. So no session
that holds a lock ever waits for one (`Placed.free_of_holding`). A batch claims
many keys, one by one, and is none of these.
-/

namespace AnalyticsPipeline

open Framework
open Prog (Only)

/-- The call locks no row. -/
def Call.Lockless (c : Call) : Prop := ∀ s, c = .sql s → s.locks = []

section Stages

variable {α β : Type} {ids : List UUID}

/-- After its claim: what is locked is under an identifier of `ids`. -/
inductive Holding (ids : List UUID) : Service α → Prop where
  | ret {r : Except PyError α} : Holding ids (.ret r)
  | free {c : Call} {k : c.Res → Service α} : c.Lockless →
      (∀ x, Holding ids (k x)) → Holding ids (.call c k)
  | store {values : List (RawValues PyDateTime)}
      {k : Except DbError (List RawEvent) → Service α} :
      (∀ v ∈ values, v.id ∈ ids) → (∀ x, Holding ids (k x)) →
      Holding ids (.call (.sql (.insertRawEvents values)) k)

/-- Up to its claim, `ids` being drawn: one key is claimed. -/
inductive Claiming : List UUID → Service α → Prop where
  | ret {ids : List UUID} {r : Except PyError α} : Claiming ids (.ret r)
  | free {ids : List UUID} {c : Call} {k : c.Res → Service α} : c.Lockless →
      (∀ x, Claiming ids (k x)) → Claiming ids (.call c k)
  | draw {ids : List UUID} {k : UUID → Service α} :
      (∀ u, Claiming (u :: ids) (k u)) → Claiming ids (.call .uuid4 k)
  | claim {ids : List UUID} {v : EventIdempotency}
      {k : Except DbError (List EventIdempotency) → Service α} :
      (∀ x, Holding ids (k x)) →
      Claiming ids (.call (.sql (.insertIdempotency [v])) k)

/-! ## Shapes -/

theorem Holding.of_only {p : Service α} (h : Only Call.Lockless p) :
    Holding ids p := by
  induction h with
  | ret => exact .ret
  | call hc _ ih => exact .free hc ih

theorem Claiming.of_only {p : Service α} (h : Only Call.Lockless p) :
    Claiming ids p := by
  induction h with
  | ret => exact .ret
  | call hc _ ih => exact .free hc ih

theorem Holding.bind {p : Service α} {f : α → Service β} (hp : Holding ids p)
    (hf : ∀ a, Only Call.Lockless (f a)) : Holding ids (p >>= f) := by
  induction hp with
  | @ret r =>
      cases r with
      | ok a => exact .of_only (hf a)
      | error e => exact .ret
  | free hc _ ih => exact .free hc ih
  | store hv _ ih => exact .store hv ih

theorem Holding.tryCatch {p : Service α} {handler : PyError → Service α}
    (hp : Holding ids p) (hh : ∀ e, Only Call.Lockless (handler e)) :
    Holding ids (tryCatch p handler) := by
  induction hp with
  | @ret r =>
      cases r with
      | ok a => exact .ret
      | error e => exact .of_only (hh e)
  | free hc _ ih => exact .free hc ih
  | store hv _ ih => exact .store hv ih

theorem Claiming.bind {p : Service α} {f : α → Service β} (hp : Claiming ids p)
    (hf : ∀ a, Only Call.Lockless (f a)) : Claiming ids (p >>= f) := by
  induction hp with
  | @ret ids r =>
      cases r with
      | ok a => exact .of_only (hf a)
      | error e => exact .ret
  | free hc _ ih => exact .free hc ih
  | draw _ ih => exact .draw ih
  | claim hk => exact .claim fun x => (hk x).bind hf

theorem Claiming.tryCatch {p : Service α} {handler : PyError → Service α}
    (hp : Claiming ids p) (hh : ∀ e, Only Call.Lockless (handler e)) :
    Claiming ids (tryCatch p handler) := by
  induction hp with
  | @ret ids r =>
      cases r with
      | ok a => exact .ret
      | error e => exact .of_only (hh e)
  | free hc _ ih => exact .free hc ih
  | draw _ ih => exact .draw ih
  | claim hk => exact .claim fun x => (hk x).tryCatch hh

/-- Before the claim other calls may be made. -/
theorem Claiming.after {p : Service α} {f : α → Service β}
    (hp : Only Call.Lockless p) (hf : ∀ a, Claiming ids (f a)) :
    Claiming ids (p >>= f) := by
  induction hp with
  | @ret r =>
      cases r with
      | ok a => exact hf a
      | error e => exact .ret
  | call hc _ ih => exact .free hc ih

/-! ## Requests -/

theorem Call.lockless_of_not_sql {c : Call} (h : ∀ s, c ≠ .sql s) : c.Lockless :=
  fun s hs => absurd hs (h s)

theorem only_lockless_execute {s : Stmt} (h : s.locks = []) :
    Only Call.Lockless (execute s) := by
  apply only_execute
  rintro _ ⟨⟩
  exact h

theorem only_lockless_one (l : List β) : Only Call.Lockless (one l) := by
  match l with
  | [] => exact .ret
  | [_] => exact .ret
  | _ :: _ :: _ => exact .ret

theorem claiming_getDb {body : Service α} {answers : α → Answers}
    (h : Claiming ids body) : Claiming ids (getDb answers body) := by
  have hend : ∀ (c : Call) (r : Except PyError α), (∀ s, c ≠ .sql s) →
      Only Call.Lockless (.call c fun _ => .ret r : Service α) :=
    fun c r hc => .call (Call.lockless_of_not_sql hc) fun _ => .ret
  rw [getDb, sessionScope, perform_bind]
  refine .free (Call.lockless_of_not_sql (by simp)) fun _ => ?_
  refine Claiming.bind (Claiming.tryCatch (Claiming.tryCatch (h.bind fun x => ?_)
    fun e => ?_) fun e => ?_) fun x => ?_
  · exact hend (.commit (answers x)) (.ok x) (by simp)
  all_goals exact hend .rollback _ (by simp)

theorem claiming_insertEvent (event : EventIngest) (occurred_at : DateTime) :
    Claiming ids (EventRepository.insertEvent event occurred_at) := by
  rw [EventRepository.insertEvent, perform_bind]
  refine .draw fun u => ?_
  rw [execute_bind]
  refine .claim fun x => ?_
  cases x with
  | error e => exact .ret
  | ok claimed =>
      dsimp only
      split
      · refine .of_only (Only.bind ?_ fun _ => .ret)
        refine (only_lockless_execute rfl).bind fun rows => ?_
        refine (only_lockless_one rows).bind fun row => ?_
        exact (only_lockless_execute rfl).bind fun rows' => only_lockless_one rows'
      · rw [execute_bind]
        refine .store ?_ fun x => ?_
        · intro v hv
          rw [List.mem_singleton.mp hv]
          exact List.mem_cons_self
        · cases x with
          | error e => exact .ret
          | ok rows => exact .of_only ((only_lockless_one rows).bind fun _ => .ret)

theorem claiming_ingestEvent (event : EventIngest) :
    Claiming ids (IngestionService.ingestEvent event) := by
  rw [IngestionService.ingestEvent]
  refine .after ((only_lockless_execute rfl).bind fun _ => .ret) fun found => ?_
  split
  · refine .free (Call.lockless_of_not_sql (by simp)) fun occurred_at => ?_
    refine (claiming_insertEvent event occurred_at).bind fun p => ?_
    dsimp only
    split
    · exact .ret
    · refine Only.bind ((only_lockless_execute rfl).tryCatch fun _ => .ret) fun _ => ?_
      refine Only.bind (only_write (Call.lockless_of_not_sql (by simp))) fun _ => ?_
      exact .ret
  · exact .ret

theorem Served.lockless {c : Call} (h : Served (fun s => s.queries = true) c) :
    c.Lockless := by
  rintro s rfl
  cases h with
  | sql hs => cases s <;> simp_all [Stmt.queries, Stmt.locks]

end Stages

/-! ## In the world -/

/-- The session has locked no row. -/
def Unlocked (i : ℕ) (w : World) : Prop :=
  ∀ tx, w.txs.get? i = some tx → tx.writes.locks = []

/-- Session `i` is at one of the stages, with its own identifiers. -/
def Placed (i : ℕ) (w : World) (p : Service Unit) : Prop :=
  ∃ ids, (∀ u ∈ ids, w.issued.get? u = some i) ∧
    (Holding ids p ∨ Claiming ids p ∧ Unlocked i w)

section World

variable {pol : ServicePolicy} {i j : ℕ} {w w' : World} {c : Call}

theorem issued_of_effect (h : World.Effect i c w w') {u : UUID}
    (hu : w.issued.get? u = some j) : w'.issued.get? u = some j := by
  cases h with
  | issue u' _ hnone =>
      show (w.issued.set u' i).get? u = some j
      rw [Dict.get?_set, if_neg]
      · exact hu
      · rintro rfl
        rw [hu] at hnone
        cases hnone
  | wrote tx s ch y ws _ _ _ _ =>
      show (w.observe (w.view tx) s y).issued.get? u = some j
      rw [World.observe_issued]
      exact hu
  | _ => exact hu

theorem unlocked_of_effect (hc : c.Lockless) (hw : Unlocked i w)
    (h : World.Effect i c w w') : Unlocked i w' := by
  have hset : ∀ {v : World} {tx : Tx}, tx.writes.locks = [] →
      Unlocked i (v.setTx i tx) := by
    intro v tx hlocks tx' htx'
    rw [World.get?_setTx, if_pos rfl] at htx'
    cases htx'
    exact hlocks
  have hdrop : ∀ v : World, Unlocked i (v.dropTx i) := by
    intro v tx htx
    rw [World.get?_dropTx, if_pos rfl] at htx
    cases htx
  cases h with
  | quiet r => exact hw
  | begin t _ => exact hset rfl
  | drop => exact hdrop w
  | issue u _ _ => exact hw
  | abort tx _ => exact hset rfl
  | wrote tx s ch y ws hs htx _ hrun =>
      apply hset
      apply List.eq_nil_iff_forall_not_mem.mpr
      intro l hl
      rcases Db.mem_locks_overlay.mp hl with hl | hl
      · have hlock := Stmt.run_locks hrun l hl
        rw [hc s hs] at hlock
        cases hlock
      · rw [hw tx htx] at hl
        cases hl
  | commit tx answers _ _ _ => exact hdrop _

/-- **Its own call** takes a session from stage to stage. -/
theorem Placed.next {k : c.Res → Service Unit} {ch : Choice} {x : c.Res}
    (h : Placed i w (.call c k)) (he : World.exec i c ch w = some (x, w')) :
    Placed i w' (k x) := by
  obtain ⟨ids, hids, hstage⟩ := h
  have heffect := World.exec_effect he
  have hids' : ∀ u ∈ ids, w'.issued.get? u = some i :=
    fun u hu => issued_of_effect heffect (hids u hu)
  rcases hstage with hhold | ⟨hclaim, hfree⟩
  · refine ⟨ids, hids', .inl ?_⟩
    cases hhold with
    | free _ hk => exact hk x
    | store _ hk => exact hk x
  · cases hclaim with
    | free hc hk =>
        exact ⟨ids, hids', .inr ⟨hk x, unlocked_of_effect hc hfree heffect⟩⟩
    | draw hk =>
        have hdrawn : w'.issued.get? x = some i := by
          change World.exec i .uuid4 ch w = some (x, w') at he
          cases ch <;> simp only [World.exec, reduceCtorEq] at he
          split at he
          · cases he
            exact (Dict.get?_set _ _ _ _).trans (if_pos rfl)
          · cases he
        refine ⟨x :: ids, ?_, .inr ⟨hk x, unlocked_of_effect
          (Call.lockless_of_not_sql (by simp)) hfree heffect⟩⟩
        rintro u hu
        rcases List.mem_cons.mp hu with rfl | hu
        · exact hdrawn
        · exact hids' u hu
    | claim hk => exact ⟨ids, hids', .inl (hk x)⟩

/-- What the others do leaves it where it is. -/
theorem Placed.stay {p : Service Unit} (h : Placed i w p)
    (htx : w'.txs.get? i = w.txs.get? i)
    (hissued : ∀ {u}, w.issued.get? u = some i → w'.issued.get? u = some i) :
    Placed i w' p := by
  obtain ⟨ids, hids, hstage⟩ := h
  refine ⟨ids, fun u hu => hissued (hids u hu), hstage.imp_right fun hclaim => ?_⟩
  refine ⟨hclaim.1, fun tx htx' => hclaim.2 tx ?_⟩
  rw [← htx]
  exact htx'

/-- **A session that holds a lock waits for none.** -/
theorem Placed.free_of_holding (hw : Coherent w) {s : Stmt} {tx : Tx}
    {k : Except DbError s.Result → Service Unit} (h : Placed i w (.call (.sql s) k))
    (htx : w.txs.get? i = some tx) (hheld : tx.writes.locks ≠ []) :
    w.blocked i s.locks = false := by
  obtain ⟨ids, hids, hhold | ⟨-, hfree⟩⟩ := h
  · rw [World.not_blocked_iff]
    intro j tx' htx' hj l hl hlock
    cases hhold with
    | free hc _ =>
        rw [hc s rfl] at hl
        cases hl
    | store hv _ =>
        obtain ⟨v, hmem, rfl⟩ := List.mem_map.mp hl
        obtain ⟨r, hr, hid, -⟩ := Db.rawEvent_mem_locks.mp hlock
        have hother := hw.pending_issued htx' r hr
        rw [hid, hids _ (hv v hmem)] at hother
        exact hj (Option.some.inj hother).symm
  · exact absurd (hfree tx htx) hheld

end World

end AnalyticsPipeline
