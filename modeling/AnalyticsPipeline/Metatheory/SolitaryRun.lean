import AnalyticsPipeline.Metatheory.SerialHistory

/-!
# One session alone

The services when nothing else runs: every call can be answered without a
failure (`exists_eval_service`), and a batch does to the history exactly what
`BatchOutcome` says.
-/

namespace AnalyticsPipeline

open Framework Relation

/-! ## Nobody else -/

/-- Only session `i` makes calls. -/
def solitary (i : ℕ) : ServicePolicy where
  call := fun _ j _ _ => j = i
  crash := fun _ _ => False
  spawn := fun _ _ => False
  env := fun _ _ => False

section Solitary

variable {i : ℕ} {S : History → Prop}

theorem solitary_same {w w' : World} (h : Interferes (solitary i) S i w w') :
    w'.toHistory = w.toHistory ∧ w'.redis = w.redis := by
  refine Rely.lift (R := fun w w' : World =>
    w'.toHistory = w.toHistory ∧ w'.redis = w.redis) ?_ ?_ ?_ h
  · exact fun _ => ⟨rfl, rfl⟩
  · rintro u v w ⟨h₁, h₂⟩ ⟨h₃, h₄⟩
    exact ⟨h₃.trans h₁, h₄.trans h₂⟩
  · intro w w' _ hs
    match hs with
    | .call hj hpol _ => exact absurd hpol hj
    | .crash _ => exact ⟨rfl, rfl⟩
    | .env hpol _ => exact hpol.elim

theorem stable_solitary (P : History → Redis → Prop) :
    Stable (solitary i) S i P := by
  intro w w' hr _ hP
  obtain ⟨h₁, h₂⟩ := solitary_same hr
  rwa [h₁, h₂]

end Solitary

/-! ## A batch alone -/

/-- The event the consumer's next page comes after. -/
def History.cursor (h : History) (settings : Settings) : Option UUID :=
  (h.db.consumer_offsets.get? settings.worker_id).bind
    ConsumerOffset.last_event_id

/-- The page a batch fetches when it runs alone. -/
structure Fetched (settings : Settings) (h : History) (f : Fetch) : Prop where
  valid : f.Valid
  last_event_id : f.last_event_id = h.cursor settings
  limit : f.limit = settings.worker_batch_size
  seen : f.seen = h.db.raw_events

inductive BatchOutcome (settings : Settings) (h : History) :
    Option (List RawEvent × List RawEvent) → History → Prop where
  | nothing {f : Fetch} : Fetched settings h f → f.page = [] →
      BatchOutcome settings h none (h.fetch f)
  | page {f : Fetch} {new : List RawEvent} {ws : Db} :
      Fetched settings h f → f.page ≠ [] →
      BatchTx settings (h.fetch f) f new ws →
      BatchOutcome settings h (some (f.page, new)) ((h.fetch f).install ws [])

/-- The log cannot be read on from a cursor that names several events. -/
def Stuck (settings : Settings) (h : History) : Prop :=
  ∃ scan e, scan.Perm h.db.raw_events ∧
    Stmt.eventsAfter h.db.raw_events (h.cursor settings)
      settings.worker_batch_size scan = .error e

def solitaryHooks (settings : Settings) (i : ℕ) (h₀ : History) (r₀ : Redis) :
    BatchHooks (solitary i) (fun _ => True) i settings where
  start := fun h r => h = h₀ ∧ r = r₀
  cursor := fun last h r => (h = h₀ ∧ r = r₀) ∧ last = h₀.cursor settings
  fetched := fun f h r => (h = h₀.fetch f ∧ r = r₀) ∧ Fetched settings h₀ f ∧
    f.page ≠ []
  done := fun x h r => BatchOutcome settings h₀ x h ∧ r = r₀
  failed := fun h r => (h = h₀ ∧ r = r₀) ∧ Stuck settings h₀
  stable_start := @stable_solitary i _ _
  stable_cursor := fun _ => @stable_solitary i _ _
  stable_fetched := fun _ => @stable_solitary i _ _
  stable_done := fun _ => @stable_solitary i _ _
  stable_failed := @stable_solitary i _ _
  offset := fun {w} _ hstart => ⟨hstart, by rw [← hstart.1]; rfl⟩
  fetch := fun {w last ch f} _ hcursor _ hvalid hlast hlimit hseen => by
    obtain ⟨⟨hh, hr⟩, rfl⟩ := hcursor
    have hfetched : Fetched settings h₀ f :=
      ⟨hvalid, hlast, hlimit, hseen.trans (congrArg (fun h => h.db.raw_events) hh)⟩
    refine ⟨trivial, ?_⟩
    rw [hh, hr]
    split
    · rename_i hpage
      exact ⟨.nothing hfetched hpage, rfl⟩
    · rename_i hpage
      exact ⟨⟨rfl, rfl⟩, hfetched, hpage⟩
  fetch_error := fun {w last scan e} _ hcursor hperm herr => by
    obtain ⟨⟨hh, hr⟩, rfl⟩ := hcursor
    have hdb : w.db = h₀.db := congrArg History.db hh
    rw [hdb] at hperm herr
    exact ⟨⟨hh, hr⟩, scan, e, hperm, herr⟩
  commit := fun {w f new tx} _ hfetched _ _ _ hbatch => by
    obtain ⟨⟨hh, hr⟩, hf, hpage⟩ := hfetched
    rw [hh] at hbatch ⊢
    exact ⟨trivial, .page hf hpage hbatch, hr⟩

theorem eval_batchScope {ok : Call → Choice → Prop} {i : ℕ}
    {settings : Settings} {w w' : World}
    {r : Except PyError (Option (List RawEvent × List RawEvent))}
    (hw : Coherent w) (hidle : NoTx i w)
    (he : Eval (M := services) ok i
      (sessionScope (RollupWorker.batchTransaction settings)) w r w') :
    Coherent w' ∧ NoTx i w' ∧
      (solitaryHooks settings i w.toHistory w.redis).post r w' := by
  have hwp := wp_batchScope (solitaryHooks settings i w.toHistory w.redis)
    hidle (And.intro rfl rfl)
  obtain ⟨⟨hnone, hpost⟩, hw'⟩ :=
    Wp.eval ⟨hw, trivial⟩ hwp (fun _ _ _ _ => rfl) he
  exact ⟨hw'.1, hnone, hpost⟩

theorem eval_batchScope_ok {ok : Call → Choice → Prop} {i : ℕ}
    {settings : Settings} {w w' : World}
    {x : Option (List RawEvent × List RawEvent)}
    (hw : Coherent w) (hidle : NoTx i w)
    (he : Eval (M := services) ok i
      (sessionScope (RollupWorker.batchTransaction settings)) w (.ok x) w') :
    Coherent w' ∧ NoTx i w' ∧
      BatchOutcome settings w.toHistory x w'.toHistory ∧ w'.redis = w.redis :=
  eval_batchScope hw hidle he

theorem eval_batchScope_error {ok : Call → Choice → Prop} {i : ℕ}
    {settings : Settings} {w w' : World} {e : PyError}
    (hw : Coherent w) (hidle : NoTx i w)
    (he : Eval (M := services) ok i
      (sessionScope (RollupWorker.batchTransaction settings)) w (.error e) w') :
    Stuck settings w.toHistory := by
  obtain ⟨-, -, hpost⟩ := eval_batchScope hw hidle he
  exact And.right hpost

/-! ## Programs that keep to Redis -/

theorem eval_quietProgram {ok : Call → Choice → Prop} {i : ℕ} {α : Type}
    {p : Service α} {n : ℕ} (hp : Prog.Within Call.loud n p) (hn : n = 0)
    {w w' : World} {r : Except PyError α}
    (he : Eval (M := services) ok i p w r w') :
    ∃ redis, w' = { w with redis } := by
  induction hp generalizing w with
  | ret =>
      obtain ⟨-, rfl⟩ := eval_ret_iff.mp he
      exact ⟨w'.redis, rfl⟩
  | @call n c k _ ih =>
      have hc : c.quiet = true := by
        by_contra hc
        simp [Call.loud, hc] at hn
      obtain ⟨ch, x, w₁, -, he₁, he₂⟩ := eval_call_iff.mp he
      obtain ⟨redis, rfl⟩ := exec_quiet hc he₁
      obtain ⟨redis', rfl⟩ := ih x (by omega) he₂
      exact ⟨redis', rfl⟩

/-- The world does not fail on its own, except that `pg_notify` does if
`fails`. -/
def notifying (fails : Bool) : Call → Choice → Prop
  | .sql (.pgNotify _), ch => fails = true ↔ ∃ n, ch = .fail n
  | _, ch => ∀ n, ch ≠ .fail n

/-- `notifying`, decided. -/
def Call.lets (fails : Bool) : Call → Choice → Bool
  | .sql (.pgNotify _), .fail _ => fails
  | .sql (.pgNotify _), _ => !fails
  | _, .fail _ => false
  | _, _ => true

theorem notifying_of_lets {fails : Bool} {c : Call} {ch : Choice}
    (h : c.lets fails ch = true) : notifying fails c ch := by
  unfold Call.lets at h
  unfold notifying
  split at h <;> split <;> simp_all

def noFailure : Call → Choice → Prop := notifying false

theorem noFailure_iff {c : Call} {ch : Choice} :
    noFailure c ch ↔ ∀ n, ch ≠ .fail n := by
  unfold noFailure notifying
  split
  · simp
  · rfl

theorem eval_heartbeat {i : ℕ} {worker_id : String} {w w' : World}
    {r : Except PyError Unit}
    (he : Eval (M := services) noFailure i
      (RedisRepository.setWorkerHeartbeat worker_id) w r w') : r = .ok () := by
  rw [RedisRepository.setWorkerHeartbeat, perform_bind] at he
  obtain ⟨_, t, _, -, -, he⟩ := eval_call_iff.mp he
  rw [RedisRepository.write, perform_bind] at he
  obtain ⟨ch, x, w₁, hok, hexec, he⟩ := eval_call_iff.mp he
  change World.exec i _ ch _ = some (x, w₁) at hexec
  cases ch <;> simp only [World.exec, reduceCtorEq] at hexec
  · simp only [Redis.runAll, Redis.run, Option.some.injEq, Prod.mk.injEq] at hexec
    obtain ⟨rfl, -⟩ := hexec
    exact (eval_ret_iff.mp he).1
  · exact absurd rfl (noFailure_iff.mp hok _)

theorem eval_publish {i : ℕ} {settings : Settings} {new : List RawEvent}
    {w w' : World} {r : Except PyError Unit}
    (he : Eval (M := services) noFailure i (RollupWorker.publish settings new)
      w r w') : r = .ok () := by
  rw [RollupWorker.publish] at he
  split at he
  · rcases eval_bind_iff.mp he with ⟨_, _, -, he⟩ | ⟨e, he, -⟩
    · exact eval_heartbeat he
    · rcases eval_tryCatch_iff.mp he with ⟨_, -, h⟩ | ⟨_, _, -, h⟩
      · cases h
      · cases (eval_ret_iff.mp h).1
  · exact eval_heartbeat he

/-- A batch that returns has the outcome its result says. -/
theorem eval_processBatch {ok : Call → Choice → Prop} {i : ℕ}
    {settings : Settings} {w w' : World} {n : ℕ} (hw : Coherent w)
    (hidle : NoTx i w)
    (he : Eval (M := services) ok i (RollupWorker.processBatch settings) w
      (.ok n) w') :
    Coherent w' ∧ NoTx i w' ∧ ∃ x, BatchOutcome settings w.toHistory x
      w'.toHistory ∧ n = (x.elim 0 fun p => p.1.length) := by
  rw [RollupWorker.processBatch] at he
  rcases eval_bind_iff.mp he with ⟨x, w₁, h₁, h₂⟩ | ⟨e, -, h⟩
  · obtain ⟨hw₁, hnone, hout, -⟩ := eval_batchScope_ok hw hidle h₁
    cases x with
    | none =>
        obtain ⟨hn, rfl⟩ := eval_ret_iff.mp h₂
        cases hn
        exact ⟨hw₁, hnone, none, hout, rfl⟩
    | some p =>
        rcases eval_bind_iff.mp h₂ with ⟨_, w₂, h₂, h₃⟩ | ⟨e, -, h⟩
        · obtain ⟨redis, rfl⟩ := eval_quietProgram (within_publish _ _) rfl h₂
          obtain ⟨hn, rfl⟩ := eval_ret_iff.mp h₃
          cases hn
          exact ⟨hw₁.of_eq rfl rfl rfl, hnone, some p, hout, rfl⟩
        · cases h
  · cases h

theorem eval_processBatch_error {i : ℕ} {settings : Settings} {w w' : World}
    {e : PyError} (hw : Coherent w) (hidle : NoTx i w)
    (he : Eval (M := services) noFailure i (RollupWorker.processBatch settings)
      w (.error e) w') : Stuck settings w.toHistory := by
  rw [RollupWorker.processBatch] at he
  rcases eval_bind_iff.mp he with ⟨x, w₁, h₁, h₂⟩ | ⟨e', h₁, -⟩
  · cases x with
    | none => cases (eval_ret_iff.mp h₂).1
    | some p =>
        rcases eval_bind_iff.mp h₂ with ⟨_, w₂, -, h₃⟩ | ⟨e', h₂, -⟩
        · cases (eval_ret_iff.mp h₃).1
        · cases eval_publish h₂
  · exact eval_batchScope_error hw hidle h₁

/-! ## Every call can be answered -/

/-- How many identifiers a call draws. -/
def Call.draws : Call → ℕ
  | .uuid4 => 1
  | _ => 0

/-- No other session has a transaction open. -/
def Alone (i : ℕ) (w : World) : Prop := ∀ j, j ≠ i → w.txs.get? j = none

section Progress

variable {i : ℕ} {w w' : World}

theorem alone_of_txs {tx : Tx} (h : w.txs = (∅ : Dict ℕ Tx).set i tx) :
    Alone i w := by
  intro j hj
  rw [h, Dict.get?_set, if_neg hj]
  rfl

/-- Whatever SQL leaves open can be chosen. -/
theorem Stmt.run_isSome (fails : Bool) (s : Stmt) (now : DateTime) (view : Db) :
    ∃ ch, notifying fails (.sql s) ch ∧ (s.run now ch view).isSome = true := by
  cases s with
  | pgNotify payload =>
      cases fails with
      | true => exact ⟨.fail 0, by simp [notifying], rfl⟩
      | false => exact ⟨.auto, by simp [notifying], rfl⟩
  | selectRawEventsAfter last limit =>
      exact ⟨.rows view.raw_events, by simp [notifying], by simp [Stmt.run]⟩
  | selectLeaderboard start stop n =>
      exact ⟨.merchants ((Stmt.leaderboardRows view start stop).map
        (·.1.merchant_id)).dedup, by simp [notifying], by simp [Stmt.run]⟩
  | aggregateHours start stop =>
      exact ⟨.groups ((Stmt.hourRows view start stop).map
        (Stmt.dayKey ·.1)).dedup, by simp [notifying], by simp [Stmt.run]⟩
  | selectDiscrepancies start stop =>
      exact ⟨.groups (((view.rollup .day).entries.filter fun r =>
        r.1.bucket.micros = start).map Prod.fst), by simp [notifying], by simp [Stmt.run]⟩
  | selectDailyVolumes start stop =>
      exact ⟨.merchants (((view.rollup .day).entries.filter fun r =>
        Stmt.within start stop r.1.bucket ∧
          r.1.event_type = .paymentConfirmed).map (·.1.merchant_id)).dedup,
        by simp [notifying], by simp [Stmt.run]⟩
  | selectHistory period row_limit =>
      refine ⟨.snapshots (view.leaderboard_snapshots.keys.filter
        (·.period = period)), by simp [notifying], ?_⟩
      simp only [Stmt.run]
      split
      · rfl
      · rw [if_pos (List.Perm.refl _)]
        rfl
  | insertIdempotency values =>
      refine ⟨.auto, by simp [notifying], ?_⟩
      rw [Stmt.run]
      split <;> rfl
  | insertRawEvents values =>
      refine ⟨.auto, by simp [notifying], ?_⟩
      rw [Stmt.run]
      split
      · rfl
      · dsimp only
        split <;> rfl
  | upsertRollup g values =>
      refine ⟨.auto, by simp [notifying], ?_⟩
      rw [Stmt.run]
      split <;> rfl
  | selectOutcomes m start stop =>
      refine ⟨.auto, by simp [notifying], ?_⟩
      rw [Stmt.run]
      split <;> rfl
  | _ => exact ⟨.auto, by simp [notifying], rfl⟩

theorem not_blocked_of_alone (h : Alone i w) (keys : List Lock) :
    w.blocked i keys = false := by
  rw [World.not_blocked_iff]
  intro j tx htx hj
  rw [h j hj] at htx
  cases htx

theorem exists_execSql (fails : Bool) (s : Stmt)
    (hfree : w.blocked i s.locks = false) :
    ∃ ch x w', notifying fails (.sql s) ch ∧
      w.execSql i s ch = some (x, w') := by
  unfold World.execSql
  split
  · obtain ⟨ch, hch, -⟩ := Stmt.run_isSome fails s default w.db
    exact ⟨ch, _, _, hch, rfl⟩
  · rename_i tx _
    split
    · obtain ⟨ch, hch, -⟩ := Stmt.run_isSome fails s default w.db
      exact ⟨ch, _, _, hch, rfl⟩
    · obtain ⟨ch, hch, hrun⟩ := Stmt.run_isSome fails s tx.now (w.view tx)
      obtain ⟨r, hr⟩ := Option.isSome_iff_exists.mp hrun
      cases r with
      | error e =>
          exact ⟨ch, .error e, _, hch, by
            rw [hfree, if_neg Bool.false_ne_true, hr]⟩
      | ok r =>
          exact ⟨ch, .ok r.1, _, hch, by
            rw [hfree, if_neg Bool.false_ne_true, hr]⟩

theorem exists_unissued (issued : Dict UUID ℕ)
    (h : issued.entries.length < 2 ^ 128) : ∃ u, issued.get? u = none := by
  by_contra hall
  have hmem : ∀ u, u ∈ issued.keys := by
    intro u
    by_contra hu
    exact hall ⟨u, Dict.get?_eq_none_iff.mpr hu⟩
  have hsub : (List.finRange (2 ^ 128)).Subperm issued.keys :=
    List.subperm_of_subset (List.nodup_finRange _) fun u _ => hmem u
  have hle := hsub.length_le
  rw [List.length_finRange, Dict.keys, List.length_map] at hle
  omega

/-- A call is answered when no lock is in its way and identifiers last. -/
theorem exists_exec (fails : Bool) (c : Call)
    (hfree : ∀ s, c = .sql s → w.blocked i s.locks = false)
    (hsupply : w.issued.entries.length + c.draws ≤ 2 ^ 128) :
    ∃ ch x w', notifying fails c ch ∧ World.exec i c ch w = some (x, w') := by
  cases c with
  | begin =>
      refine ⟨.clock default, ?_⟩
      cases htx : w.txs.get? i with
      | none =>
          refine ⟨(), w.setTx i ⟨default, false, ∅⟩, by simp [notifying], ?_⟩
          simp [World.exec, htx]
      | some tx =>
          refine ⟨(), w, by simp [notifying], ?_⟩
          simp [World.exec, htx]
  | sql s =>
      obtain ⟨ch, x, w', hch, he⟩ := exists_execSql fails s (hfree s rfl)
      refine ⟨ch, x, w', hch, ?_⟩
      cases ch <;> exact he
  | uuid4 =>
      obtain ⟨u, hu⟩ := exists_unissued w.issued (by
        simp only [Call.draws] at hsupply
        omega)
      refine ⟨.uuid u, u, { w with issued := w.issued.set u i },
        by simp [notifying], ?_⟩
      simp [World.exec, hu]
  | now => exact ⟨.clock default, _, _, by simp [notifying], rfl⟩
  | monotonic => exact ⟨.seconds 0, _, _, by simp [notifying], rfl⟩
  | _ => exact ⟨.auto, _, _, by simp [notifying], rfl⟩

theorem exec_alone {c : Call} {ch : Choice} {x : c.Res} (h : Alone i w)
    (he : World.exec i c ch w = some (x, w')) : Alone i w' := by
  intro j hj
  have hnone := h j hj
  cases World.exec_effect he with
  | quiet r => exact hnone
  | issue u _ _ => exact hnone
  | _ => simp [hj, hnone, World.install]

theorem eval_alone {α : Type} {ok : Call → Choice → Prop} {p : Service α}
    {r : Except PyError α} (h : Alone i w)
    (he : Eval (M := services) ok i p w r w') : Alone i w' :=
  he.preserves (R := Alone i) (fun h he => exec_alone h he) h

/-- A session that ends without a transaction leaves none behind. -/
theorem idle_of_eval {α : Type} {ok : Call → Choice → Prop} {p : Service α}
    {r : Except PyError α} (hidle : ∀ j, w.txs.get? j = none)
    (he : Eval (M := services) ok i p w r w') (hnone : NoTx i w') :
    ∀ j, w'.txs.get? j = none := by
  intro j
  by_cases hj : j = i
  · exact hj ▸ hnone
  · exact eval_alone (fun j _ => hidle j) he j hj

theorem exec_issued {c : Call} {ch : Choice} {x : c.Res}
    (he : World.exec i c ch w = some (x, w')) :
    w'.issued.entries.length ≤ w.issued.entries.length + c.draws := by
  cases World.exec_effect he with
  | issue u hc _ =>
      subst hc
      exact Dict.length_alter_le _ _ _
  | _ => simp [World.install]

/-- **Progress**: alone, with enough identifiers left, every program of the
services runs to its end, its notification failing or not. -/
theorem exists_eval_service (fails : Bool) {α : Type} {p : Service α} {n : ℕ}
    (hp : Prog.Within Call.draws n p) (h : Alone i w)
    (hsupply : w.issued.entries.length + n ≤ 2 ^ 128) :
    ∃ r w', Eval (M := services) (notifying fails) i p w r w' := by
  refine exists_eval (R := fun (n : ℕ) (w : World) => Alone i w ∧
    w.issued.entries.length + n ≤ 2 ^ 128) ?_ hp ⟨h, hsupply⟩
  rintro n w c ⟨halone, hsupply⟩
  obtain ⟨ch, x, w₁, hok, he⟩ := exists_exec fails c
    (fun s _ => not_blocked_of_alone halone s.locks) (by omega)
  have hissued := exec_issued he
  exact ⟨ch, x, w₁, hok, he, exec_alone halone he, by omega⟩

theorem length_issued_le (w : World) : w.issued.entries.length ≤ 2 ^ 128 := by
  have hsub : w.issued.keys.Subperm (List.finRange (2 ^ 128)) :=
    List.subperm_of_subset w.issued.nodup_keys fun u _ => List.mem_finRange u
  have hle := hsub.length_le
  rwa [List.length_finRange, Dict.keys, List.length_map] at hle

/-- What a call may have to wait for, or run out of. -/
def Call.waits : Call → ℕ
  | .sql s => if s.locks = [] then 0 else 1
  | .uuid4 => 1
  | _ => 0

theorem Call.waits_sql {s : Stmt} (h : s.locks = []) : waits (.sql s) = 0 := by
  rw [waits, if_pos h]

theorem exists_exec_waitless (fails : Bool) {c : Call} (hc : c.waits = 0)
    (w : World) :
    ∃ ch x w', notifying fails c ch ∧ World.exec i c ch w = some (x, w') := by
  have hfree : ∀ s, c = .sql s → w.blocked i s.locks = false := by
    rintro s rfl
    have hlocks : s.locks = [] := by
      by_contra hne
      simp [Call.waits, hne] at hc
    rw [hlocks, World.not_blocked_iff]
    intro _ _ _ _ l hl
    cases hl
  have hdraws : c.draws = 0 := by
    cases c <;> simp_all [Call.waits, Call.draws]
  exact exists_exec fails c hfree (by rw [hdraws]; exact length_issued_le w)

/-- A program that waits for nothing runs to its end beside any others. -/
theorem exists_eval_waitless (fails : Bool) {α : Type} {p : Service α}
    (hp : Prog.Within Call.waits 0 p) (w : World) :
    ∃ r w', Eval (M := services) (notifying fails) i p w r w' := by
  refine exists_eval (R := fun (n : ℕ) (_ : World) => n = 0) ?_ hp rfl
  intro n w c hn
  obtain ⟨rfl, hc⟩ := Nat.add_eq_zero_iff.mp hn
  obtain ⟨ch, x, w₁, hok, he⟩ := exists_exec_waitless fails hc w
  exact ⟨ch, x, w₁, hok, he, rfl⟩

/-- Nothing fails, and transactions begin at `t`. -/
def startingAt (t : DateTime) (c : Call) (ch : Choice) : Prop :=
  noFailure c ch ∧ (c = .begin → ch = .clock t)

theorem startingAt_begin {t t' : DateTime}
    (h : startingAt t .begin (.clock t')) : t' = t := by
  cases h.2 rfl
  rfl

theorem exists_eval_startingAt (t : DateTime) {α : Type} {p : Service α}
    (hp : Prog.Within Call.waits 0 p) (w : World) :
    ∃ r w', Eval (M := services) (startingAt t) i p w r w' := by
  refine exists_eval (R := fun (n : ℕ) (_ : World) => n = 0) ?_ hp rfl
  intro n w c hn
  obtain ⟨rfl, hc⟩ := Nat.add_eq_zero_iff.mp hn
  by_cases hbegin : c = .begin
  · subst hbegin
    have hexec : ∃ w₁, World.exec i .begin (.clock t) w = some ((), w₁) := by
      rw [World.exec]
      split
      · exact ⟨_, rfl⟩
      · exact ⟨_, rfl⟩
    obtain ⟨w₁, he⟩ := hexec
    exact ⟨.clock t, (), w₁, ⟨noFailure_iff.mpr (by simp), fun _ => rfl⟩, he, rfl⟩
  · obtain ⟨ch, x, w₁, hok, he⟩ := exists_exec_waitless false hc w
    exact ⟨ch, x, w₁, ⟨hok, fun h => absurd h hbegin⟩, he, rfl⟩

end Progress

end AnalyticsPipeline
