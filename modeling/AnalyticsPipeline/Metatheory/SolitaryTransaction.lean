import AnalyticsPipeline.Metatheory.Resources

/-!
# One transaction alone

Rules for the calls of a session that nobody disturbs. `At` is all that such a
session depends on: the history, Redis, the identifiers drawn so far and its own
transaction; one rule for each kind of call says what becomes of it.
-/

namespace AnalyticsPipeline

open Framework

/-- What session `i` meets, with this transaction open or none. -/
structure At (i : ℕ) (h : History) (r : Redis) (d : Dict UUID ℕ)
    (tx : Option Tx) (w : World) : Prop where
  history : w.toHistory = h
  redis : w.redis = r
  issued : w.issued = d
  tx : w.txs.get? i = tx

/-- The identifiers of stored events were drawn. -/
def RawIssued (h : History) (d : Dict UUID ℕ) : Prop :=
  ∀ r ∈ h.db.raw_events, d.get? r.id ≠ none

section Rules

variable {i : ℕ} {h : History} {r : Redis} {d : Dict UUID ℕ} {tx : Tx}
  {t : Option Tx} {w : World} {fails : Bool} {α : Type}
  {Q : Except PyError α → World → Prop}

theorem At.setTx (hat : At i h r d t w) (tx : Tx) :
    At i h r d (some tx) (w.setTx i tx) where
  history := hat.history
  redis := hat.redis
  issued := hat.issued
  tx := by rw [World.get?_setTx, if_pos rfl]

theorem At.dropTx (hat : At i h r d t w) :
    At i h r d none (w.dropTx i) where
  history := hat.history
  redis := hat.redis
  issued := hat.issued
  tx := by rw [World.get?_dropTx, if_pos rfl]

/-- What a transaction sees is determined. -/
theorem At.view (hat : At i h r d t w) (tx : Tx) :
    w.view tx = tx.writes.overlay h.db := by
  rw [World.view, ← hat.history]

/-! ### Statements -/

theorem after_execute {s : Stmt} {Q : Except PyError s.Result → World → Prop}
    (hat : At i h r d (some tx) w) (hopen : tx.aborted = false)
    (hs : ∀ last n, s ≠ .selectRawEventsAfter last n)
    (hok : ∀ ch x ws w', notifying fails (.sql s) ch →
      s.run tx.now ch (tx.writes.overlay h.db) = some (.ok (x, ws)) →
      At i h r d (some { tx with writes := ws.overlay tx.writes }) w' →
      Q (.ok x) w')
    (herror : ∀ ch e w', notifying fails (.sql s) ch →
      s.run tx.now ch (tx.writes.overlay h.db) = some (.error e) →
      At i h r d (some { tx with aborted := true, writes := ∅ }) w' →
      Q (.error (.db e)) w') :
    After (notifying fails) (M := services) i (execute s) Q w := by
  rw [execute_eq]
  refine after_call fun ch x w' hch he => ?_
  have he' : w.execSql i s ch = some (x, w') := by
    cases ch <;> exact he
  rcases World.execSql_eq_some he' with ⟨-, -, hab⟩ | ⟨tx', htx', -, -, hrun⟩
  · have := hab tx hat.tx
    simp [hopen] at this
  · obtain rfl : tx = tx' := Option.some.inj (hat.tx.symm.trans htx')
    rw [hat.view] at hrun
    rcases hrun with ⟨e, hrun, rfl, rfl⟩ | ⟨y, ws, hrun, rfl, rfl⟩
    · exact after_ret (herror ch e _ hch hrun (hat.setTx _))
    · have hobserve : w.observe (tx.writes.overlay h.db) s y = w := by
        cases s with
        | selectRawEventsAfter last n => exact absurd rfl (hs last n)
        | _ => rfl
      rw [hobserve]
      exact after_ret (hok ch y ws _ hch hrun (hat.setTx _))

/-- A statement with one outcome, which succeeds. -/
theorem after_writes {s : Stmt} {Q : Except PyError s.Result → World → Prop}
    {x : s.Result} {ws : Db} (hat : At i h r d (some tx) w)
    (hopen : tx.aborted = false)
    (hs : ∀ last n, s ≠ .selectRawEventsAfter last n)
    (hrun : ∀ ch, notifying fails (.sql s) ch →
      s.run tx.now ch (tx.writes.overlay h.db) = some (.ok (x, ws)) ∨
        s.run tx.now ch (tx.writes.overlay h.db) = none)
    (hQ : ∀ w', At i h r d (some { tx with writes := ws.overlay tx.writes }) w' →
      Q (.ok x) w') :
    After (notifying fails) (M := services) i (execute s) Q w := by
  refine after_execute hat hopen hs ?_ ?_
  · intro ch y ws' w' hch hy hat'
    rcases hrun ch hch with h' | h'
    · obtain ⟨rfl, rfl⟩ : x = y ∧ ws = ws' := by simpa using h'.symm.trans hy
      exact hQ w' hat'
    · exact absurd (h'.symm.trans hy) (by simp)
  · intro ch e w' hch he _
    rcases hrun ch hch with h' | h' <;> exact absurd (h'.symm.trans he) (by simp)

/-- A statement with one outcome, which fails. -/
theorem after_fails {s : Stmt} {Q : Except PyError s.Result → World → Prop}
    {e : DbError} (hat : At i h r d (some tx) w) (hopen : tx.aborted = false)
    (hs : ∀ last n, s ≠ .selectRawEventsAfter last n)
    (hrun : ∀ ch, notifying fails (.sql s) ch →
      s.run tx.now ch (tx.writes.overlay h.db) = some (.error e) ∨
        s.run tx.now ch (tx.writes.overlay h.db) = none)
    (hQ : ∀ w', At i h r d (some { tx with aborted := true, writes := ∅ }) w' →
      Q (.error (.db e)) w') :
    After (notifying fails) (M := services) i (execute s) Q w := by
  refine after_execute hat hopen hs ?_ ?_
  · intro ch y ws' w' hch hy _
    rcases hrun ch hch with h' | h' <;> exact absurd (h'.symm.trans hy) (by simp)
  · intro ch e' w' hch he hat'
    rcases hrun ch hch with h' | h'
    · obtain rfl : e = e' := by simpa using h'.symm.trans he
      exact hQ w' hat'
    · exact absurd (h'.symm.trans he) (by simp)

/-- A statement that only reads. -/
theorem after_read {s : Stmt} {Q : Except PyError s.Result → World → Prop}
    {x : s.Result} (hat : At i h r d (some tx) w) (hopen : tx.aborted = false)
    (hs : ∀ last n, s ≠ .selectRawEventsAfter last n)
    (hrun : ∀ ch, s.run tx.now ch (tx.writes.overlay h.db) = some (.ok (x, ∅)))
    (hQ : ∀ w', At i h r d (some tx) w' → Q (.ok x) w') :
    After (notifying fails) (M := services) i (execute s) Q w := by
  refine after_writes hat hopen hs (fun ch _ => .inl (hrun ch)) fun w' hat' => ?_
  rw [Db.empty_overlay] at hat'
  exact hQ w' hat'

/-- In an aborted transaction every statement fails. -/
theorem after_execute_aborted {s : Stmt}
    {Q : Except PyError s.Result → World → Prop}
    (hat : At i h r d (some tx) w) (hab : tx.aborted = true)
    (hQ : Q (.error (.db .inFailedTransaction)) w) :
    After (notifying fails) (M := services) i (execute s) Q w := by
  rw [execute_eq]
  refine after_call fun ch x w' _ he => ?_
  have he' : w.execSql i s ch = some (x, w') := by
    cases ch <;> exact he
  rcases World.execSql_eq_some he' with ⟨rfl, rfl, -⟩ | ⟨tx', htx', hopen, -⟩
  · exact after_ret hQ
  · obtain rfl : tx = tx' := Option.some.inj (hat.tx.symm.trans htx')
    simp [hab] at hopen

/-! ### Other calls -/

theorem after_now {f : DateTime → Service α}
    (hQ : ∀ t, After (notifying fails) (M := services) i (f t) Q w) :
    After (notifying fails) (M := services) i (perform .now >>= f) Q w := by
  rw [perform_bind]
  refine after_call fun ch x w' _ he => ?_
  change World.exec i .now ch w = some (x, w') at he
  cases ch <;> simp only [World.exec, reduceCtorEq, Option.some.injEq,
    Prod.mk.injEq] at he
  obtain ⟨rfl, rfl⟩ := he
  exact hQ _

theorem after_monotonic {f : ℚ → Service α}
    (hQ : ∀ t, After (notifying fails) (M := services) i (f t) Q w) :
    After (notifying fails) (M := services) i (perform .monotonic >>= f) Q w := by
  rw [perform_bind]
  refine after_call fun ch x w' _ he => ?_
  change World.exec i .monotonic ch w = some (x, w') at he
  cases ch <;> simp only [World.exec, reduceCtorEq, Option.some.injEq,
    Prod.mk.injEq] at he
  obtain ⟨rfl, rfl⟩ := he
  exact hQ _

theorem after_uuid4 {f : UUID → Service α} (hat : At i h r d t w)
    (hQ : ∀ u w', d.get? u = none → At i h r (d.set u i) t w' →
      After (notifying fails) (M := services) i (f u) Q w') :
    After (notifying fails) (M := services) i (perform .uuid4 >>= f) Q w := by
  rw [perform_bind]
  refine after_call fun ch x w' _ he => ?_
  change World.exec i .uuid4 ch w = some (x, w') at he
  cases ch <;> simp only [World.exec, reduceCtorEq] at he
  split at he
  · rename_i hu
    cases he
    rw [hat.issued] at hu
    refine hQ x _ hu ⟨hat.history, hat.redis, ?_, hat.tx⟩
    rw [← hat.issued]
  · cases he

/-- The commands of a pipeline, the connection being up. -/
theorem after_write {transaction : Bool} {ops : List RedisOp}
    {Q : Except PyError Unit → World → Prop} (hat : At i h r d t w)
    (hQ : ∀ w', At i h (r.runAll ops).2 d t w' →
      Q ((r.runAll ops).1.mapError .redis) w') :
    After (notifying fails) (M := services) i
      (RedisRepository.write transaction ops) Q w := by
  rw [RedisRepository.write, perform_bind]
  refine after_call fun ch x w' hch he => ?_
  change World.exec i (.redisWrite transaction ops) ch w = some (x, w') at he
  cases ch <;> simp only [World.exec, reduceCtorEq, Option.some.injEq,
    Prod.mk.injEq] at he
  · obtain ⟨rfl, rfl⟩ := he
    rw [hat.redis]
    have hpost := hQ { w with redis := (r.runAll ops).2 }
      ⟨hat.history, rfl, hat.issued, hat.tx⟩
    cases hres : (r.runAll ops).1 with
    | ok x =>
        rw [hres] at hpost
        exact after_ret hpost
    | error e =>
        rw [hres] at hpost
        exact after_ret hpost
  · exact absurd rfl (hch _)

theorem after_cacheGet {key : String}
    {Q : Except PyError (Option Document) → World → Prop}
    (hat : At i h r d t w) (hQ : Q ((r.getDocument key).mapError .redis) w) :
    After (notifying fails) (M := services) i (RedisRepository.cacheGet key) Q
      w := by
  rw [RedisRepository.cacheGet, perform_bind]
  refine after_call fun ch x w' hch he => ?_
  change World.exec i (.redisGet key) ch w = some (x, w') at he
  cases ch <;> simp only [World.exec, reduceCtorEq, Option.some.injEq,
    Prod.mk.injEq] at he
  · obtain ⟨rfl, rfl⟩ := he
    rw [hat.redis]
    cases hres : r.getDocument key with
    | ok x =>
        rw [hres] at hQ
        exact after_ret hQ
    | error e =>
        rw [hres] at hQ
        exact after_ret hQ
  · exact absurd rfl (hch _)

/-! ### Transactions -/

theorem after_begin {ok : Call → Choice → Prop} {T : DateTime → Prop}
    {f : Unit → Service α} (hT : ∀ t, ok .begin (.clock t) → T t)
    (hat : At i h r d none w)
    (hQ : ∀ now w', T now → At i h r d (some ⟨now, false, ∅⟩) w' →
      After ok (M := services) i (f ()) Q w') :
    After ok (M := services) i (perform .begin >>= f) Q w := by
  rw [perform_bind]
  refine after_call fun ch x w' hch he => ?_
  change World.exec i .begin ch w = some (x, w') at he
  cases ch <;> simp only [World.exec, reduceCtorEq, hat.tx, Option.some.injEq,
    Prod.mk.injEq, true_and] at he
  exact he ▸ hQ _ _ (hT _ hch) (hat.setTx _)

theorem after_rollback {f : Unit → Service α} (hat : At i h r d t w)
    (hQ : ∀ w', At i h r d none w' →
      After (notifying fails) (M := services) i (f ()) Q w') :
    After (notifying fails) (M := services) i (perform .rollback >>= f) Q w := by
  rw [perform_bind]
  refine after_call fun ch x w' _ he => ?_
  change World.exec i .rollback ch w = some (x, w') at he
  cases ch <;> simp only [World.exec, reduceCtorEq, Option.some.injEq,
    Prod.mk.injEq, true_and] at he
  exact he ▸ hQ _ hat.dropTx

/-- What a commit leaves: nothing of an aborted transaction. -/
def Tx.committed (tx : Tx) (h : History) (answers : Answers) : History :=
  if tx.aborted then h else h.install tx.writes answers

theorem after_commit {answers : Answers} {f : Unit → Service α}
    (hat : At i h r d (some tx) w)
    (hQ : ∀ w', At i (tx.committed h answers) r d none w' →
      After (notifying fails) (M := services) i (f ()) Q w') :
    After (notifying fails) (M := services) i
      (perform (.commit answers) >>= f) Q w := by
  rw [perform_bind]
  refine after_call fun ch x w' _ he => ?_
  change World.exec i (.commit answers) ch w = some (x, w') at he
  cases ch <;> simp only [World.exec, reduceCtorEq, Option.some.injEq,
    Prod.mk.injEq, true_and, World.execCommit, hat.tx] at he
  subst he
  refine hQ _ ?_
  rw [Tx.committed]
  split
  · exact hat.dropTx
  · refine At.dropTx (t := some tx)
      ⟨?_, hat.redis, hat.issued, hat.tx⟩
    rw [World.install_toHistory, hat.history]

/-- A session block: its body in a new transaction, rolled back in the end. The
policy may be stricter than the body needs, about the start for instance. -/
theorem after_sessionScope_of {ok : Call → Choice → Prop} {T : DateTime → Prop}
    {body : Service α} (hok : ∀ c ch, ok c ch → notifying fails c ch)
    (hT : ∀ t, ok .begin (.clock t) → T t) (hat : At i h r d none w)
    (hbody : ∀ now w', T now → At i h r d (some ⟨now, false, ∅⟩) w' →
      After (notifying fails) (M := services) i body (fun x w₁ =>
        ∃ h' r' d' t', At i h' r' d' t' w₁ ∧
          ∀ w₂, At i h' r' d' none w₂ → Q x w₂) w') :
    After ok (M := services) i (sessionScope body) Q w := by
  refine after_begin hT hat fun now w₁ hnow hat₁ => After.weaken hok ?_
  refine after_bind (after_tryCatch (After.mono ?_ (hbody now w₁ hnow hat₁)))
  rintro x w₂ ⟨h', r', d', t', hat₂, hQ⟩
  cases x with
  | ok a => exact after_rollback hat₂ fun w₃ hat₃ => after_ret (hQ w₃ hat₃)
  | error e => exact after_rollback hat₂ fun w₃ hat₃ => after_ret (hQ w₃ hat₃)

theorem after_sessionScope {body : Service α} (hat : At i h r d none w)
    (hbody : ∀ now w', At i h r d (some ⟨now, false, ∅⟩) w' →
      After (notifying fails) (M := services) i body (fun x w₁ =>
        ∃ h' r' d' t', At i h' r' d' t' w₁ ∧
          ∀ w₂, At i h' r' d' none w₂ → Q x w₂) w') :
    After (notifying fails) (M := services) i (sessionScope body) Q w :=
  after_sessionScope_of (T := fun _ => True) (fun _ _ h => h)
    (fun _ _ => trivial) hat fun now w' _ => hbody now w'

/-- A request: what its body leaves is committed when it returns. -/
theorem after_getDb_of {ok : Call → Choice → Prop} {T : DateTime → Prop}
    {body : Service α} {answers : α → Answers}
    (hok : ∀ c ch, ok c ch → notifying fails c ch)
    (hT : ∀ t, ok .begin (.clock t) → T t) (hat : At i h r d none w)
    (hbody : ∀ now w', T now → At i h r d (some ⟨now, false, ∅⟩) w' →
      After (notifying fails) (M := services) i body (fun x w₁ =>
        ∃ r' d' tx, At i h r' d' (some tx) w₁ ∧
          ∀ w₂, At i (match x with
            | .ok a => tx.committed h (answers a)
            | .error _ => h) r' d' none w₂ → Q x w₂) w') :
    After ok (M := services) i (getDb answers body) Q w := by
  refine after_sessionScope_of hok hT hat fun now w₁ hnow hat₁ =>
    after_tryCatch (after_bind (After.mono ?_ (hbody now w₁ hnow hat₁)))
  rintro x w₂ ⟨r', d', tx, hat₂, hQ⟩
  cases x with
  | ok a =>
      exact after_commit hat₂ fun w₃ hat₃ => after_ret
        ⟨_, r', d', none, hat₃, hQ⟩
  | error e =>
      exact after_rollback hat₂ fun w₃ hat₃ => after_ret
        ⟨h, r', d', none, hat₃, hQ⟩

theorem after_getDb {body : Service α} {answers : α → Answers}
    (hat : At i h r d none w)
    (hbody : ∀ now w', At i h r d (some ⟨now, false, ∅⟩) w' →
      After (notifying fails) (M := services) i body (fun x w₁ =>
        ∃ r' d' tx, At i h r' d' (some tx) w₁ ∧
          ∀ w₂, At i (match x with
            | .ok a => tx.committed h (answers a)
            | .error _ => h) r' d' none w₂ → Q x w₂) w') :
    After (notifying fails) (M := services) i (getDb answers body) Q w :=
  after_getDb_of (T := fun _ => True) (fun _ _ h => h)
    (fun _ _ => trivial) hat fun now w' _ => hbody now w'

/-- A request ends as its body does, its transaction committed or dropped. -/
theorem after_getDb_outcome {body : Service α} {answers : α → Answers}
    {C : Redis → Prop} {P : Except PyError α → Db → Prop}
    (hat : At i h r d none w)
    (hbody : ∀ now w', At i h r d (some ⟨now, false, ∅⟩) w' →
      After (notifying fails) (M := services) i body (fun x w₁ =>
        ∃ r' d' tx, At i h r' d' (some tx) w₁ ∧ C r' ∧ P x (match x with
          | .ok _ => if tx.aborted then h.db else tx.writes.overlay h.db
          | .error _ => h.db)) w') :
    After (notifying fails) (M := services) i (getDb answers body)
      (fun x w' => ∃ h' r' d', At i h' r' d' none w' ∧ C r' ∧ P x h'.db) w := by
  refine after_getDb hat fun now w₁ hat₁ => After.mono ?_ (hbody now w₁ hat₁)
  rintro x w₂ ⟨r', d', tx, hat₂, hC, hP⟩
  refine ⟨r', d', tx, hat₂, fun w₃ hat₃ => ⟨_, r', d', hat₃, hC, ?_⟩⟩
  cases x with
  | error e => exact hP
  | ok a =>
      dsimp only at hP ⊢
      rw [Tx.committed]
      split at hP
      · rename_i hab
        rwa [if_pos hab]
      · rename_i hab
        rwa [if_neg hab]

end Rules

end AnalyticsPipeline
