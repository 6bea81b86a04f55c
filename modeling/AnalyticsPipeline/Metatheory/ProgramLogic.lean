import AnalyticsPipeline.Metatheory.Interference

/-!
# Rules for the calls of the services

The rely calculus at the services' machine: one rule for each kind of call, and
one for the session block. An invariant is coherence together with a property of
the history; only fetches and commits touch the history, so only their rules
ask for the property again.
-/

namespace AnalyticsPipeline

open Framework

abbrev ServicePolicy := Policy services PyError

def History.fetch (h : History) (f : Fetch) : History :=
  { h with fetches := h.fetches ++ [f] }

def History.install (h : History) (ws : Db) (answers : Answers) : History :=
  { h with db := ws.overlay h.db, answered := h.answered ++ [answers] }

@[simp] theorem World.install_toHistory (w : World) (ws : Db)
    (answers : Answers) :
    (w.install ws answers).toHistory = w.toHistory.install ws answers := rfl

def Inv (S : History → Prop) (w : World) : Prop :=
  Coherent w ∧ S w.toHistory

abbrev Interferes (pol : ServicePolicy) (S : History → Prop) (i : ℕ) :
    World → World → Prop :=
  Rely pol (Inv S) i

variable {pol : ServicePolicy} {S : History → Prop} {i : ℕ} {α β : Type}

theorem otherStep_frame {w w' : World} (hw : Coherent w)
    (h : OtherStep pol i w w') : Frame i w w' := by
  match h with
  | .call hj _ he => exact (World.exec_effect he).frame hw hj
  | .crash hj => exact World.Effect.frame (c := .rollback) hw hj .drop
  | .env _ he => exact handle_frame i he

theorem frame_of_rely {w w' : World} (h : Interferes pol S i w w') :
    Frame i w w' :=
  Rely.lift (R := Frame i) (Frame.refl i) Frame.trans
    (fun hw hs => otherStep_frame hw.1 hs) h

/-- What a session knows of the committed state and of Redis, and keeps. -/
def Stable (pol : ServicePolicy) (S : History → Prop) (i : ℕ)
    (P : History → Redis → Prop) : Prop :=
  ∀ {w w' : World}, Interferes pol S i w w' → Inv S w' →
    P w.toHistory w.redis → P w'.toHistory w'.redis

/-! ## Programs as trees -/

@[simp] theorem perform_bind (c : Call) (f : c.Res → Service α) :
    (perform c >>= f) = .call c f := rfl

theorem execute_bind (s : Stmt) (f : s.Result → Service α) :
    (execute s >>= f) = .call (.sql s) fun r => match r with
      | .ok x => f x
      | .error e => throw (.db e) := by
  change Prog.call (Call.sql s) _ = _
  congr 1
  funext r
  cases r <;> rfl

theorem execute_eq (s : Stmt) :
    execute s = .call (.sql s) fun r => match r with
      | .ok x => pure x
      | .error e => throw (.db e) := by
  rw [← execute_bind, bind_pure]

/-! ## Rules -/

section Rules

variable {Q : Except PyError α → World → Prop} {w : World}

theorem wp_ret {r : Except PyError α}
    (h : ∀ w', Interferes pol S i w w' → Inv S w' → Q r w') :
    Wp pol (Inv S) i (.ret r : Service α) Q w := h

theorem wp_begin {f : Unit → Service α} (hidle : w.txs.get? i = none)
    (h : ∀ w' t, Interferes pol S i w w' → Inv S w' →
      w'.txs.get? i = none →
      Wp pol (Inv S) i (f ()) Q (w'.setTx i ⟨t, false, ∅⟩)) :
    Wp pol (Inv S) i (.call .begin f) Q w := by
  intro w' hr hi ch x w'' _ he
  have hidle' : w'.txs.get? i = none := (frame_of_rely hr).tx.trans hidle
  have hcoh := (World.exec_effect he).coherent hi.1 (by simp)
  change World.exec i .begin ch w' = some (x, w'') at he
  cases ch <;> simp only [World.exec, reduceCtorEq] at he
  rename_i t _
  simp only [hidle', Option.some.injEq, Prod.mk.injEq, true_and] at he
  subst he
  exact ⟨⟨hcoh, hi.2⟩, h w' t hr hi hidle'⟩

theorem wp_rollback {f : Unit → Service α}
    (h : ∀ w', Interferes pol S i w w' → Inv S w' →
      Wp pol (Inv S) i (f ()) Q (w'.dropTx i)) :
    Wp pol (Inv S) i (.call .rollback f) Q w := by
  intro w' hr hi ch x w'' _ he
  have hcoh := (World.exec_effect he).coherent hi.1 (by simp)
  change World.exec i .rollback ch w' = some (x, w'') at he
  cases ch <;> simp only [World.exec, reduceCtorEq] at he
  simp only [Option.some.injEq, Prod.mk.injEq, true_and] at he
  subst he
  exact ⟨⟨hcoh, hi.2⟩, h w' hr hi⟩

theorem wp_uuid4 {f : UUID → Service α}
    (h : ∀ w' u, Interferes pol S i w w' → Inv S w' →
      w'.issued.get? u = none →
      Wp pol (Inv S) i (f u) Q { w' with issued := w'.issued.set u i }) :
    Wp pol (Inv S) i (.call .uuid4 f) Q w := by
  intro w' hr hi ch x w'' _ he
  have hcoh := (World.exec_effect he).coherent hi.1 (by simp)
  change World.exec i .uuid4 ch w' = some (x, w'') at he
  cases ch <;> simp only [World.exec, reduceCtorEq] at he
  rename_i u _
  split at he
  · rename_i hu
    simp only [Option.some.injEq, Prod.mk.injEq] at he
    obtain ⟨rfl, rfl⟩ := he
    exact ⟨⟨hcoh, hi.2⟩, h w' u hr hi hu⟩
  · cases he

/-- The calls that touch neither the database nor the identifiers. -/
def Call.quiet : Call → Bool
  | .now | .monotonic | .redisGet _ | .redisExists _ | .redisRange _ _ _
  | .redisWrite _ _ => true
  | _ => false

theorem exec_quiet {c : Call} {ch : Choice} {x : c.Res} {w w' : World}
    (hc : c.quiet = true) (h : World.exec i c ch w = some (x, w')) :
    ∃ r, w' = { w with redis := r } := by
  cases c <;> simp only [Call.quiet, Bool.false_eq_true] at hc
  all_goals
    cases ch <;> simp only [World.exec, reduceCtorEq, Option.some.injEq,
      Prod.mk.injEq] at h
  all_goals exact ⟨_, h.2.symm⟩

theorem wp_quiet {c : Call} {f : c.Res → Service α} (hc : c.quiet = true)
    (h : ∀ w' x r, Interferes pol S i w w' → Inv S w' →
      Wp pol (Inv S) i (f x) Q { w' with redis := r }) :
    Wp pol (Inv S) i (.call c f) Q w := by
  intro w' hr hi ch x w'' _ he
  obtain ⟨r, rfl⟩ := exec_quiet hc he
  exact ⟨⟨hi.1.of_eq rfl rfl rfl, hi.2⟩, h w' x r hr hi⟩

theorem wp_sql {s : Stmt} {f : Except DbError s.Result → Service α} {tx : Tx}
    (htx : w.txs.get? i = some tx) (hopen : tx.aborted = false)
    (hraw : ∀ values, s = .insertRawEvents values →
      ∀ v ∈ values, w.issued.get? v.id = some i)
    (hok : ∀ w' ch x ws, Interferes pol S i w w' → Inv S w' →
      w'.txs.get? i = some tx → pol.call w' i (.sql s) ch →
      s.run tx.now ch (w'.view tx) = some (.ok (x, ws)) →
      Coherent ((w'.observe (w'.view tx) s x).setTx i
        { tx with writes := ws.overlay tx.writes }) →
      S (w'.observe (w'.view tx) s x).toHistory ∧
      Wp pol (Inv S) i (f (.ok x)) Q
        ((w'.observe (w'.view tx) s x).setTx i
          { tx with writes := ws.overlay tx.writes }))
    (herr : ∀ w' ch e, Interferes pol S i w w' → Inv S w' →
      w'.txs.get? i = some tx →
      s.run tx.now ch (w'.view tx) = some (.error e) →
      pol.call w' i (.sql s) ch →
      Wp pol (Inv S) i (f (.error e)) Q
        (w'.setTx i { tx with aborted := true, writes := ∅ })) :
    Wp pol (Inv S) i (.call (.sql s) f) Q w := by
  intro w' hr hi ch x w'' hpol he
  have hframe := frame_of_rely hr
  have htx' : w'.txs.get? i = some tx := hframe.tx.trans htx
  have hcoh := (World.exec_effect he).coherent hi.1
    fun values hs v hv => hframe.issued (hraw values (Call.sql.inj hs) v hv)
  have he' : w'.execSql i s ch = some (x, w'') := by
    cases ch <;> exact he
  rcases World.execSql_eq_some he' with ⟨-, -, hab⟩ | ⟨tx', htx'', -, -, hrun⟩
  · exact absurd (hab tx htx') (by simp [hopen])
  · obtain rfl : tx = tx' := Option.some.inj (htx'.symm.trans htx'')
    rcases hrun with ⟨e, hrun, rfl, rfl⟩ | ⟨y, ws, hrun, rfl, rfl⟩
    · exact ⟨⟨hcoh, hi.2⟩, herr w' ch e hr hi htx' hrun hpol⟩
    · obtain ⟨hS, hwp⟩ := hok w' ch y ws hr hi htx' hpol hrun hcoh
      exact ⟨⟨hcoh, hS⟩, hwp⟩

/-- A statement that only reads, and always succeeds. -/
theorem wp_read {s : Stmt} {f : Except DbError s.Result → Service α} {tx : Tx}
    {g : Db → s.Result} (hraw : ∀ values, s ≠ .insertRawEvents values)
    (hrun : ∀ now ch view, s.run now ch view = some (.ok (g view, ∅)))
    (hobs : ∀ (w : World) view x, w.observe view s x = w)
    (htx : w.txs.get? i = some tx) (hopen : tx.aborted = false)
    (h : ∀ w', Interferes pol S i w w' → Inv S w' →
      w'.txs.get? i = some tx →
      Wp pol (Inv S) i (f (.ok (g (w'.view tx)))) Q w') :
    Wp pol (Inv S) i (.call (.sql s) f) Q w := by
  refine wp_sql htx hopen ?_ ?_ ?_
  · intro values hs
    exact absurd hs (hraw values)
  · intro w' ch x ws hr hi htx' _ hx _
    rw [hrun] at hx
    cases hx
    rw [hobs]
    refine ⟨hi.2, ?_⟩
    have hsame : w'.setTx i { tx with writes := (∅ : Db).overlay tx.writes } =
        w' := by
      rw [Db.empty_overlay, World.setTx, Dict.set_eq_self htx']
    rw [hsame]
    exact h w' hr hi htx'
  · intro w' ch e _ _ _ hx _
    rw [hrun] at hx
    cases hx

/-- A statement in an aborted transaction. -/
theorem wp_sql_aborted {s : Stmt} {f : Except DbError s.Result → Service α}
    {tx : Tx} (htx : w.txs.get? i = some tx) (hab : tx.aborted = true)
    (h : ∀ w', Interferes pol S i w w' → Inv S w' →
      w'.txs.get? i = some tx →
      Wp pol (Inv S) i (f (.error .inFailedTransaction)) Q w') :
    Wp pol (Inv S) i (.call (.sql s) f) Q w := by
  intro w' hr hi ch x w'' _ he
  have htx' : w'.txs.get? i = some tx := (frame_of_rely hr).tx.trans htx
  have he' : w'.execSql i s ch = some (x, w'') := by
    cases ch <;> exact he
  rcases World.execSql_eq_some he' with ⟨rfl, rfl, -⟩ | ⟨tx', htx'', ho, -⟩
  · exact ⟨hi, h _ hr hi htx'⟩
  · obtain rfl : tx = tx' := Option.some.inj (htx'.symm.trans htx'')
    simp [hab] at ho

theorem wp_commit {answers : Answers} {f : Unit → Service α}
    {tx : Tx} (htx : w.txs.get? i = some tx)
    (habort : tx.aborted = true → ∀ w', Interferes pol S i w w' → Inv S w' →
      Wp pol (Inv S) i (f ()) Q (w'.dropTx i))
    (hcommit : tx.aborted = false → ∀ w', Interferes pol S i w w' →
      Inv S w' → w'.txs.get? i = some tx →
      pol.call w' i (.commit answers) .auto →
      S (w'.install tx.writes answers).toHistory ∧
      Wp pol (Inv S) i (f ()) Q ((w'.install tx.writes answers).dropTx i)) :
    Wp pol (Inv S) i (.call (.commit answers) f) Q w := by
  intro w' hr hi ch x w'' hpol he
  have htx' : w'.txs.get? i = some tx := (frame_of_rely hr).tx.trans htx
  have hcoh := (World.exec_effect he).coherent hi.1 (by simp)
  change World.exec i (.commit answers) ch w' = some (x, w'') at he
  cases ch <;> simp only [World.exec, reduceCtorEq] at he
  simp only [Option.some.injEq, Prod.mk.injEq, true_and, World.execCommit,
    htx'] at he
  subst he
  cases hab : tx.aborted with
  | true =>
      simp only [hab, if_true] at hcoh ⊢
      exact ⟨⟨hcoh, hi.2⟩, habort hab w' hr hi⟩
  | false =>
      simp only [hab, Bool.false_eq_true, if_false] at hcoh ⊢
      obtain ⟨hS, hwp⟩ := hcommit hab w' hr hi htx' hpol
      exact ⟨⟨hcoh, hS⟩, hwp⟩

theorem wp_sessionScope {body : Service α}
    {R : Except PyError α → World → Prop}
    (hidle : w.txs.get? i = none)
    (hbody : ∀ w' t, Interferes pol S i w w' → Inv S w' →
      w'.txs.get? i = none →
      Wp pol (Inv S) i body R (w'.setTx i ⟨t, false, ∅⟩))
    (hpost : ∀ r w' w'', Inv S w' → R r w' →
      Interferes pol S i (w'.dropTx i) w'' → Inv S w'' → Q r w'') :
    Wp pol (Inv S) i (sessionScope body) Q w := by
  refine wp_begin hidle fun w' t hr hi hnone => ?_
  have hi' : Inv S (w'.setTx i ⟨t, false, ∅⟩) :=
    ⟨World.Effect.coherent (c := .begin) hi.1 (.begin t hnone) (by simp), hi.2⟩
  refine Wp.bind (p := tryCatch body _) (Wp.tryCatch
    (Wp.mono ?_ (Wp.stable (hbody w' t hr hi hnone))) hi') hi'
  intro r w₁ _ hR
  cases r with
  | ok a =>
      refine wp_ret fun w₂ hr₂ hi₂ => wp_rollback fun w₃ hr₃ hi₃ => ?_
      have hR₃ : R (.ok a) w₃ := hR w₃ (hr₂.trans hr₃) hi₃
      exact wp_ret fun w₄ hr₄ hi₄ => hpost _ _ _ hi₃ hR₃ hr₄ hi₄
  | error e =>
      refine wp_rollback fun w₂ hr₂ hi₂ => ?_
      have hR₂ : R (.error e) w₂ := hR w₂ hr₂ hi₂
      refine wp_ret fun w₃ hr₃ hi₃ => wp_ret fun w₄ hr₄ hi₄ => ?_
      exact hpost _ _ _ hi₂ hR₂ (hr₃.trans hr₄) hi₄

/-- A program of quiet calls leaves the session without a transaction. -/
def Call.loud (c : Call) : ℕ := if c.quiet then 0 else 1

theorem wp_quietProgram {p : Service α} {n : ℕ}
    (hp : Prog.Within Call.loud n p) (hn : n = 0)
    (hidle : w.txs.get? i = none) :
    Wp pol (Inv S) i p (fun _ w => w.txs.get? i = none) w := by
  induction hp generalizing w with
  | ret => exact fun w' hr _ => (frame_of_rely hr).tx.trans hidle
  | @call n c k _ ih =>
      have hc : c.quiet = true := by
        by_contra hc
        simp [Call.loud, hc] at hn
      refine wp_quiet hc fun w' x r hr _ => ih x (by omega) ?_
      exact (frame_of_rely hr).tx.trans hidle

/-- The request wrapper: `R` is what the service leaves behind for the
commit, should its transaction still be good. -/
theorem wp_getDb {body : Service α} {answers : α → Answers}
    {R : α → World → Tx → Prop} (hidle : w.txs.get? i = none)
    (hbody : ∀ w' t, Interferes pol S i w w' → Inv S w' →
      w'.txs.get? i = none →
      Wp pol (Inv S) i body
        (fun r w => match r with
          | .ok x => ∃ tx, w.txs.get? i = some tx ∧
              (tx.aborted = false → R x w tx)
          | .error _ => True)
        (w'.setTx i ⟨t, false, ∅⟩))
    (hcommit : ∀ x w' tx, Inv S w' → w'.txs.get? i = some tx →
      tx.aborted = false → R x w' tx →
      pol.call w' i (.commit (answers x)) .auto →
      S (w'.toHistory.install tx.writes (answers x))) :
    Wp pol (Inv S) i (getDb answers body) (fun _ w => w.txs.get? i = none) w := by
  refine wp_sessionScope (R := fun _ _ => True) hidle ?_ ?_
  · intro w₁ t hr hi hnone
    have hi' : Inv S (w₁.setTx i ⟨t, false, ∅⟩) :=
      ⟨World.Effect.coherent (c := .begin) hi.1 (.begin t hnone) (by simp), hi.2⟩
    refine Wp.tryCatch (Wp.bind (Wp.mono ?_ (Wp.stable (hbody w₁ t hr hi hnone)))
      hi') hi'
    intro r w₂ hi₂ hR
    cases r with
    | error e =>
        refine wp_ret fun w₃ _ _ => wp_rollback fun w₄ _ _ => ?_
        exact wp_ret fun _ _ _ => trivial
    | ok x =>
        obtain ⟨tx, htx, hready⟩ := hR w₂ .refl hi₂
        refine wp_commit htx ?_ ?_
        · intro _ w₃ _ _
          exact wp_ret fun _ _ _ => wp_ret fun _ _ _ => trivial
        · intro hopen w₃ hr₃ hi₃ htx₃ hpol
          obtain ⟨tx', htx', hready'⟩ := hR w₃ hr₃ hi₃
          obtain rfl : tx = tx' := Option.some.inj (htx₃.symm.trans htx')
          refine ⟨hcommit x w₃ tx hi₃ htx₃ hopen (hready' hopen) hpol, ?_⟩
          exact wp_ret fun _ _ _ => wp_ret fun _ _ _ => trivial
  · intro r w₁ w₂ _ _ hr _
    rw [(frame_of_rely hr).tx, World.get?_dropTx, if_pos rfl]

end Rules

end AnalyticsPipeline
