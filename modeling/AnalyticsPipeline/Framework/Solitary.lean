import AnalyticsPipeline.Framework.Interleaving

/-!
# One session alone

`Eval` is the big-step meaning of a program nobody interferes with: the world's
choices are free within `ok`. A solitary run inherits every fact proved with the
rely calculus (`Wp.eval`), and `exists_eval` shows that it exists at all: when
every call can be answered, so can every program, as far as the resource it
draws on lasts.
-/

namespace Framework

variable {Call : Type} {Res : Call → Type} {ε α β : Type} {M : Machine Res}

/-- Session `i` runs `p` from `w` to its end, nobody interfering. -/
inductive Eval (ok : Call → M.Choice → Prop) (i : ℕ) :
    Prog Res ε α → M.World → Except ε α → M.World → Prop where
  | ret {r : Except ε α} {w : M.World} : Eval ok i (.ret r) w r w
  | call {c : Call} {k : Res c → Prog Res ε α} {ch : M.Choice} {x : Res c}
      {w w₁ w' : M.World} {r : Except ε α} :
      ok c ch → M.exec i c ch w = some (x, w₁) → Eval ok i (k x) w₁ r w' →
      Eval ok i (.call c k) w r w'

variable {ok : Call → M.Choice → Prop} {i : ℕ}

theorem eval_ret_iff {r r' : Except ε α} {w w' : M.World} :
    Eval ok i (.ret r) w r' w' ↔ r' = r ∧ w' = w := by
  constructor
  · intro h
    cases h
    exact ⟨rfl, rfl⟩
  · rintro ⟨rfl, rfl⟩
    exact .ret

theorem eval_call_iff {c : Call} {k : Res c → Prog Res ε α}
    {r : Except ε α} {w w' : M.World} :
    Eval ok i (.call c k) w r w' ↔
      ∃ ch x w₁, ok c ch ∧ M.exec i c ch w = some (x, w₁) ∧
        Eval ok i (k x) w₁ r w' := by
  constructor
  · intro h
    cases h with
    | call hok he hk => exact ⟨_, _, _, hok, he, hk⟩
  · rintro ⟨ch, x, w₁, hok, he, hk⟩
    exact .call hok he hk

theorem eval_bind_iff {p : Prog Res ε α} {f : α → Prog Res ε β}
    {r : Except ε β} {w w' : M.World} :
    Eval ok i (p >>= f) w r w' ↔
      (∃ a w₁, Eval ok i p w (.ok a) w₁ ∧ Eval ok i (f a) w₁ r w') ∨
        ∃ e, Eval ok i p w (.error e) w' ∧ r = .error e := by
  induction p generalizing w with
  | ret r₀ =>
      cases r₀ with
      | ok a => simp [eval_ret_iff, and_assoc]
      | error e => simp [eval_ret_iff, and_assoc, and_comm]
  | call c k ih =>
      simp only [Prog.call_bind, eval_call_iff, ih]
      constructor
      · rintro ⟨ch, x, w₁, hok, he, ⟨a, w₂, h₁, h₂⟩ | ⟨e, h, rfl⟩⟩
        · exact .inl ⟨a, w₂, ⟨ch, x, w₁, hok, he, h₁⟩, h₂⟩
        · exact .inr ⟨e, ⟨ch, x, w₁, hok, he, h⟩, rfl⟩
      · rintro (⟨a, w₂, ⟨ch, x, w₁, hok, he, h₁⟩, h₂⟩ |
          ⟨e, ⟨ch, x, w₁, hok, he, h⟩, rfl⟩)
        · exact ⟨ch, x, w₁, hok, he, .inl ⟨a, w₂, h₁, h₂⟩⟩
        · exact ⟨ch, x, w₁, hok, he, .inr ⟨e, h, rfl⟩⟩

theorem eval_tryCatch_iff {p : Prog Res ε α} {handler : ε → Prog Res ε α}
    {r : Except ε α} {w w' : M.World} :
    Eval ok i (tryCatch p handler) w r w' ↔
      (∃ a, Eval ok i p w (.ok a) w' ∧ r = .ok a) ∨
        ∃ e w₁, Eval ok i p w (.error e) w₁ ∧ Eval ok i (handler e) w₁ r w' := by
  induction p generalizing w with
  | ret r₀ =>
      cases r₀ with
      | ok a =>
          simp only [Prog.ok_tryCatch, eval_ret_iff, Except.ok.injEq,
            reduceCtorEq, false_and, exists_false, or_false]
          constructor
          · rintro ⟨rfl, rfl⟩
            exact ⟨a, ⟨rfl, rfl⟩, rfl⟩
          · rintro ⟨_, ⟨rfl, rfl⟩, rfl⟩
            exact ⟨rfl, rfl⟩
      | error e => simp [eval_ret_iff, and_assoc]
  | call c k ih =>
      simp only [Prog.call_tryCatch, eval_call_iff, ih]
      constructor
      · rintro ⟨ch, x, w₁, hok, he, ⟨a, h, rfl⟩ | ⟨e, w₂, h₁, h₂⟩⟩
        · exact .inl ⟨a, ⟨ch, x, w₁, hok, he, h⟩, rfl⟩
        · exact .inr ⟨e, w₂, ⟨ch, x, w₁, hok, he, h₁⟩, h₂⟩
      · rintro (⟨a, ⟨ch, x, w₁, hok, he, h⟩, rfl⟩ |
          ⟨e, w₂, ⟨ch, x, w₁, hok, he, h₁⟩, h₂⟩)
        · exact ⟨ch, x, w₁, hok, he, .inl ⟨a, h, rfl⟩⟩
        · exact ⟨ch, x, w₁, hok, he, .inr ⟨e, w₂, h₁, h₂⟩⟩

/-- A run whose result is dropped. -/
theorem Eval.void {p : Prog Res ε α} {r : Except ε α} {w w' : M.World}
    (h : Eval ok i p w r w') :
    ∃ r', Eval ok i (p >>= fun _ => (pure () : Prog Res ε Unit)) w r' w' := by
  cases r with
  | ok a => exact ⟨.ok (), eval_bind_iff.mpr (.inl ⟨a, w', h, .ret⟩)⟩
  | error e => exact ⟨.error e, eval_bind_iff.mpr (.inr ⟨e, h, rfl⟩)⟩

/-! ## After every solitary run -/

/-- However the world chooses, `p` run alone from `w` ends in `Q`. -/
def After (ok : Call → M.Choice → Prop) (i : ℕ) (p : Prog Res ε α)
    (Q : Except ε α → M.World → Prop) (w : M.World) : Prop :=
  ∀ r w', Eval ok i p w r w' → Q r w'

section After

variable {Q : Except ε α → M.World → Prop} {w : M.World}

theorem after_ret {r : Except ε α} (h : Q r w) :
    After ok i (.ret r) Q w := by
  rintro r' w' he
  obtain ⟨rfl, rfl⟩ := eval_ret_iff.mp he
  exact h

theorem after_call {c : Call} {k : Res c → Prog Res ε α}
    (h : ∀ ch x w₁, ok c ch → M.exec i c ch w = some (x, w₁) →
      After ok i (k x) Q w₁) : After ok i (.call c k) Q w := by
  rintro r w' he
  obtain ⟨ch, x, w₁, hok, hexec, he⟩ := eval_call_iff.mp he
  exact h ch x w₁ hok hexec r w' he

theorem After.mono {Q' : Except ε α → M.World → Prop} {p : Prog Res ε α}
    (hQ : ∀ r w, Q r w → Q' r w) (h : After ok i p Q w) : After ok i p Q' w :=
  fun r w' he => hQ r w' (h r w' he)

theorem after_bind {p : Prog Res ε β} {f : β → Prog Res ε α}
    (h : After ok i p (fun r w => match r with
      | .ok b => After ok i (f b) Q w
      | .error e => Q (.error e) w) w) : After ok i (p >>= f) Q w := by
  rintro r w' he
  rcases eval_bind_iff.mp he with ⟨b, w₁, hp, hf⟩ | ⟨e, hp, rfl⟩
  · exact h (.ok b) w₁ hp r w' hf
  · exact h (.error e) w' hp

theorem after_tryCatch {p : Prog Res ε α} {handler : ε → Prog Res ε α}
    (h : After ok i p (fun r w => match r with
      | .ok a => Q (.ok a) w
      | .error e => After ok i (handler e) Q w) w) :
    After ok i (tryCatch p handler) Q w := by
  rintro r w' he
  rcases eval_tryCatch_iff.mp he with ⟨a, hp, rfl⟩ | ⟨e, w₁, hp, hh⟩
  · exact h (.ok a) w' hp
  · exact h (.error e) w₁ hp r w' hh

end After

/-- Replay a solitary run from the choices the world made, as long as `lets`
allows them. -/
def evalWith (lets : Call → M.Choice → Bool) (i : ℕ) :
    List M.Choice → Prog Res ε α → M.World → Option (Except ε α × M.World)
  | _, .ret r, w => some (r, w)
  | [], .call _ _, _ => none
  | ch :: chs, .call c k, w =>
      if lets c ch then
        (M.exec i c ch w).bind fun r => evalWith lets i chs (k r.1) r.2
      else none

theorem eval_of_evalWith {lets : Call → M.Choice → Bool}
    (hlets : ∀ c ch, lets c ch = true → ok c ch) {chs : List M.Choice}
    {p : Prog Res ε α} {w w' : M.World} {r : Except ε α}
    (h : evalWith lets i chs p w = some (r, w')) : Eval ok i p w r w' := by
  induction chs generalizing p w with
  | nil =>
      cases p with
      | ret r₀ =>
          simp only [evalWith, Option.some.injEq, Prod.mk.injEq] at h
          obtain ⟨rfl, rfl⟩ := h
          exact .ret
      | call c k => simp [evalWith] at h
  | cons ch chs ih =>
      cases p with
      | ret r₀ =>
          simp only [evalWith, Option.some.injEq, Prod.mk.injEq] at h
          obtain ⟨rfl, rfl⟩ := h
          exact .ret
      | call c k =>
          simp only [evalWith] at h
          split at h
          · rename_i hl
            obtain ⟨⟨x, w₁⟩, he, hk⟩ := Option.bind_eq_some_iff.mp h
            exact .call (hlets c ch hl) he (ih hk)
          · cases h

/-- A replay shows that a run with such a result exists. -/
theorem exists_eval_of_evalWith {lets : Call → M.Choice → Bool}
    (hlets : ∀ c ch, lets c ch = true → ok c ch) {chs : List M.Choice}
    {p : Prog Res ε α} {w : M.World} {P : Except ε α → Bool}
    (h : (evalWith lets i chs p w).map (fun r => P r.1) = some true) :
    ∃ r w', Eval ok i p w r w' ∧ P r = true := by
  obtain ⟨⟨r, w'⟩, hrun, hP⟩ := Option.map_eq_some_iff.mp h
  exact ⟨r, w', eval_of_evalWith hlets hrun, hP⟩

theorem Eval.weaken {ok' : Call → M.Choice → Prop}
    (hok : ∀ c ch, ok c ch → ok' c ch) {p : Prog Res ε α} {w w' : M.World}
    {r : Except ε α} (h : Eval ok i p w r w') : Eval ok' i p w r w' := by
  induction h with
  | ret => exact .ret
  | call hch he _ ih => exact .call (hok _ _ hch) he ih

theorem After.weaken {ok' : Call → M.Choice → Prop}
    (hok : ∀ c ch, ok' c ch → ok c ch) {p : Prog Res ε α} {w : M.World}
    {Q : Except ε α → M.World → Prop} (h : After ok i p Q w) : After ok' i p Q w :=
  fun r w' he => h r w' (he.weaken hok)

/-! ## Solitary runs within a run of the system -/

section Reach

variable {pol : Policy M ε} {c₀ c : Config M ε} {w' : M.World}

/-- Session `i` moves on by itself, nobody else taking a step. -/
theorem reach_of_session
    (hpol : ∀ w s ch, ok s ch → pol.call w i s ch) {p : Prog Res ε Unit}
    {w : M.World} {r : Except ε Unit} (he : Eval ok i p w r w') :
    ∀ {c : Config M ε}, Reach pol c₀ c → c.session i = p → c.world = w →
      Reach pol c₀ ⟨w', Function.update c.session i (.ret r)⟩ := by
  induction he with
  | @ret r w =>
      intro c hc hp hw
      have hsame : c = ⟨w, Function.update c.session i (.ret r)⟩ := by
        rw [← hp, Function.update_eq_self, ← hw]
      exact hsame ▸ hc
  | @call s k ch x w w₁ w' r hok hexec _ ih =>
      intro c hc hp hw
      have hstep : Reach pol c₀ ⟨w₁, Function.update c.session i (k x)⟩ := by
        refine .step (.call i ch) hc ?_ ?_
        · simp only [Policy.allows, hp]
          exact hpol _ _ _ hok
        · simp only [Config.next?, hp, hw, hexec, Option.map_some]
      have hrest := ih hstep (by simp) rfl
      rwa [Function.update_idem] at hrest

/-- **A solitary run is a run of the system**: an idle session may be given the
program and left to finish it. -/
theorem reach_of_eval (hpol : ∀ w s ch, ok s ch → pol.call w i s ch)
    {p : Prog Res ε α} (hspawn : pol.spawn i (p >>= fun _ => pure ()))
    (hc : Reach pol c₀ c) (hidle : ∃ r, c.session i = .ret r)
    {r : Except ε α} (he : Eval ok i p c.world r w') :
    ∃ r', Reach pol c₀ ⟨w', Function.update c.session i (.ret r')⟩ := by
  obtain ⟨r₀, hr₀⟩ := hidle
  have hstart : Reach pol c₀
      ⟨c.world, Function.update c.session i (p >>= fun _ => pure ())⟩ := by
    refine .step (.spawn i _) hc hspawn ?_
    simp only [Config.next?, hr₀]
  obtain ⟨r', he'⟩ := he.void
  have hend := reach_of_session hpol he' hstart (by simp) rfl
  rw [Function.update_idem] at hend
  exact ⟨r', hend⟩

end Reach

/-- What every call keeps, a run keeps. -/
theorem Eval.preserves {R : M.World → Prop}
    (hcall : ∀ {w w' : M.World} {c : Call} {ch : M.Choice} {x : Res c},
      R w → M.exec i c ch w = some (x, w') → R w')
    {p : Prog Res ε α} {w w' : M.World} {r : Except ε α}
    (h : Eval ok i p w r w') (hw : R w) : R w' := by
  induction h with
  | ret => exact hw
  | call _ he _ ih => exact ih (hcall hw he)

/-- **Transfer**: what holds under interference holds of a solitary run. -/
theorem Wp.eval {pol : Policy M ε} {Inv : M.World → Prop}
    {Q : Except ε α → M.World → Prop} {p : Prog Res ε α}
    {w w' : M.World} {r : Except ε α} (hw : Inv w) (h : Wp pol Inv i p Q w)
    (hpol : ∀ w c ch, ok c ch → pol.call w i c ch) (he : Eval ok i p w r w') :
    Q r w' ∧ Inv w' := by
  induction he with
  | ret => exact ⟨h _ .refl hw, hw⟩
  | call hok he _ ih =>
      obtain ⟨hw', hk⟩ := h _ .refl hw _ _ _ (hpol _ _ _ hok) he
      exact ih hw' hk

/-! ## Resources -/

/-- `p` makes calls of total cost at most `n` on every path. -/
inductive Prog.Within (cost : Call → ℕ) : ℕ → Prog Res ε α → Prop where
  | ret {n : ℕ} {r : Except ε α} : Prog.Within cost n (.ret r)
  | call {n : ℕ} {c : Call} {k : Res c → Prog Res ε α} :
      (∀ x, Prog.Within cost n (k x)) → Prog.Within cost (n + cost c) (.call c k)

variable {cost : Call → ℕ}

theorem Prog.Within.free {n : ℕ} {c : Call} {k : Res c → Prog Res ε α}
    (hc : cost c = 0) (h : ∀ x, Prog.Within cost n (k x)) :
    Prog.Within cost n (.call c k) := by
  have hcall := Prog.Within.call h
  rwa [hc] at hcall

theorem Prog.Within.weaken {n : ℕ} {p : Prog Res ε α}
    (h : Prog.Within cost n p) (m : ℕ) : Prog.Within cost (n + m) p := by
  induction h with
  | ret => exact .ret
  | @call n c k _ ih =>
      have hcall := Prog.Within.call (c := c) ih
      rwa [Nat.add_right_comm] at hcall

theorem Prog.Within.bind {m n : ℕ} {p : Prog Res ε α}
    {f : α → Prog Res ε β} (hp : Prog.Within cost m p)
    (hf : ∀ a, Prog.Within cost n (f a)) :
    Prog.Within cost (m + n) (p >>= f) := by
  induction hp with
  | @ret m r =>
      cases r with
      | ok a => exact Nat.add_comm n m ▸ (hf a).weaken m
      | error e => exact .ret
  | @call m c k _ ih =>
      have hcall := Prog.Within.call (c := c) ih
      rwa [Nat.add_right_comm] at hcall

theorem Prog.Within.tryCatch {m n : ℕ} {p : Prog Res ε α}
    {handler : ε → Prog Res ε α} (hp : Prog.Within cost m p)
    (hh : ∀ e, Prog.Within cost n (handler e)) :
    Prog.Within cost (m + n) (tryCatch p handler) := by
  induction hp with
  | @ret m r =>
      cases r with
      | ok a => exact .ret
      | error e => exact Nat.add_comm n m ▸ (hh e).weaken m
  | @call m c k _ ih =>
      have hcall := Prog.Within.call (c := c) ih
      rwa [Nat.add_right_comm] at hcall

theorem Prog.Within.of_call {n : ℕ} {c : Call} {k : Res c → Prog Res ε α}
    (h : Prog.Within cost n (.call c k)) :
    ∃ m, n = m + cost c ∧ ∀ x, Prog.Within cost m (k x) := by
  cases h with
  | call hk => exact ⟨_, rfl, hk⟩

/-- What free calls keep, a run of a program that makes no other calls keeps. -/
theorem Eval.free {R : M.World → Prop}
    (hexec : ∀ {c ch x w w'}, cost c = 0 → ok c ch → R w →
      M.exec i c ch w = some (x, w') → R w')
    {n : ℕ} {p : Prog Res ε α} (hp : Prog.Within cost n p) (hn : n = 0)
    {w w' : M.World} {r : Except ε α} (he : Eval ok i p w r w') (hw : R w) :
    R w' := by
  induction he generalizing n with
  | ret => exact hw
  | call hok hexec' _ ih =>
      obtain ⟨m, rfl, hk⟩ := hp.of_call
      obtain ⟨rfl, hc⟩ := Nat.add_eq_zero_iff.mp hn
      exact ih (hk _) rfl (hexec hc hok hw hexec')

/-- What free calls keep holds of every interleaving of programs that make no
other calls. -/
theorem reach_free {pol : Policy M ε} {R : M.World → Prop}
    (hspawn : ∀ i p, pol.spawn i p → Prog.Within cost 0 p)
    (hexec : ∀ {i c ch x w w'}, cost c = 0 → R w →
      M.exec i c ch w = some (x, w') → R w')
    (hcrash : ∀ {i w}, R w → R (M.crash i w))
    (henv : ∀ {e w w'}, R w → M.env e w = some w' → R w')
    {w₀ : M.World} (hw : R w₀) {c : Config M ε}
    (hc : Reach pol (Config.idle w₀) c) : R c.world := by
  suffices h : R c.world ∧ ∀ i, Prog.Within cost 0 (c.session i) from h.1
  have hupdate : ∀ {c : Config M ε} {p : Prog Res ε Unit} (i : ℕ),
      (∀ j, Prog.Within cost 0 (c.session j)) → Prog.Within cost 0 p →
      ∀ j, Prog.Within cost 0 (Function.update c.session i p j) := by
    intro c p i hall hp j
    rw [Function.update_apply]
    split
    · exact hp
    · exact hall j
  -- a free call costs nothing and leaves a free program
  induction hc with
  | refl => exact ⟨hw, fun _ => .ret⟩
  | @step c c' l _ ha hn ih =>
      obtain ⟨hR, hall⟩ := ih
      cases l with
      | call i ch =>
          simp only [Config.next?] at hn
          have hi := hall i
          split at hn
          · cases hn
          · rename_i s k hp
            obtain ⟨⟨x, w'⟩, he, rfl⟩ := Option.map_eq_some_iff.mp hn
            rw [hp] at hi
            obtain ⟨m, hm, hk⟩ := hi.of_call
            obtain ⟨rfl, hs⟩ := Nat.add_eq_zero_iff.mp hm.symm
            exact ⟨hexec hs hR he, hupdate i hall (hk x)⟩
      | crash i =>
          cases hn
          exact ⟨hcrash hR, hupdate i hall .ret⟩
      | spawn i p =>
          simp only [Config.next?] at hn
          split at hn
          · cases hn
            exact ⟨hR, hupdate i hall (hspawn i p ha)⟩
          · cases hn
      | env e =>
          obtain ⟨w', he, rfl⟩ := Option.map_eq_some_iff.mp hn
          exact ⟨henv hR he, hall⟩

/-- **Progress**: if every call can be answered while the resource lasts, every
program within the resource runs to its end. -/
theorem exists_eval {R : ℕ → M.World → Prop}
    (hcall : ∀ n w c, R (n + cost c) w → ∃ ch x w₁, ok c ch ∧
      M.exec i c ch w = some (x, w₁) ∧ R n w₁)
    {n : ℕ} {p : Prog Res ε α} (hp : Prog.Within cost n p) {w : M.World}
    (hw : R n w) : ∃ r w', Eval ok i p w r w' := by
  induction hp generalizing w with
  | ret => exact ⟨_, _, .ret⟩
  | call _ ih =>
      obtain ⟨ch, x, w₁, hok, he, hw₁⟩ := hcall _ _ _ hw
      obtain ⟨r, w', hrest⟩ := ih x hw₁
      exact ⟨r, w', .call hok he hrest⟩

end Framework
