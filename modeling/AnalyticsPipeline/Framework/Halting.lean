import AnalyticsPipeline.Framework.Solitary

/-!
# Runs that stop

A session may be stopped between any two calls. `Halts` is a solitary run up to
such a point, or to its end, together with the calls it has made.
-/

namespace Framework

variable {Call : Type} {Res : Call → Type} {ε α β : Type} {M : Machine Res}

/-- Session `i` runs `p` alone from `w`, makes the calls `made` and stops in
`w'`: with a result at the end of `p`, with none before it. -/
inductive Halts (ok : Call → M.Choice → Prop) (i : ℕ) :
    Prog Res ε α → M.World → List (Call × M.Choice) → Option (Except ε α) →
      M.World → Prop where
  | stop {p : Prog Res ε α} {w : M.World} : Halts ok i p w [] none w
  | ret {r : Except ε α} {w : M.World} : Halts ok i (.ret r) w [] (some r) w
  | call {c : Call} {k : Res c → Prog Res ε α} {ch : M.Choice} {x : Res c}
      {w w₁ w' : M.World} {made : List (Call × M.Choice)}
      {r : Option (Except ε α)} :
      ok c ch → M.exec i c ch w = some (x, w₁) → Halts ok i (k x) w₁ made r w' →
      Halts ok i (.call c k) w ((c, ch) :: made) r w'

variable {ok : Call → M.Choice → Prop} {i : ℕ}

/-- A run to the end is one of them. -/
theorem Eval.halts {p : Prog Res ε α} {r : Except ε α} {w w' : M.World}
    (h : Eval ok i p w r w') : ∃ made, Halts ok i p w made (some r) w' := by
  induction h with
  | ret => exact ⟨[], .ret⟩
  | call hok hexec _ ih =>
      obtain ⟨made, h⟩ := ih
      exact ⟨_, .call hok hexec h⟩

/-- Wherever `p`, run alone from `w`, is stopped, `Q` holds of its calls, its
result and the world. -/
def Throughout (ok : Call → M.Choice → Prop) (i : ℕ) (p : Prog Res ε α)
    (Q : List (Call × M.Choice) → Option (Except ε α) → M.World → Prop)
    (w : M.World) : Prop :=
  ∀ made r w', Halts ok i p w made r w' → Q made r w'

section Throughout

variable {Q : List (Call × M.Choice) → Option (Except ε α) → M.World → Prop}
  {w : M.World}

theorem throughout_ret {r : Except ε α} (hstop : Q [] none w)
    (hret : Q [] (some r) w) : Throughout ok i (.ret r) Q w := by
  intro made x w' h
  cases h with
  | stop => exact hstop
  | ret => exact hret

theorem throughout_call {c : Call} {k : Res c → Prog Res ε α}
    (hstop : Q [] none w)
    (h : ∀ ch x w₁, ok c ch → M.exec i c ch w = some (x, w₁) →
      Throughout ok i (k x) (fun made => Q ((c, ch) :: made)) w₁) :
    Throughout ok i (.call c k) Q w := by
  intro made r w' hrun
  cases hrun with
  | stop => exact hstop
  | call hok hexec hrest => exact h _ _ _ hok hexec _ _ _ hrest

theorem Throughout.mono
    {Q' : List (Call × M.Choice) → Option (Except ε α) → M.World → Prop}
    {p : Prog Res ε α} (hQ : ∀ made r w, Q made r w → Q' made r w)
    (h : Throughout ok i p Q w) : Throughout ok i p Q' w :=
  fun made r w' hrun => hQ made r w' (h made r w' hrun)

/-- A run of two programs is stopped in the first or in the second. -/
theorem halts_bind {p : Prog Res ε β} {f : β → Prog Res ε α} {w w' : M.World}
    {made : List (Call × M.Choice)} {r : Option (Except ε α)}
    (h : Halts ok i (p >>= f) w made r w') :
    (∃ x, Halts ok i p w made x w' ∧ (x = none ∧ r = none ∨
        ∃ e, x = some (.error e) ∧ r = some (.error e))) ∨
      ∃ b w₁ m m', made = m ++ m' ∧ Halts ok i p w m (some (.ok b)) w₁ ∧
        Halts ok i (f b) w₁ m' r w' := by
  induction p generalizing w made with
  | ret x =>
      cases x with
      | ok b => exact .inr ⟨b, w, [], made, rfl, .ret, h⟩
      | error e =>
          cases h with
          | stop => exact .inl ⟨none, .stop, .inl ⟨rfl, rfl⟩⟩
          | ret => exact .inl ⟨_, .ret, .inr ⟨e, rfl, rfl⟩⟩
  | call c k ih =>
      cases h with
      | stop => exact .inl ⟨none, .stop, .inl ⟨rfl, rfl⟩⟩
      | call hok hexec hrest =>
          rcases ih _ hrest with ⟨x, hx, hr⟩ | ⟨b, w₁, m, m', rfl, hp, hf⟩
          · exact .inl ⟨x, .call hok hexec hx, hr⟩
          · exact .inr ⟨b, w₁, _, m', rfl, .call hok hexec hp, hf⟩

theorem throughout_bind {p : Prog Res ε β} {f : β → Prog Res ε α}
    (h : Throughout ok i p (fun made x w => match x with
      | none => Q made none w
      | some (.ok b) => Throughout ok i (f b) (fun m => Q (made ++ m)) w
      | some (.error e) => Q made (some (.error e)) w) w) :
    Throughout ok i (p >>= f) Q w := by
  intro made r w' hrun
  rcases halts_bind hrun with ⟨x, hx, hr⟩ | ⟨b, w₁, m, m', rfl, hp, hf⟩
  · have hQ := h made x w' hx
    rcases hr with ⟨rfl, rfl⟩ | ⟨e, rfl, rfl⟩
    · exact hQ
    · exact hQ
  · exact h m (some (.ok b)) w₁ hp m' r w' hf

/-- Errors that are dropped. -/
theorem throughout_tryCatch_pure {p : Prog Res ε α} {a : α}
    (h : Throughout ok i p (fun made x w => match x with
      | none => Q made none w
      | some (.ok b) => Q made none w ∧ Q made (some (.ok b)) w
      | some (.error _) => Q made none w ∧ Q made (some (.ok a)) w) w) :
    Throughout ok i (tryCatch p fun _ => pure a) Q w := by
  induction p generalizing w Q with
  | ret x =>
      cases x with
      | ok b =>
          have hQ := h [] _ w .ret
          exact throughout_ret hQ.1 hQ.2
      | error e =>
          have hQ := h [] _ w .ret
          exact throughout_ret hQ.1 hQ.2
  | call c k ih =>
      refine throughout_call (h [] none w .stop) fun ch x w₁ hok hexec => ?_
      exact ih x fun made r w' hrun => h _ _ _ (.call hok hexec hrun)

end Throughout

/-- What single calls add up to. -/
theorem Halts.rel {R : List (Call × M.Choice) → M.World → M.World → Prop}
    (hnil : ∀ w, R [] w w)
    (hcall : ∀ {c : Call} {ch : M.Choice} {x : Res c} {w w₁ w' : M.World}
      {made : List (Call × M.Choice)}, M.exec i c ch w = some (x, w₁) →
      R made w₁ w' → R ((c, ch) :: made) w w')
    {p : Prog Res ε α} {w w' : M.World} {made : List (Call × M.Choice)}
    {r : Option (Except ε α)} (h : Halts ok i p w made r w') : R made w w' := by
  induction h with
  | stop => exact hnil _
  | ret => exact hnil _
  | call _ hexec _ ih => exact hcall hexec ih

/-- What free calls keep holds wherever a run of a program that makes no other
calls is stopped. -/
theorem Halts.free {cost : Call → ℕ} {R : M.World → Prop}
    (hexec : ∀ {c : Call} {ch : M.Choice} {x : Res c} {w w' : M.World},
      cost c = 0 → R w → M.exec i c ch w = some (x, w') → R w')
    {n : ℕ} {p : Prog Res ε α} (hp : Prog.Within cost n p) (hn : n = 0)
    {w w' : M.World} {made : List (Call × M.Choice)} {r : Option (Except ε α)}
    (h : Halts ok i p w made r w') (hw : R w) : R w' := by
  induction h generalizing n with
  | stop => exact hw
  | ret => exact hw
  | call _ hcall _ ih =>
      obtain ⟨m, rfl, hk⟩ := hp.of_call
      obtain ⟨rfl, hc⟩ := Nat.add_eq_zero_iff.mp hn
      exact ih (hk _) rfl (hexec hc hw hcall)

end Framework
