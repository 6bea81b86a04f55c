import AnalyticsPipeline.Framework.Solitary

/-!
# One program among others

`Amidst` follows one program of a session to its end while all other sessions
take any steps in between. So a statement can speak of what a program returns
in the middle of a run, where `Reach` only has the sessions it leaves behind.
`Passage` is the same run with the worlds it passes through.
-/

namespace Framework

variable {Call : Type} {Res : Call → Type} {ε α β : Type} {M : Machine Res}

/-- Session `i` runs `p` from `c` to its end in `c'`, the others acting in
between. What the configurations hold of session `i` itself is left alone. -/
inductive Amidst (pol : Policy M ε) (i : ℕ) :
    Prog Res ε α → Config M ε → Except ε α → Config M ε → Prop where
  | ret {r : Except ε α} {c : Config M ε} : Amidst pol i (.ret r) c r c
  | call {s : Call} {k : Res s → Prog Res ε α} {ch : M.Choice} {x : Res s}
      {w : M.World} {c c' : Config M ε} {r : Except ε α} :
      pol.call c.world i s ch → M.exec i s ch c.world = some (x, w) →
      Amidst pol i (k x) ⟨w, c.session⟩ r c' → Amidst pol i (.call s k) c r c'
  | other {p : Prog Res ε α} {l : Label M ε} {c c₁ c' : Config M ε}
      {r : Except ε α} : l.actor ≠ some i → pol.allows c l →
      c.next? l = some c₁ → Amidst pol i p c₁ r c' → Amidst pol i p c r c'

/-- The run with the worlds it passes through, from the first to the last. -/
inductive Passage (pol : Policy M ε) (i : ℕ) :
    Prog Res ε α → Config M ε → List M.World → Except ε α → Config M ε →
      Prop where
  | ret {r : Except ε α} {c : Config M ε} :
      Passage pol i (.ret r) c [c.world] r c
  | call {s : Call} {k : Res s → Prog Res ε α} {ch : M.Choice} {x : Res s}
      {w : M.World} {ws : List M.World} {c c' : Config M ε} {r : Except ε α} :
      pol.call c.world i s ch → M.exec i s ch c.world = some (x, w) →
      Passage pol i (k x) ⟨w, c.session⟩ ws r c' →
      Passage pol i (.call s k) c (c.world :: ws) r c'
  | other {p : Prog Res ε α} {l : Label M ε} {ws : List M.World}
      {c c₁ c' : Config M ε} {r : Except ε α} : l.actor ≠ some i →
      pol.allows c l → c.next? l = some c₁ → Passage pol i p c₁ ws r c' →
      Passage pol i p c (c.world :: ws) r c'

variable {pol : Policy M ε} {Inv : M.World → Prop} {Idle : ℕ → M.World → Prop}
  {i : ℕ} {c c' : Config M ε} {r : Except ε α} {p : Prog Res ε α}

/-- Every run passes through some worlds. -/
theorem amidst_iff_passage :
    Amidst pol i p c r c' ↔ ∃ ws, Passage pol i p c ws r c' := by
  constructor
  · intro h
    induction h with
    | ret => exact ⟨_, .ret⟩
    | call ha he _ ih =>
        obtain ⟨ws, hws⟩ := ih
        exact ⟨_, .call ha he hws⟩
    | other hl ha hn _ ih =>
        obtain ⟨ws, hws⟩ := ih
        exact ⟨_, .other hl ha hn hws⟩
  · rintro ⟨ws, h⟩
    induction h with
    | ret => exact .ret
    | call ha he _ ih => exact .call ha he ih
    | other hl ha hn _ ih => exact .other hl ha hn ih

/-- **Soundness**: what the rely calculus proves of a program holds when it
returns among any other sound programs. -/
theorem Wp.amidst {Q : Except ε α → M.World → Prop} (hs : Sound pol Inv Idle)
    (hrun : Amidst pol i p c r c') (hw : Inv c.world)
    (hother : ∀ j, j ≠ i →
      Wp pol Inv j (c.session j) (fun _ => Idle j) c.world)
    (h : Wp pol Inv i p Q c.world) : Q r c'.world ∧ Inv c'.world := by
  induction hrun with
  | ret => exact ⟨h _ .refl hw, hw⟩
  | @call s k ch x w c c' r ha he _ ih =>
      obtain ⟨hw', hk⟩ := h c.world .refl hw ch x w ha he
      refine ih hw' (fun j hj => ?_) hk
      exact (hother j hj).rely (.of_step hw hw' (.call (Ne.symm hj) ha he))
  | @other p l c c₁ c' r hl ha hn _ ih =>
      have hactor : ∀ j, l.actor = some j → j ≠ i := by
        rintro j hj rfl
        exact hl hj
      obtain ⟨hw', hacts, hrest⟩ :=
        hs.next hw (fun j hj => hother j (hactor j hj)) ha hn
      refine ih hw' (fun j hj => ?_) (h.rely (hrest i hl).2)
      by_cases hjl : l.actor = some j
      · exact hacts j hjl
      · obtain ⟨hsame, hrely⟩ := hrest j hjl
        rw [hsame]
        exact (hother j hj).rely hrely

/-- The others need not act. -/
theorem Eval.amidst {ok : Call → M.Choice → Prop}
    (hpol : ∀ w s ch, ok s ch → pol.call w i s ch) {w w' : M.World}
    (he : Eval ok i p w r w') : ∀ {c : Config M ε}, c.world = w →
      Amidst pol i p c r ⟨w', c.session⟩ := by
  induction he with
  | @ret r w =>
      rintro ⟨_, session⟩ rfl
      exact .ret
  | call hok hexec _ ih =>
      rintro ⟨_, session⟩ rfl
      exact .call (hpol _ _ _ hok) hexec (ih rfl)

end Framework
