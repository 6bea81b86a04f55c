import AnalyticsPipeline.Framework.Interleaving

/-!
# Runs under observation

A monitor keeps a ghost state beside a run: it watches the calls and never
influences them, but a policy may refer to what it has seen so far. So a
condition on a step can speak of earlier steps. `Watched.reach` takes such a run
back to a run of the system: what a session knows of its own observations (`T`)
turns the condition on the ghost state into one on the world.
-/

namespace Framework

variable {Call : Type} {Res : Call → Type} {ε : Type} {M : Machine Res}
  {G : Type}

/-- What a call adds to the ghost state, seen just before it is answered. -/
abbrev Monitor (M : Machine Res) (G : Type) := G → ℕ → Call → M.World → G

def Monitor.after (mon : Monitor M G) (g : G) (c : Config M ε) :
    Label M ε → G
  | .call i _ =>
      match c.session i with
      | .ret _ => g
      | .call s _ => mon g i s c.world
  | _ => g

/-- The runs from `c₀` and `g₀` whose steps all meet the policy for what has
been observed before them. -/
inductive Watched (mon : Monitor M G) (pol : G → Policy M ε) (c₀ : Config M ε)
    (g₀ : G) : Config M ε → G → Prop where
  | refl : Watched mon pol c₀ g₀ c₀ g₀
  | step {c c' : Config M ε} {g : G} (l : Label M ε) :
      Watched mon pol c₀ g₀ c g → (pol g).allows c l → c.next? l = some c' →
      Watched mon pol c₀ g₀ c' (mon.after g c l)

/-- What the programs of a policy know of the observations of their session:
every call keeps it, no other session's call matters, and it shows that the
call meets `pol'`. -/
structure Knows (mon : Monitor M G) (pol : G → Policy M ε) (pol' : Policy M ε)
    (T : ℕ → G → Prog Res ε Unit → Prop) : Prop where
  ret : ∀ {i g r}, T i g (.ret r)
  spawn : ∀ {g i p}, (pol g).spawn i p → T i g p ∧ pol'.spawn i p
  crash : ∀ {g w i}, (pol g).crash w i → pol'.crash w i
  env : ∀ {g w e}, (pol g).env w e → pol'.env w e
  call : ∀ {g i c k w ch x w'}, T i g (.call c k) → (pol g).call w i c ch →
    M.exec i c ch w = some (x, w') →
    pol'.call w i c ch ∧ T i (mon g i c w) (k x)
  other : ∀ {g i j c w p}, i ≠ j → T i g p → T i (mon g j c w) p

section Watched

variable {mon : Monitor M G} {pol : G → Policy M ε} {pol' : Policy M ε}
  {T : ℕ → G → Prog Res ε Unit → Prop} {c₀ c : Config M ε} {g₀ g : G}

theorem Watched.reach (hk : Knows mon pol pol' T)
    (h₀ : ∀ i, T i g₀ (c₀.session i)) (h : Watched mon pol c₀ g₀ c g) :
    Reach pol' c₀ c ∧ ∀ i, T i g (c.session i) := by
  have hupdate : ∀ {c : Config M ε} {g : G} {p : Prog Res ε Unit} (i : ℕ),
      (∀ j, j ≠ i → T j g (c.session j)) → T i g p →
      ∀ j, T j g (Function.update c.session i p j) := by
    intro c g p i hall hp j
    by_cases hj : j = i
    · subst hj
      rwa [Function.update_self]
    · rw [Function.update_of_ne hj]
      exact hall j hj
  -- over the run; each label moves at most one session
  induction h with
  | refl => exact ⟨.refl, h₀⟩
  | @step c c' g l _ ha hn ih =>
      obtain ⟨hreach, hall⟩ := ih
      cases l with
      | call i ch =>
          simp only [Config.next?] at hn
          cases hp : c.session i with
          | ret r => simp [hp] at hn
          | call s k =>
              have hknown : T i g (.call s k) := hp ▸ hall i
              simp only [Policy.allows, hp] at ha
              simp only [hp] at hn
              obtain ⟨⟨x, w'⟩, he, rfl⟩ := Option.map_eq_some_iff.mp hn
              obtain ⟨hpol, hnext⟩ := hk.call hknown ha he
              refine ⟨.step (.call i ch) hreach ?_ ?_, ?_⟩
              · simpa only [Policy.allows, hp] using hpol
              · simp only [Config.next?, hp, he, Option.map_some]
              · simp only [Monitor.after, hp]
                exact hupdate i (fun j hj => hk.other hj (hall j)) hnext
      | crash i =>
          have hn' := hn
          cases hn
          exact ⟨.step (.crash i) hreach (hk.crash ha) hn',
            hupdate i (fun j _ => hall j) hk.ret⟩
      | spawn i p =>
          have hn' := hn
          obtain ⟨hknown, hpol⟩ := hk.spawn ha
          simp only [Config.next?] at hn
          split at hn
          · cases hn
            exact ⟨.step (.spawn i p) hreach hpol hn',
              hupdate i (fun j _ => hall j) hknown⟩
          · cases hn
      | env e =>
          have hn' := hn
          obtain ⟨w', _, rfl⟩ := Option.map_eq_some_iff.mp hn
          exact ⟨.step (.env e) hreach (hk.env ha) hn', hall⟩

end Watched

/-! ## Replay -/

/-- Replay a list of labels, observing the calls. -/
def watch? (mon : Monitor M G) (ok : G → M.World → ℕ → Call → M.Choice → Bool)
    (c : Config M ε) (g : G) : List (Label M ε) → Option (Config M ε × G)
  | [] => some (c, g)
  | l :: ls =>
      if c.lets (ok g) l then
        (c.next? l).bind fun c' => watch? mon ok c' (mon.after g c l) ls
      else none

theorem Watched.trans {mon : Monitor M G} {pol : G → Policy M ε}
    {c₀ c₁ c₂ : Config M ε} {g₀ g₁ g₂ : G}
    (h₁ : Watched mon pol c₀ g₀ c₁ g₁) (h₂ : Watched mon pol c₁ g₁ c₂ g₂) :
    Watched mon pol c₀ g₀ c₂ g₂ := by
  induction h₂ with
  | refl => exact h₁
  | step l _ ha hn ih => exact .step l ih ha hn

theorem watched_of_watch? {mon : Monitor M G} {pol : G → Policy M ε}
    {ok : G → M.World → ℕ → Call → M.Choice → Bool}
    (hok : ∀ g w i s ch, ok g w i s ch = true → (pol g).call w i s ch) :
    ∀ {ls : List (Label M ε)} {c c' : Config M ε} {g g' : G},
      (∀ g, ∀ l ∈ ls, (pol g).admits l) →
      watch? mon ok c g ls = some (c', g') → Watched mon pol c g c' g'
  | [], c, c', g, g', _, h => by
      simp only [watch?, Option.some.injEq, Prod.mk.injEq] at h
      obtain ⟨rfl, rfl⟩ := h
      exact .refl
  | l :: ls, c, c', g, g', hls, h => by
      simp only [watch?] at h
      split at h
      · rename_i hlets
        obtain ⟨c₁, h₁, h₂⟩ := Option.bind_eq_some_iff.mp h
        have hl := Policy.allows_of_admits (hok g) (hls g l List.mem_cons_self)
          hlets
        exact (Watched.step l .refl hl h₁).trans (watched_of_watch? hok
          (fun g l' hl' => hls g l' (.tail l hl')) h₂)
      · cases h

end Framework
