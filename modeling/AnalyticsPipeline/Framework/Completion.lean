import AnalyticsPipeline.Framework.Solitary
import Mathlib.Algebra.Order.BigOperators.Group.Finset

/-!
# Completion

What becomes of the sessions when nothing new is started: they make calls, in
any order. If each call uses up some of a bounded resource and an unfinished
session can always move, every such run is finite and ends with all sessions
finished.
-/

namespace Framework

variable {Call : Type} {Res : Call → Type} {ε α : Type} {M : Machine Res}

/-- A run of calls by the sessions of the list, in its order. -/
inductive Calls (pol : Policy M ε) (c : Config M ε) :
    List ℕ → Config M ε → Prop where
  | refl : Calls pol c [] c
  | step {callers : List ℕ} {c' c'' : Config M ε} (i : ℕ) (ch : M.Choice) :
      Calls pol c callers c' → pol.allows c' (.call i ch) →
      c'.next? (.call i ch) = some c'' → Calls pol c (callers ++ [i]) c''

/-- Every session has returned. -/
def Config.Done (c : Config M ε) : Prop := ∀ i, ∃ r, c.session i = .ret r

/-- Some session can make its next call. -/
def Config.Moves (pol : Policy M ε) (c : Config M ε) : Prop :=
  ∃ i ch c', pol.allows c (.call i ch) ∧ c.next? (.call i ch) = some c'

section Calls

variable {pol : Policy M ε} {c c' c'' : Config M ε}

theorem Calls.reach {callers : List ℕ} (h : Calls pol c callers c') :
    Reach pol c c' := by
  induction h with
  | refl => exact .refl
  | step i ch _ ha hn ih => exact .step (.call i ch) ih ha hn

theorem Calls.cons {callers : List ℕ} {i : ℕ} {ch : M.Choice}
    (ha : pol.allows c (.call i ch)) (hn : c.next? (.call i ch) = some c')
    (h : Calls pol c' callers c'') : Calls pol c (i :: callers) c'' := by
  induction h with
  | refl => exact .step i ch .refl ha hn
  | step j ch' _ ha' hn' ih => exact .step j ch' ih ha' hn'

/-! ### A resource -/

variable {R : ℕ → Config M ε → Prop}

/-- A run of calls uses up as much as it has calls. -/
theorem Calls.spends
    (hstep : ∀ {n c c' i ch}, R n c → pol.allows c (.call i ch) →
      c.next? (.call i ch) = some c' → ∃ m, n = m + 1 ∧ R m c')
    {n : ℕ} {callers : List ℕ} (hR : R n c) (h : Calls pol c callers c') :
    ∃ k, n = callers.length + k ∧ R k c' := by
  induction h with
  | refl => exact ⟨n, (Nat.zero_add n).symm, hR⟩
  | step i ch _ ha hn ih =>
      obtain ⟨k, rfl, hk⟩ := ih
      obtain ⟨l, rfl, hl⟩ := hstep hk ha hn
      refine ⟨l, ?_, hl⟩
      rw [List.length_append, List.length_singleton]
      omega

/-- **Completion**: whoever moves, all sessions can finish. -/
theorem exists_done
    (hstep : ∀ {n c c' i ch}, R n c → pol.allows c (.call i ch) →
      c.next? (.call i ch) = some c' → ∃ m, n = m + 1 ∧ R m c')
    (hmove : ∀ {n c}, R n c → c.Done ∨ c.Moves pol) {n : ℕ} (hR : R n c) :
    ∃ callers c', Calls pol c callers c' ∧ c'.Done := by
  induction n generalizing c with
  | zero =>
      rcases hmove hR with hdone | ⟨i, ch, c', ha, hn⟩
      · exact ⟨[], c, .refl, hdone⟩
      · obtain ⟨m, hm, -⟩ := hstep hR ha hn
        omega
  | succ n ih =>
      rcases hmove hR with hdone | ⟨i, ch, c', ha, hn⟩
      · exact ⟨[], c, .refl, hdone⟩
      · obtain ⟨m, hm, hR'⟩ := hstep hR ha hn
        obtain rfl : n = m := by omega
        obtain ⟨callers, c'', h, hdone⟩ := ih hR'
        exact ⟨i :: callers, c'', h.cons ha hn, hdone⟩

/-! ### The calls that are left -/

theorem Prog.Within.le {cost : Call → ℕ} {m n : ℕ} {p : Prog Res ε α}
    (h : Prog.Within cost m p) (hmn : m ≤ n) : Prog.Within cost n p :=
  Nat.add_sub_cancel' hmn ▸ h.weaken (n - m)

/-- **Whoever moves**, a session makes no more calls than its program has. -/
theorem Calls.count {callers : List ℕ} (h : Calls pol c callers c') {n i : ℕ}
    (hi : Prog.Within (fun _ => 1) n (c.session i)) :
    ∃ m, n = callers.count i + m ∧
      Prog.Within (fun _ => 1) m (c'.session i) := by
  induction h with
  | refl => exact ⟨n, by simp, hi⟩
  | @step callers c' c'' j ch _ ha hn ih =>
      obtain ⟨m, rfl, hm⟩ := ih
      simp only [Config.next?] at hn
      split at hn
      · cases hn
      · rename_i d k hp
        obtain ⟨⟨x, w'⟩, -, rfl⟩ := Option.map_eq_some_iff.mp hn
        rw [List.count_append]
        by_cases hj : i = j
        · subst hj
          rw [hp] at hm
          obtain ⟨m', rfl, hk⟩ := hm.of_call
          simp only [Function.update_self]
          refine ⟨m', ?_, hk x⟩
          rw [List.count_singleton_self]
          omega
        · simp only [Function.update_of_ne hj]
          refine ⟨m, ?_, hm⟩
          rw [List.count_singleton, if_neg fun heq => hj (eq_of_beq heq).symm]
          rfl

/-- Only sessions of `s` are unfinished, and session `i` has at most `fuel i`
calls to make. -/
structure Config.Fuelled (c : Config M ε) (s : Finset ℕ) (fuel : ℕ → ℕ) : Prop where
  rest : ∀ i, i ∉ s → ∃ r, c.session i = .ret r
  within : ∀ i, Prog.Within (fun _ => 1) (fuel i) (c.session i)

/-- An unfinished session has a unit left. -/
theorem Config.Fuelled.pos {s : Finset ℕ} {fuel : ℕ → ℕ} {i : ℕ} {d : Call}
    {k : Res d → Prog Res ε Unit} (h : c.Fuelled s fuel)
    (hp : c.session i = .call d k) : 0 < ∑ j ∈ s, fuel j := by
  have hmem : i ∈ s := by
    by_contra hnot
    obtain ⟨r, hr⟩ := h.rest i hnot
    rw [hp] at hr
    cases hr
  have hi := h.within i
  rw [hp] at hi
  obtain ⟨m, hm, -⟩ := hi.of_call
  calc 0 < fuel i := by omega
    _ ≤ ∑ j ∈ s, fuel j := Finset.single_le_sum (fun _ _ => Nat.zero_le _) hmem

/-- **One call** uses one unit of its session. -/
theorem Config.Fuelled.next {s : Finset ℕ} {fuel : ℕ → ℕ} {i : ℕ} {ch : M.Choice}
    (h : c.Fuelled s fuel) (hn : c.next? (.call i ch) = some c') :
    ∃ fuel', c'.Fuelled s fuel' ∧
      ∑ j ∈ s, fuel j = (∑ j ∈ s, fuel' j) + 1 := by
  simp only [Config.next?] at hn
  split at hn
  · cases hn
  · rename_i s' k hp
    obtain ⟨⟨x, w'⟩, -, rfl⟩ := Option.map_eq_some_iff.mp hn
    have hi := h.within i
    rw [hp] at hi
    obtain ⟨m, hm, hk⟩ := hi.of_call
    have hmem : i ∈ s := by
      by_contra hnot
      obtain ⟨r, hr⟩ := h.rest i hnot
      rw [hp] at hr
      cases hr
    refine ⟨Function.update fuel i m, ⟨fun j hj => ?_, fun j => ?_⟩, ?_⟩
    · have hne : j ≠ i := fun heq => hj (heq ▸ hmem)
      dsimp only
      rw [Function.update_of_ne hne]
      exact h.rest j hj
    · by_cases hj : j = i
      · subst hj
        simp only [Function.update_self]
        exact hk x
      · simp only [Function.update_of_ne hj]
        exact h.within j
    · rw [← Finset.add_sum_erase s fuel hmem,
        ← Finset.add_sum_erase s (Function.update fuel i m) hmem,
        Function.update_self, hm]
      have hsame : ∑ j ∈ s.erase i, Function.update fuel i m j =
          ∑ j ∈ s.erase i, fuel j :=
        Finset.sum_congr rfl fun j hj =>
          Function.update_of_ne (Finset.ne_of_mem_erase hj) _ _
      rw [hsame]
      omega

/-- In every run, each session has no more calls to make than a whole program of
the policy. -/
theorem Reach.within {cost : Call → ℕ} {b : ℕ}
    (hspawn : ∀ i p, pol.spawn i p → Prog.Within cost b p) {w : M.World}
    (hc : Reach pol (Config.idle w) c) (i : ℕ) :
    Prog.Within cost b (c.session i) := by
  have hupdate : ∀ {c : Config M ε} {p : Prog Res ε Unit} (i : ℕ),
      (∀ j, Prog.Within cost b (c.session j)) → Prog.Within cost b p →
      ∀ j, Prog.Within cost b (Function.update c.session i p j) := by
    intro c p i hall hp j
    rw [Function.update_apply]
    split
    · exact hp
    · exact hall j
  revert i
  induction hc with
  | refl => exact fun _ => .ret
  | @step c c' l _ ha hn ih =>
      cases l with
      | call i ch =>
          simp only [Config.next?] at hn
          have hi := ih i
          split at hn
          · cases hn
          · rename_i s k hp
            obtain ⟨⟨x, w'⟩, -, rfl⟩ := Option.map_eq_some_iff.mp hn
            rw [hp] at hi
            obtain ⟨m, rfl, hk⟩ := hi.of_call
            exact hupdate i ih ((hk x).weaken _)
      | crash i =>
          cases hn
          exact hupdate i ih .ret
      | spawn i p =>
          simp only [Config.next?] at hn
          split at hn
          · cases hn
            exact hupdate i ih (hspawn i p ha)
          · cases hn
      | env e =>
          obtain ⟨w', -, rfl⟩ := Option.map_eq_some_iff.mp hn
          exact ih

end Calls

end Framework
