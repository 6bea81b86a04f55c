import Mathlib.Data.List.Count
import Mathlib.Data.Nat.Notation

/-!
# Runs of a state machine

A machine moves from event to event; `none` is an event that cannot happen in
the state. What every step keeps, a run keeps, and a step that uses something up
happens only as often as there is something left.
-/

namespace Framework

variable {σ ε : Type}

/-- The events of a run one after another. -/
def run? (next? : σ → ε → Option σ) : σ → List ε → Option σ
  | s, [] => some s
  | s, e :: es => (next? s e).bind fun s' => run? next? s' es

variable {next? : σ → ε → Option σ} {s s' : σ}

@[simp] theorem run?_nil : run? next? s [] = some s := rfl

theorem run?_cons {e : ε} {es : List ε} :
    run? next? s (e :: es) = some s' ↔
      ∃ s₁, next? s e = some s₁ ∧ run? next? s₁ es = some s' :=
  Option.bind_eq_some_iff

theorem run?_append {es es' : List ε} :
    run? next? s (es ++ es') = some s' ↔
      ∃ s₁, run? next? s es = some s₁ ∧ run? next? s₁ es' = some s' := by
  induction es generalizing s with
  | nil => simp
  | cons e es ih =>
      rw [List.cons_append, run?_cons]
      simp only [ih, run?_cons]
      constructor
      · rintro ⟨s₁, he, s₂, h₁, h₂⟩
        exact ⟨s₂, ⟨s₁, he, h₁⟩, h₂⟩
      · rintro ⟨s₂, ⟨s₁, he, h₁⟩, h₂⟩
        exact ⟨s₁, he, s₂, h₁, h₂⟩

/-- What every step keeps holds at the end of every run. -/
theorem run?_preserves {P : σ → Prop}
    (hstep : ∀ {s e s'}, P s → next? s e = some s' → P s') {es : List ε}
    (hs : P s) (h : run? next? s es = some s') : P s' := by
  induction es generalizing s with
  | nil =>
      cases h
      exact hs
  | cons e es ih =>
      obtain ⟨s₁, he, hrest⟩ := run?_cons.mp h
      exact ih (hstep hs he) hrest

/-- Steps that use something up come only as often as it lasts. -/
theorem run?_bounded {P : σ → Prop} (left : σ → ℕ) (uses : ε → Bool)
    (hstep : ∀ {s e s'}, P s → next? s e = some s' →
      P s' ∧ left s' + (if uses e then 1 else 0) ≤ left s) {es : List ε}
    (hs : P s) (h : run? next? s es = some s') :
    P s' ∧ left s' + es.countP uses ≤ left s := by
  induction es generalizing s with
  | nil =>
      cases h
      exact ⟨hs, Nat.le_refl _⟩
  | cons e es ih =>
      obtain ⟨s₁, he, hrest⟩ := run?_cons.mp h
      obtain ⟨hs₁, hle⟩ := hstep hs he
      obtain ⟨hs', hle'⟩ := ih hs₁ hrest
      refine ⟨hs', ?_⟩
      rw [List.countP_cons]
      omega

/-! ## Guards -/

section Guards

variable {ok : σ → ε → Prop} [∀ s e, Decidable (ok s e)]

/-- Only the events that the guard lets pass. -/
def guarded? (ok : σ → ε → Prop) [∀ s e, Decidable (ok s e)]
    (next? : σ → ε → Option σ) (s : σ) (e : ε) : Option σ :=
  if ok s e then next? s e else none

theorem guarded?_eq_some {e : ε} :
    guarded? ok next? s e = some s' ↔ ok s e ∧ next? s e = some s' := by
  rw [guarded?]
  split
  · rename_i hok
    exact (and_iff_right hok).symm
  · rename_i hok
    exact iff_of_false (fun h => by cases h) fun h => hok h.1

end Guards

end Framework
