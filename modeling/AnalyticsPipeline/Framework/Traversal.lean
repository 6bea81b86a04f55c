import Mathlib.Data.List.Forall2

/-!
# Fallible traversals

`mapM` in `Except`: all elements succeed, one by one, or the whole fails.
-/

namespace Framework

universe v

variable {α β γ ε : Type*} {f : α → Except ε β}

theorem exists_of_map_ok {x : Except ε α} {g : α → β} {b : β}
    (h : x.map g = .ok b) : ∃ a, x = .ok a ∧ g a = b := by
  cases x with
  | error e => cases h
  | ok a => exact ⟨a, rfl, Except.ok.inj h⟩

theorem mapM_eq_ok_iff : ∀ {l : List α} {r : List β},
    l.mapM f = .ok r ↔ List.Forall₂ (fun a b => f a = .ok b) l r
  | [], r => by
      rw [List.mapM_nil, List.forall₂_nil_left_iff]
      exact ⟨fun h => (Except.ok.inj h).symm, fun h => h ▸ rfl⟩
  | a :: l, r => by
      rw [List.mapM_cons, List.forall₂_cons_left_iff]
      cases ha : f a with
      | error e => simp [bind, Except.bind]
      | ok b =>
          cases hl : l.mapM f with
          | error e =>
              have hno : ∀ r', ¬ List.Forall₂ (fun a b => f a = .ok b) l r' :=
                fun r' h => by simp [mapM_eq_ok_iff.mpr h] at hl
              simp [bind, Except.bind, hno]
          | ok bs =>
              have hbs : ∀ r', List.Forall₂ (fun a b => f a = .ok b) l r' ↔
                  bs = r' := fun r' => by
                rw [← mapM_eq_ok_iff, hl, Except.ok.injEq]
              simp [bind, Except.bind, pure, Except.pure, hbs, eq_comm]

theorem exists_mapM_ok {l : List α} (h : ∀ a ∈ l, ∃ b, f a = .ok b) :
    ∃ r, l.mapM f = .ok r := by
  induction l with
  | nil => exact ⟨[], rfl⟩
  | cons a l ih =>
      obtain ⟨b, hb⟩ := h a List.mem_cons_self
      obtain ⟨r, hr⟩ := ih fun a' ha' => h a' (List.mem_cons_of_mem a ha')
      exact ⟨b :: r, mapM_eq_ok_iff.mpr (.cons hb (mapM_eq_ok_iff.mp hr))⟩

theorem ok_of_mapM_ok {l : List α} {r : List β} (h : l.mapM f = .ok r) {a : α}
    (ha : a ∈ l) : ∃ b ∈ r, f a = .ok b := by
  have hall := mapM_eq_ok_iff.mp h
  clear h
  induction hall with
  | nil => cases ha
  | @cons a' b' l r hab _ ih =>
      rcases List.mem_cons.mp ha with rfl | ha
      · exact ⟨b', List.mem_cons_self, hab⟩
      · obtain ⟨b, hb, hab⟩ := ih ha
        exact ⟨b, List.mem_cons_of_mem b' hb, hab⟩

/-- What every success of the function is, every element of the result is. -/
theorem forall_of_mapM_ok {q : β → Prop} (hq : ∀ {a b}, f a = .ok b → q b)
    {l : List α} {r : List β} (h : l.mapM f = .ok r) : ∀ b ∈ r, q b := by
  have hall := mapM_eq_ok_iff.mp h
  clear h
  induction hall with
  | nil => exact List.forall_mem_nil q
  | cons hab _ ih => exact List.forall_mem_cons.mpr ⟨hq hab, ih⟩

theorem bind_eq_error_iff {α β : Type v} {x : Except ε α}
    {g : α → Except ε β} {e : ε} :
    (x >>= g) = .error e ↔ x = .error e ∨ ∃ a, x = .ok a ∧ g a = .error e := by
  cases x with
  | error e' => simp [bind, Except.bind]
  | ok a => simp [bind, Except.bind]

/-- The error of a traversal is that of an element. -/
theorem exists_of_mapM_error {e : ε} : ∀ {l : List α}, l.mapM f = .error e →
    ∃ a ∈ l, f a = .error e
  | [], h => by
      rw [List.mapM_nil] at h
      cases h
  | a :: l, h => by
      rw [List.mapM_cons, bind_eq_error_iff] at h
      rcases h with ha | ⟨b, -, h⟩
      · exact ⟨a, List.mem_cons_self, ha⟩
      · rcases bind_eq_error_iff.mp h with hl | ⟨bs, -, h⟩
        · obtain ⟨a', ha', he⟩ := exists_of_mapM_error hl
          exact ⟨a', List.mem_cons_of_mem a ha', he⟩
        · cases h

/-- An optional value is traversed when its value, if any, succeeds. -/
theorem option_mapM_isOk_iff {x : Option α} :
    (∃ y, x.mapM f = .ok y) ↔ ∀ a, x = some a → ∃ b, f a = .ok b := by
  cases x with
  | none => exact ⟨fun _ a ha => (Option.some_ne_none a ha.symm).elim,
      fun _ => ⟨none, rfl⟩⟩
  | some a =>
      rw [Option.mapM_some]
      constructor
      · rintro ⟨y, hy⟩ a' ha
        obtain rfl := Option.some.inj ha
        obtain ⟨b, hb, -⟩ := exists_of_map_ok hy
        exact ⟨b, hb⟩
      · intro h
        obtain ⟨b, hb⟩ := h a rfl
        rw [hb]
        exact ⟨some b, rfl⟩

/-- The error of an optional value is that of its value. -/
theorem exists_of_option_mapM_error {x : Option α} {e : ε}
    (h : x.mapM f = .error e) : ∃ a, x = some a ∧ f a = .error e := by
  cases x with
  | none => cases h
  | some a =>
      refine ⟨a, rfl, ?_⟩
      rw [Option.mapM_some] at h
      cases ha : f a with
      | error e' =>
          rw [ha] at h
          cases h
          rfl
      | ok b =>
          rw [ha] at h
          cases h

/-- What the traversal keeps of each element, it keeps of the list. -/
theorem map_eq_of_mapM_ok {p : α → γ} {q : β → γ}
    (hpq : ∀ {a b}, f a = .ok b → q b = p a) {l : List α} {r : List β}
    (h : l.mapM f = .ok r) : r.map q = l.map p := by
  have hall := mapM_eq_ok_iff.mp h
  clear h
  induction hall with
  | nil => rfl
  | cons hab _ ih => rw [List.map_cons, List.map_cons, hpq hab, ih]

end Framework
