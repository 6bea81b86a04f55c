import Mathlib.Algebra.BigOperators.Group.List.Basic
import Mathlib.Algebra.Order.Group.Int
import Mathlib.Order.Lattice

/-!
# Additive summaries

The summary of a finite collection of values: how many, their sum, the least
and the greatest. Summaries form a commutative monoid (the least and greatest
of nothing are absent, as SQL's `NULL` under `LEAST` and `GREATEST`), and
summarizing is a homomorphism from collections, so a collection may be
summarized in any order and in any split.
-/

namespace Framework

structure Summary (α : Type*) where
  count : ℤ
  sum : α
  min : Option α
  max : Option α
deriving DecidableEq

namespace Summary

variable {α : Type*} [AddCommMonoid α] [LinearOrder α]

instance : Zero (Summary α) := ⟨⟨0, 0, none, none⟩⟩

instance : Add (Summary α) :=
  ⟨fun s t => ⟨s.count + t.count, s.sum + t.sum,
    s.min.merge Min.min t.min, s.max.merge Max.max t.max⟩⟩

omit [LinearOrder α] in
theorem zero_def : (0 : Summary α) = ⟨0, 0, none, none⟩ := rfl

theorem add_def (s t : Summary α) :
    s + t = ⟨s.count + t.count, s.sum + t.sum,
      s.min.merge Min.min t.min, s.max.merge Max.max t.max⟩ := rfl

instance : AddCommMonoid (Summary α) where
  add_assoc s t u := by
    simp only [add_def, Std.Associative.assoc]
  zero_add s := by
    simp only [add_def, zero_def, zero_add, Option.merge_none_left]
  add_zero s := by
    simp only [add_def, zero_def, add_zero, Option.merge_none_right]
  add_comm s t := by
    have hmin : s.min.merge Min.min t.min = t.min.merge Min.min s.min :=
      Std.Commutative.comm s.min t.min
    have hmax : s.max.merge Max.max t.max = t.max.merge Max.max s.max :=
      Std.Commutative.comm s.max t.max
    simp only [add_def, add_comm s.count, add_comm s.sum, hmin, hmax]
  nsmul := nsmulRec

def single (a : α) : Summary α := ⟨1, a, some a, some a⟩

def ofList (xs : List α) : Summary α := (xs.map single).sum

@[simp] theorem ofList_nil : ofList ([] : List α) = 0 := rfl

@[simp] theorem ofList_cons (a : α) (xs : List α) :
    ofList (a :: xs) = single a + ofList xs := by
  simp [ofList]

theorem ofList_append (xs ys : List α) :
    ofList (xs ++ ys) = ofList xs + ofList ys := by
  simp [ofList]

theorem ofList_perm {xs ys : List α} (h : xs.Perm ys) :
    ofList xs = ofList ys :=
  (h.map single).sum_eq

theorem ofList_count (xs : List α) : (ofList xs).count = xs.length := by
  induction xs with
  | nil => rfl
  | cons a xs ih =>
      rw [ofList_cons, add_def, List.length_cons]
      simp only [single, ih]
      omega

theorem ofList_sum (xs : List α) : (ofList xs).sum = xs.sum := by
  induction xs with
  | nil => rfl
  | cons a xs ih => rw [ofList_cons, add_def, List.sum_cons, ← ih, single]

theorem ofList_min (xs : List α) : (ofList xs).min = xs.min? := by
  induction xs with
  | nil => rfl
  | cons a xs ih =>
      rw [ofList_cons, add_def, List.min?_cons, ← ih]
      cases (ofList xs).min <;> rfl

theorem ofList_max (xs : List α) : (ofList xs).max = xs.max? := by
  induction xs with
  | nil => rfl
  | cons a xs ih =>
      rw [ofList_cons, add_def, List.max?_cons, ← ih]
      cases (ofList xs).max <;> rfl

/-! ## Summaries of groups

A group without members has no summary: the row a grouped table does not
have. -/

def collect (xs : List α) : Option (Summary α) :=
  if xs = [] then none else some (ofList xs)

@[simp] theorem collect_nil : collect ([] : List α) = none := if_pos rfl

theorem collect_of_ne_nil {xs : List α} (h : xs ≠ []) :
    collect xs = some (ofList xs) := if_neg h

theorem collect_eq_none_iff {xs : List α} : collect xs = none ↔ xs = [] := by
  by_cases h : xs = [] <;> simp [collect, h]

theorem collect_perm {xs ys : List α} (h : xs.Perm ys) :
    collect xs = collect ys := by
  by_cases hx : xs = []
  · subst hx
    rw [List.nil_perm.mp h]
  · have hy : ys ≠ [] := fun hy => hx (List.perm_nil.mp (hy ▸ h))
    rw [collect_of_ne_nil hx, collect_of_ne_nil hy, ofList_perm h]

/-- **Additivity**: the summary of a whole is the merge of the summaries of
its parts, absent parts counting as nothing. -/
theorem collect_append (xs ys : List α) :
    collect (xs ++ ys) = (collect xs).merge (· + ·) (collect ys) := by
  by_cases hx : xs = []
  · simp [hx]
  · by_cases hy : ys = []
    · simp [hy]
    · have hxy : xs ++ ys ≠ [] := fun h => hx (List.append_eq_nil_iff.mp h).1
      rw [collect_of_ne_nil hx, collect_of_ne_nil hy, collect_of_ne_nil hxy,
        ofList_append, Option.merge_some_some]

/-! ### Growth -/

section Below

variable {s t u : Summary α}

/-- `t` may be what `s` has become by adding to it. -/
structure Below (s t : Summary α) : Prop where
  count : s.count ≤ t.count
  min : ∀ a, s.min = some a → ∃ b, t.min = some b ∧ b ≤ a
  max : ∀ a, s.max = some a → ∃ b, t.max = some b ∧ a ≤ b

omit [AddCommMonoid α] in
theorem Below.refl (s : Summary α) : s.Below s :=
  ⟨le_rfl, fun a h => ⟨a, h, le_rfl⟩, fun a h => ⟨a, h, le_rfl⟩⟩

omit [AddCommMonoid α] in
theorem Below.trans (h : s.Below t) (h' : t.Below u) : s.Below u where
  count := h.count.trans h'.count
  min := fun a ha => by
    obtain ⟨b, hb, hle⟩ := h.min a ha
    obtain ⟨c, hc, hle'⟩ := h'.min b hb
    exact ⟨c, hc, hle'.trans hle⟩
  max := fun a ha => by
    obtain ⟨b, hb, hle⟩ := h.max a ha
    obtain ⟨c, hc, hle'⟩ := h'.max b hb
    exact ⟨c, hc, hle.trans hle'⟩

omit [AddCommMonoid α] in
theorem below_of_merge (hcount : s.count ≤ t.count) {least greatest : Option α}
    (hmin : t.min = s.min.merge Min.min least)
    (hmax : t.max = s.max.merge Max.max greatest) : s.Below t where
  count := hcount
  min := fun a ha => by
    rw [hmin, ha]
    cases least with
    | none => exact ⟨a, rfl, le_rfl⟩
    | some b => exact ⟨Min.min a b, rfl, min_le_left a b⟩
  max := fun a ha => by
    rw [hmax, ha]
    cases greatest with
    | none => exact ⟨a, rfl, le_rfl⟩
    | some b => exact ⟨Max.max a b, rfl, le_max_left a b⟩

theorem below_add (h : 0 ≤ t.count) : s.Below (s + t) :=
  below_of_merge (by rw [add_def]; show s.count ≤ s.count + t.count; omega) rfl rfl

end Below

end Summary

end Framework
