import AnalyticsPipeline.Framework.Dict
import AnalyticsPipeline.Framework.Summary
import Mathlib.Algebra.BigOperators.Group.Finset.Basic
import Mathlib.Algebra.Ring.Int.Defs
import Mathlib.Data.Multiset.Filter

/-!
# Grouped tables

A table is grouped when the row at each key is the summary of the elements that
have the key. Summing rows then is summarizing elements: for every set of keys,
and so for every coarser grouping of the keys.
-/

namespace Framework

namespace Summary

variable {α : Type*} [AddCommMonoid α] [LinearOrder α]

theorem sum_count (rows : List (Summary α)) :
    rows.sum.count = (rows.map (·.count)).sum := by
  induction rows with
  | nil => rfl
  | cons row rows ih =>
      rw [List.sum_cons, add_def, List.map_cons, List.sum_cons, ← ih]

theorem sum_sum (rows : List (Summary α)) :
    rows.sum.sum = (rows.map (·.sum)).sum := by
  induction rows with
  | nil => rfl
  | cons row rows ih =>
      rw [List.sum_cons, add_def, List.map_cons, List.sum_cons, ← ih]

end Summary

section Regroup

variable {E K : Type*} [DecidableEq K] (key : E → K)

theorem filter_mem_cons_perm {k : K} {ks : List K} (hk : k ∉ ks) (xs : List E) :
    (xs.filter fun x => key x ∈ k :: ks).Perm
      ((xs.filter fun x => key x = k) ++ xs.filter fun x => key x ∈ ks) := by
  induction xs with
  | nil => exact .refl _
  | cons x xs ih =>
      by_cases hx : key x = k
      · have hnot : ¬ key x ∈ ks := fun hmem => hk (hx ▸ hmem)
        rw [List.filter_cons_of_pos (by simp [hx]),
          List.filter_cons_of_pos (by simpa using hx),
          List.filter_cons_of_neg (by simpa using hnot)]
        exact ih.cons x
      · by_cases hmem : key x ∈ ks
        · rw [List.filter_cons_of_pos (by simp [hmem]),
            List.filter_cons_of_neg (by simpa using hx),
            List.filter_cons_of_pos (by simpa using hmem)]
          exact (ih.cons x).trans List.perm_middle.symm
        · rw [List.filter_cons_of_neg (by simp [hx, hmem]),
            List.filter_cons_of_neg (by simpa using hx),
            List.filter_cons_of_neg (by simpa using hmem)]
          exact ih

/-- Inclusion and exclusion for two properties of the elements. -/
theorem filter_append_filter_perm {p q : E → Bool} (xs : List E) :
    (xs.filter p ++ xs.filter q).Perm
      ((xs.filter fun x => p x || q x) ++ xs.filter fun x => p x && q x) := by
  have h := Multiset.filter_add_filter (fun x => p x = true)
    (fun x => q x = true) (xs : Multiset E)
  rw [Multiset.filter_coe, Multiset.filter_coe, Multiset.filter_coe,
    Multiset.filter_coe, Multiset.coe_add, Multiset.coe_add,
    Multiset.coe_eq_coe] at h
  simpa only [Bool.decide_eq_true, Bool.decide_or, Bool.decide_and] using h

/-- **Groups partition**: the groups of distinct keys, summed, are what they
hold together. -/
theorem sum_groups {M : Type*} [AddCommMonoid M] (val : E → M) (xs : List E) :
    ∀ {ks : List K}, ks.Nodup →
      (ks.map fun k => ((xs.filter fun x => key x = k).map val).sum).sum =
        ((xs.filter fun x => key x ∈ ks).map val).sum
  | [], _ => by simp
  | k :: ks, hnd => by
      obtain ⟨hk, hnd⟩ := List.nodup_cons.mp hnd
      have hperm := (filter_mem_cons_perm key hk xs).map val
      rw [List.map_cons, List.sum_cons, sum_groups val xs hnd, hperm.sum_eq,
        List.map_append, List.sum_append]

end Regroup

section Entries

variable {K V M : Type*} [DecidableEq K] [AddCommMonoid M]

/-- A sum over the entries of a dictionary, as one over keys among which are all
of its own. -/
theorem Dict.sum_entries {d : Dict K V} {ks : List K} (hks : ks.Nodup)
    (hsub : d.keys ⊆ ks) (p : K → Bool) (val : V → M) :
    ((d.entries.filter fun r => p r.1).map fun r => val r.2).sum =
      ((ks.filter p).map fun k => ((d.get? k).map val).getD 0).sum := by
  have hentries : (d.entries.filter fun r => p r.1).map (fun r => val r.2) =
      (d.keys.filter p).map fun k => ((d.get? k).map val).getD 0 := by
    rw [Dict.keys, List.filter_map, List.map_map]
    refine List.map_congr_left fun r hr => ?_
    have hget := Dict.get?_eq_some_iff.mpr (List.mem_of_mem_filter hr)
    rw [Function.comp_apply, hget]
    rfl
  have hkeys : (d.keys.filter p).Nodup := d.nodup_keys.filter p
  rw [hentries, ← List.sum_toFinset _ hkeys,
    ← List.sum_toFinset _ (hks.filter p)]
  refine Finset.sum_subset (fun k hk => ?_) fun k hmem hk => ?_
  · rw [List.mem_toFinset, List.mem_filter] at hk ⊢
    exact ⟨hsub hk.1, hk.2⟩
  · rw [List.mem_toFinset, List.mem_filter] at hmem hk
    have hnone : d.get? k = none :=
      Dict.get?_eq_none_iff.mpr fun hkey => hk ⟨hkey, hmem.2⟩
    rw [hnone]
    rfl

end Entries

/-- The row at each key summarizes the elements that have the key. -/
def Grouped {E K α : Type*} [DecidableEq K] [AddCommMonoid α] [LinearOrder α]
    (table : Dict K (Summary α)) (key : E → K) (val : E → α) (xs : List E) :
    Prop :=
  ∀ k, table.get? k =
    Summary.collect ((xs.filter fun x => key x = k).map val)

namespace Grouped

variable {E K α : Type*} [DecidableEq K] [AddCommMonoid α] [LinearOrder α]
  {table : Dict K (Summary α)} {key : E → K} {val : E → α} {xs : List E}

theorem mem_keys_iff (h : Grouped table key val xs) {k : K} :
    k ∈ table.keys ↔ ∃ x ∈ xs, key x = k := by
  rw [← not_iff_not, ← Dict.get?_eq_none_iff, h k, Summary.collect_eq_none_iff]
  simp [List.filter_eq_nil_iff]

theorem row_eq (h : Grouped table key val xs) {k : K} {row : Summary α}
    (hrow : (k, row) ∈ table.entries) :
    row = Summary.ofList ((xs.filter fun x => key x = k).map val) := by
  have hget := (Dict.get?_eq_some_iff.mpr hrow).symm.trans (h k)
  by_cases hnil : (xs.filter fun x => key x = k).map val = []
  · rw [hnil, Summary.collect_nil] at hget
    cases hget
  · rw [Summary.collect_of_ne_nil hnil] at hget
    exact Option.some.inj hget

/-- **Reading a grouped table**: the rows under the keys of a set sum up to the
summary of the elements whose keys are in it. -/
theorem sum_entries (h : Grouped table key val xs) (p : K → Bool) :
    ((table.entries.filter fun r => p r.1).map Prod.snd).sum =
      Summary.ofList ((xs.filter fun x => p (key x)).map val) := by
  have hrows : (table.entries.filter fun r => p r.1).map Prod.snd =
      ((table.keys.filter p).map fun k =>
        ((xs.filter fun x => key x = k).map fun x => Summary.single (val x)).sum) := by
    rw [Dict.keys, List.filter_map, List.map_map]
    refine List.map_congr_left fun r hr => ?_
    rw [h.row_eq (List.mem_of_mem_filter hr), Summary.ofList, List.map_map]
    rfl
  have hnd : (table.keys.filter p).Nodup := table.nodup_keys.filter _
  have hmem : (xs.filter fun x => key x ∈ table.keys.filter p) =
      xs.filter fun x => p (key x) := by
    refine List.filter_congr fun x hx => ?_
    have hkey : key x ∈ table.keys := h.mem_keys_iff.mpr ⟨x, hx, rfl⟩
    simp [List.mem_filter, hkey]
  rw [hrows, sum_groups key _ xs hnd, hmem, Summary.ofList, List.map_map]
  rfl

theorem count_entries (h : Grouped table key val xs) (p : K → Bool) :
    ((table.entries.filter fun r => p r.1).map fun r => r.2.count).sum =
      (xs.filter fun x => p (key x)).length := by
  have hsum := congrArg Summary.count (h.sum_entries p)
  rw [Summary.sum_count, Summary.ofList_count, List.map_map,
    List.length_map] at hsum
  exact hsum

theorem amount_entries (h : Grouped table key val xs) (p : K → Bool) :
    ((table.entries.filter fun r => p r.1).map fun r => r.2.sum).sum =
      ((xs.filter fun x => p (key x)).map val).sum := by
  have hsum := congrArg Summary.sum (h.sum_entries p)
  rw [Summary.sum_sum, Summary.ofList_sum, List.map_map] at hsum
  exact hsum

/-- The set holds a row exactly when it holds the key of an element. -/
theorem exists_entry_iff (h : Grouped table key val xs) (p : K → Prop) :
    (∃ r ∈ table.entries, p r.1) ↔ ∃ x ∈ xs, p (key x) := by
  constructor
  · rintro ⟨⟨k, row⟩, hr, hp⟩
    obtain ⟨x, hx, rfl⟩ := h.mem_keys_iff.mp
      (List.mem_map_of_mem (f := Prod.fst) hr)
    exact ⟨x, hx, hp⟩
  · rintro ⟨x, hx, hp⟩
    obtain ⟨r, hr, hkey⟩ := List.mem_map.mp (h.mem_keys_iff.mpr ⟨x, hx, rfl⟩)
    exact ⟨r, hr, hkey ▸ hp⟩

theorem perm (h : Grouped table key val xs) {ys : List E} (hp : xs.Perm ys) :
    Grouped table key val ys := fun k => by
  rw [h k]
  exact Summary.collect_perm ((hp.filter _).map val)

end Grouped

end Framework
