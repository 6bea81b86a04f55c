import AnalyticsPipeline.Framework.Conflict
import AnalyticsPipeline.Framework.Grouping
import Mathlib.Algebra.Group.WithOne.Defs

/-!
# Regrouped tables

The rows of a table, added up under coarser keys. Where there is no row there is
nothing to add, so rows are added in `WithZero`, whose zero is the row that is
not there. Regrouping is additive: what is added to the rows of a table is added
to its regrouping.
-/

namespace Framework

namespace Summary

variable {α : Type*} [AddCommMonoid α] [LinearOrder α]

/-- The row of a group is what its elements add up to. -/
theorem collect_eq_sum (xs : List α) :
    collect xs = (xs.map fun a => (single a : WithZero (Summary α))).sum := by
  induction xs with
  | nil => rfl
  | cons a xs ih =>
      rw [List.map_cons, List.sum_cons, ← ih, ← List.singleton_append,
        collect_append, collect_of_ne_nil (List.cons_ne_nil a []), ofList_cons,
        ofList_nil, add_zero]
      rfl

end Summary

namespace Dict

variable {K K' V E : Type*} [DecidableEq K] [DecidableEq K'] [AddCommMonoid V]

/-- The row at a key, zero where there is none. -/
def row (d : Dict K V) (k : K) : WithZero V := d.get? k

/-- What the rows under a coarse key add up to. -/
def regroup (d : Dict K V) (f : K → K') (k : K') : WithZero V :=
  ((d.entries.filter fun r => f r.1 = k).map fun r => (r.2 : WithZero V)).sum

theorem sum_coe (rows : List V) :
    (rows.map fun v : V => (v : WithZero V)).sum =
      if rows = [] then 0 else (rows.sum : WithZero V) := by
  induction rows with
  | nil => rfl
  | cons row rows ih =>
      rw [List.map_cons, List.sum_cons, ih, if_neg (List.cons_ne_nil row rows),
        List.sum_cons]
      split
      · rename_i hnil
        rw [hnil, List.sum_nil, add_zero, add_zero]
      · rfl

/-- At its own key a table has at most one row. -/
theorem sum_entries_at (d : Dict K V) (k : K) :
    ((d.entries.filter fun r => r.1 = k).map fun r =>
      (r.2 : WithZero V)).sum = d.row k := by
  cases hget : d.get? k with
  | none =>
      have hnil : (d.entries.filter fun r => r.1 = k) = [] := by
        refine List.filter_eq_nil_iff.mpr fun r hr => ?_
        rw [decide_eq_true_eq]
        rintro rfl
        exact get?_eq_none_iff.mp hget (List.mem_map_of_mem hr)
      rw [hnil, row, hget]
      rfl
  | some v =>
      have hone := @filter_key_eq _ _ _ Prod.fst _ _ d.nodup_keys
        (get?_eq_some_iff.mp hget)
      rw [hone, row, hget]
      exact add_zero _

/-- The keys may be gone through in any list that holds them all. -/
theorem regroup_eq_sum_keys (d : Dict K V) (f : K → K') (k : K') {ks : List K}
    (hnd : ks.Nodup) (hks : d.keys ⊆ ks) :
    d.regroup f k = ((ks.filter fun x => f x = k).map d.row).sum := by
  have hgroups := sum_groups (Prod.fst : K × V → K)
    (fun r => (r.2 : WithZero V)) d.entries (hnd.filter fun x => f x = k)
  have hrows : ((ks.filter fun x => f x = k).map d.row) =
      (ks.filter fun x => f x = k).map fun x =>
        ((d.entries.filter fun r => r.1 = x).map fun r =>
          (r.2 : WithZero V)).sum :=
    List.map_congr_left fun x _ => (d.sum_entries_at x).symm
  rw [hrows, hgroups, regroup]
  congr 2
  refine List.filter_congr fun r hr => ?_
  have hmem : r.1 ∈ ks := hks (List.mem_map_of_mem hr)
  simp [hmem]

/-- Only the rows under the coarse key matter. -/
theorem regroup_congr {d d' : Dict K V} {f : K → K'} {k : K'}
    (h : ∀ x, f x = k → d.get? x = d'.get? x) :
    d.regroup f k = d'.regroup f k := by
  have hnd : (d.keys ++ d'.keys).dedup.Nodup := List.nodup_dedup _
  rw [d.regroup_eq_sum_keys f k hnd fun x hx =>
      List.mem_dedup.mpr (List.mem_append_left _ hx),
    d'.regroup_eq_sum_keys f k hnd fun x hx =>
      List.mem_dedup.mpr (List.mem_append_right _ hx)]
  congr 1
  refine List.map_congr_left fun x hx => h x ?_
  exact of_decide_eq_true (List.mem_filter.mp hx).2

/-- **Additivity**: elements added to the rows at their keys are added to the
regrouped row at their coarse key. -/
theorem regroup_add {d d' : Dict K V} {xs : List E} {key : E → K}
    {val : E → WithZero V}
    (h : ∀ k, d'.row k =
      d.row k + ((xs.filter fun x => key x = k).map val).sum)
    (f : K → K') (k : K') :
    d'.regroup f k =
      d.regroup f k + ((xs.filter fun x => f (key x) = k).map val).sum := by
  let ks := (d.keys ++ d'.keys ++ xs.map key).dedup
  have hnd : ks.Nodup := List.nodup_dedup _
  have hmem : ∀ x, x ∈ d.keys ∨ x ∈ d'.keys ∨ x ∈ xs.map key → x ∈ ks := by
    intro x hx
    rw [List.mem_dedup, List.mem_append, List.mem_append]
    rcases hx with hx | hx | hx
    · exact .inl (.inl hx)
    · exact .inl (.inr hx)
    · exact .inr hx
  have hxs : (xs.filter fun x => key x ∈ ks.filter fun x => f x = k) =
      xs.filter fun x => f (key x) = k := by
    refine List.filter_congr fun x hx => ?_
    have hkey := hmem (key x) (.inr (.inr (List.mem_map_of_mem hx)))
    simp [hkey]
  have hgroups := sum_groups key val xs (hnd.filter fun x => f x = k)
  rw [hxs] at hgroups
  rw [d.regroup_eq_sum_keys f k hnd fun x hx => hmem x (.inl hx),
    d'.regroup_eq_sum_keys f k hnd fun x hx => hmem x (.inr (.inl hx)),
    List.map_congr_left fun x _ => h x, List.sum_map_add, hgroups]

end Dict

end Framework
