import AnalyticsPipeline.Framework.Dict
import Mathlib.Algebra.Order.BigOperators.Group.Finset
import Mathlib.Algebra.Order.Ring.Int

/-!
# Totals over a dictionary

The total of a measure over some of the keys. It rises when the values do and
what is added measures something.
-/

namespace Framework

namespace Dict

variable {K V : Type*} [DecidableEq K]

/-- What is measured at a key; nothing where there is no value. -/
def measure (f : V → ℤ) (d : Dict K V) (k : K) : ℤ := (d.get? k).elim 0 f

theorem total_eq_sum (f : V → ℤ) (p : K → Bool) (d : Dict K V) :
    ((d.entries.filter fun e => p e.1).map fun e => f e.2).sum =
      ∑ k ∈ (d.keys.filter p).toFinset, d.measure f k := by
  have hkeys : d.keys.filter p = (d.entries.filter fun e => p e.1).map Prod.fst := by
    rw [keys, List.filter_map]
    rfl
  have hnd : (d.keys.filter p).Nodup := d.nodup_keys.filter p
  rw [List.sum_toFinset _ hnd, hkeys, List.map_map]
  congr 1
  refine List.map_congr_left fun e he => ?_
  have hget := get?_eq_some_iff.mpr (List.mem_of_mem_filter he)
  rw [Function.comp_apply, measure, hget]
  rfl

/-- **Totals rise** with the values at the keys. -/
theorem total_le {f : V → ℤ} {d d' : Dict K V}
    (hle : ∀ k, d.measure f k ≤ d'.measure f k)
    (hkept : ∀ k, k ∈ d.keys → k ∈ d'.keys)
    (hnew : ∀ k, k ∉ d.keys → 0 ≤ d'.measure f k) (p : K → Bool) :
    ((d.entries.filter fun e => p e.1).map fun e => f e.2).sum ≤
      ((d'.entries.filter fun e => p e.1).map fun e => f e.2).sum := by
  rw [total_eq_sum, total_eq_sum]
  refine (Finset.sum_le_sum fun k _ => hle k).trans
    (Finset.sum_le_sum_of_subset_of_nonneg ?_ ?_)
  · intro k hk
    rw [List.mem_toFinset, List.mem_filter] at hk ⊢
    exact ⟨hkept k hk.1, hk.2⟩
  · intro k hk' hk
    rw [List.mem_toFinset, List.mem_filter] at hk hk'
    exact hnew k fun hmem => hk ⟨hmem, hk'.2⟩

end Dict

end Framework
