import Mathlib.Data.List.Induction
import Mathlib.Data.List.Nodup
import Mathlib.Data.List.Perm.Basic
import Mathlib.Data.List.Dedup
import Mathlib.Tactic.Tauto

/-!
# Insertion-ordered finite maps

A `Dict` is an association list whose keys are pairwise distinct: the meaning
of a Python dictionary (iteration in insertion order) and of a table under a
primary key. Uniqueness is a field, so no later proof has to re-establish it,
and every operation is characterized by its effect on `get?` alone.
-/

namespace Framework

structure Dict (K V : Type*) where
  entries : List (K × V)
  nodup_keys : (entries.map Prod.fst).Nodup

namespace Dict

variable {K V : Type*}

def keys (d : Dict K V) : List K := d.entries.map Prod.fst

def empty : Dict K V := ⟨[], List.nodup_nil⟩

instance : EmptyCollection (Dict K V) := ⟨empty⟩

instance : Inhabited (Dict K V) := ⟨empty⟩

@[simp] theorem entries_empty : (∅ : Dict K V).entries = [] := rfl

theorem eq_of_mem_of_mem {d : Dict K V} {k : K} {v w : V}
    (hv : (k, v) ∈ d.entries) (hw : (k, w) ∈ d.entries) : v = w := by
  have hpair := List.inj_on_of_nodup_map d.nodup_keys hv hw rfl
  exact congrArg Prod.snd hpair

variable [DecidableEq K]

def get? (d : Dict K V) (k : K) : Option V := d.entries.lookup k

theorem lookup_cons_ite (k a : K) (v : V) (l : List (K × V)) :
    ((a, v) :: l).lookup k = if k = a then some v else l.lookup k := by
  by_cases h : k = a
  · simp [h]
  · simp [List.lookup_cons, h, beq_eq_false_iff_ne.mpr h]

/-- Replace the value at `k` in place, or append it when `k` is new; `f` is
given the value stored so far. -/
def alterEntries (k : K) (f : Option V → V) : List (K × V) → List (K × V)
  | [] => [(k, f none)]
  | (a, v) :: l =>
      if a = k then (k, f (some v)) :: l
      else (a, v) :: alterEntries k f l

theorem map_fst_alterEntries (k : K) (f : Option V → V) : ∀ l : List (K × V),
    (alterEntries k f l).map Prod.fst =
      if k ∈ l.map Prod.fst then l.map Prod.fst else l.map Prod.fst ++ [k]
  | [] => by simp [alterEntries]
  | (a, v) :: l => by
      by_cases h : a = k
      · simp [alterEntries, h]
      · have hne : ¬ k = a := fun hk => h hk.symm
        simp only [alterEntries, if_neg h, List.map_cons,
          map_fst_alterEntries k f l, List.mem_cons, hne, false_or]
        split <;> simp

theorem lookup_alterEntries (k k' : K) (f : Option V → V) :
    ∀ l : List (K × V), (alterEntries k f l).lookup k' =
      if k' = k then some (f (l.lookup k)) else l.lookup k'
  | [] => by simp [alterEntries, lookup_cons_ite]
  | (a, v) :: l => by
      by_cases h : a = k
      · subst h
        simp only [alterEntries, if_true, lookup_cons_ite]
        split <;> rfl
      · have hne : ¬ k = a := fun hk => h hk.symm
        simp only [alterEntries, if_neg h, lookup_cons_ite, if_neg hne,
          lookup_alterEntries k k' f l]
        by_cases hk : k' = a
        · simp [hk, h]
        · simp [hk]

theorem nodup_alterEntries {k : K} {f : Option V → V} {l : List (K × V)}
    (h : (l.map Prod.fst).Nodup) : ((alterEntries k f l).map Prod.fst).Nodup := by
  rw [map_fst_alterEntries]
  split
  · exact h
  · rename_i hk
    refine List.nodup_append.mpr ⟨h, List.nodup_singleton k, ?_⟩
    intro a ha b hb hab
    rw [List.mem_singleton] at hb
    exact hk (hb ▸ hab ▸ ha)

def alter (d : Dict K V) (k : K) (f : Option V → V) : Dict K V :=
  ⟨alterEntries k f d.entries, nodup_alterEntries d.nodup_keys⟩

def set (d : Dict K V) (k : K) (v : V) : Dict K V := d.alter k (fun _ => v)

/-- A new key goes to the end. -/
theorem entries_set_of_not_mem {d : Dict K V} {k : K} (h : k ∉ d.keys) (v : V) :
    (d.set k v).entries = d.entries ++ [(k, v)] := by
  have hall : ∀ l : List (K × V), k ∉ l.map Prod.fst →
      alterEntries k (fun _ => v) l = l ++ [(k, v)] := by
    intro l
    induction l with
    | nil => exact fun _ => rfl
    | cons p l ih =>
        intro hk
        rw [List.map_cons, List.mem_cons, not_or] at hk
        rw [alterEntries, if_neg (Ne.symm hk.1), ih hk.2]
        rfl
  exact hall d.entries h

theorem length_alter_le (d : Dict K V) (k : K) (f : Option V → V) :
    (d.alter k f).entries.length ≤ d.entries.length + 1 := by
  have hfst := congrArg List.length (map_fst_alterEntries k f d.entries)
  rw [List.length_map] at hfst
  change (alterEntries k f d.entries).length ≤ _
  rw [hfst]
  split <;> simp

theorem alterEntries_eq_self {k : K} {v : V} : ∀ {l : List (K × V)},
    l.lookup k = some v → alterEntries k (fun _ => v) l = l
  | [], h => by simp at h
  | (a, w) :: l, h => by
      rw [lookup_cons_ite] at h
      by_cases hk : k = a
      · rw [if_pos hk] at h
        cases h
        simp [alterEntries, hk]
      · rw [if_neg hk] at h
        rw [alterEntries, if_neg (Ne.symm hk), alterEntries_eq_self h]

theorem set_eq_self {d : Dict K V} {k : K} {v : V} (h : d.get? k = some v) :
    d.set k v = d := by
  obtain ⟨l, hl⟩ := d
  simp only [set, alter, alterEntries_eq_self h]

def erase (d : Dict K V) (k : K) : Dict K V :=
  ⟨d.entries.filter (fun p => decide (p.1 ≠ k)),
    d.nodup_keys.sublist (List.filter_sublist.map Prod.fst)⟩

def ofList (l : List (K × V)) : Dict K V :=
  l.foldl (fun d p => d.set p.1 p.2) ∅

/-- The entries of `d` written over those of `base`. -/
def overlay (d base : Dict K V) : Dict K V :=
  d.entries.foldl (fun acc p => acc.set p.1 p.2) base

/-! ## Reading -/

@[simp] theorem get?_empty (k : K) : (∅ : Dict K V).get? k = none := rfl

@[simp] theorem get?_alter (d : Dict K V) (k k' : K) (f : Option V → V) :
    (d.alter k f).get? k' =
      if k' = k then some (f (d.get? k)) else d.get? k' :=
  lookup_alterEntries k k' f d.entries

@[simp] theorem get?_set (d : Dict K V) (k k' : K) (v : V) :
    (d.set k v).get? k' = if k' = k then some v else d.get? k' :=
  get?_alter d k k' _

theorem lookup_filter_ne (k k' : K) : ∀ l : List (K × V),
    (l.filter (fun p => decide (p.1 ≠ k))).lookup k' =
      if k' = k then none else l.lookup k'
  | [] => by simp
  | (a, v) :: l => by
      have ih := lookup_filter_ne k k' l
      by_cases h : a = k
      · rw [List.filter_cons_of_neg (by simp [h]), ih, lookup_cons_ite, h]
        split <;> rfl
      · rw [List.filter_cons_of_pos (by simp [h]), lookup_cons_ite,
          lookup_cons_ite, ih]
        by_cases hk : k' = a
        · simp [hk, h]
        · simp [hk]

@[simp] theorem get?_erase (d : Dict K V) (k k' : K) :
    (d.erase k).get? k' = if k' = k then none else d.get? k' :=
  lookup_filter_ne k k' d.entries

theorem get?_eq_some_iff {d : Dict K V} {k : K} {v : V} :
    d.get? k = some v ↔ (k, v) ∈ d.entries := by
  obtain ⟨l, hl⟩ := d
  simp only [get?]
  induction l with
  | nil => simp
  | cons p l ih =>
      obtain ⟨a, w⟩ := p
      simp only [List.map_cons, List.nodup_cons] at hl
      rw [lookup_cons_ite, List.mem_cons, Prod.mk.injEq]
      by_cases h : k = a
      · subst h
        have hnot : (k, v) ∉ l := fun hm =>
          hl.1 (List.mem_map_of_mem (f := Prod.fst) hm)
        simp [hnot, eq_comm]
      · simp [h, ih hl.2]

theorem mem_keys_iff {d : Dict K V} {k : K} :
    k ∈ d.keys ↔ ∃ v, d.get? k = some v := by
  simp only [keys, List.mem_map, get?_eq_some_iff, Prod.exists,
    exists_and_right, exists_eq_right]

theorem get?_eq_none_iff {d : Dict K V} {k : K} :
    d.get? k = none ↔ k ∉ d.keys := by
  rw [mem_keys_iff, Option.eq_none_iff_forall_not_mem, not_exists]
  rfl

/-- A dictionary built up element by element: what is at a key is built up by
the elements that have the key. -/
theorem get?_foldl_alter {E : Type*} (key : E → K) (f : E → Option V → V)
    (base : Dict K V) (k : K) (xs : List E) :
    (xs.foldl (fun acc x => acc.alter (key x) (f x)) base).get? k =
      (xs.filter fun x => key x = k).foldl (fun old x => some (f x old))
        (base.get? k) := by
  induction xs generalizing base with
  | nil => rfl
  | cons x xs ih =>
      rw [List.foldl_cons, ih, get?_alter]
      by_cases h : key x = k
      · rw [if_pos h.symm, List.filter_cons_of_pos (by simpa using h),
          List.foldl_cons, h]
      · rw [if_neg (Ne.symm h), List.filter_cons_of_neg (by simpa using h)]

theorem get?_foldl_set (base : Dict K V) (k : K) (l : List (K × V))
    (hl : (l.map Prod.fst).Nodup) :
    (l.foldl (fun acc p => acc.set p.1 p.2) base).get? k =
      (l.lookup k).or (base.get? k) := by
  induction l generalizing base with
  | nil => simp
  | cons p l ih =>
      obtain ⟨a, v⟩ := p
      simp only [List.map_cons, List.nodup_cons] at hl
      rw [List.foldl_cons, ih _ hl.2, get?_set, lookup_cons_ite]
      by_cases h : k = a
      · subst h
        have hnone : l.lookup k = none := by
          rw [List.lookup_eq_none_iff]
          intro q hq
          have hne : k ≠ q.1 := fun hkq =>
            hl.1 (hkq ▸ List.mem_map_of_mem (f := Prod.fst) hq)
          simpa using hne
        simp [hnone]
      · simp [h]

@[simp] theorem get?_overlay (d base : Dict K V) (k : K) :
    (d.overlay base).get? k = (d.get? k).or (base.get? k) :=
  get?_foldl_set base k d.entries d.nodup_keys

theorem get?_ofList {l : List (K × V)} (h : (l.map Prod.fst).Nodup) (k : K) :
    (ofList l).get? k = l.lookup k := by
  rw [ofList, get?_foldl_set ∅ k l h, get?_empty, Option.or_none]

theorem mem_keys_overlay {d base : Dict K V} {k : K} :
    k ∈ (d.overlay base).keys ↔ k ∈ d.keys ∨ k ∈ base.keys := by
  simp only [mem_keys_iff, get?_overlay]
  cases d.get? k <;> simp

theorem get?_ofList_eq_some_iff {l : List (K × V)}
    (h : (l.map Prod.fst).Nodup) {k : K} {v : V} :
    (ofList l).get? k = some v ↔ (k, v) ∈ l := by
  rw [get?_ofList h]
  exact get?_eq_some_iff (d := ⟨l, h⟩)

theorem mem_keys_ofList {l : List (K × V)} (h : (l.map Prod.fst).Nodup)
    {k : K} : k ∈ (ofList l).keys ↔ k ∈ l.map Prod.fst := by
  rw [mem_keys_iff]
  simp [get?_ofList_eq_some_iff h]

/-- Values indexed by a key of theirs: at `k` is the last one of that key. -/
theorem get?_ofList_byKey (key : V → K) (xs : List V) (k : K) :
    (ofList (xs.map fun x => (key x, x))).get? k =
      (xs.filter fun x => key x = k).getLast? := by
  induction xs using List.reverseRecOn with
  | nil => rfl
  | append_singleton xs x ih =>
      have hset : ofList ((xs ++ [x]).map fun x => (key x, x)) =
          (ofList (xs.map fun x => (key x, x))).set (key x) x := by
        rw [ofList, ofList, List.map_append, List.foldl_append]
        rfl
      rw [hset, get?_set, ih, List.filter_append]
      by_cases h : k = key x
      · rw [if_pos h, List.filter_cons_of_pos (by simpa using h.symm)]
        simp
      · rw [if_neg h, List.filter_cons_of_neg (by simpa using Ne.symm h),
          List.filter_nil, List.append_nil]

@[simp] theorem overlay_empty (base : Dict K V) :
    (∅ : Dict K V).overlay base = base := rfl

end Dict

end Framework
