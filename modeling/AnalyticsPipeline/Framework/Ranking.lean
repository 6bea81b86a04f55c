import Mathlib.Data.List.Sort

/-!
# Rankings

A ranking of a list has its elements in the order of their scores, highest
first. Elements of one score come in any order, so a list has many rankings;
their scores, position by position, are the same.
-/

namespace Framework

variable {α β : Type*} [LinearOrder β] {score : α → β} {base rows rows' top : List α}

structure IsRanking (score : α → β) (base rows : List α) : Prop where
  perm : rows.Perm base
  sorted : rows.Pairwise fun a b => score b ≤ score a

namespace IsRanking

theorem length_eq (h : IsRanking score base rows) :
    rows.length = base.length := h.perm.length_eq

theorem insertionSort (score : α → β) (base : List α) :
    IsRanking score base (base.insertionSort fun a b => score b ≤ score a) where
  perm := List.perm_insertionSort _ _
  sorted := by
    have : Std.Total fun a b : α => score b ≤ score a :=
      ⟨fun a b => le_total (score b) (score a)⟩
    have : IsTrans α fun a b : α => score b ≤ score a :=
      ⟨fun _ _ _ hab hbc => hbc.trans hab⟩
    exact List.pairwise_insertionSort _ _

/-- **The scores of a ranking** are those of every other. -/
theorem scores_eq (h : IsRanking score base rows)
    (h' : IsRanking score base rows') : rows.map score = rows'.map score := by
  have hperm := (h.perm.trans h'.perm.symm).map score
  refine @List.Perm.eq_of_pairwise _ (fun a b => b ≤ a) _ _
    (fun _ _ _ _ hab hba => le_antisymm hba hab) ?_ ?_ hperm
  · exact List.pairwise_map.mpr h.sorted
  · exact List.pairwise_map.mpr h'.sorted

/-- The first elements, ranked anew, and the others after them. -/
theorem append_drop (h : IsRanking score base rows) {n : ℕ}
    (htop : IsRanking score (rows.take n) top) :
    IsRanking score base (top ++ rows.drop n) where
  perm := by
    have hperm := htop.perm.append_right (rows.drop n)
    rw [List.take_append_drop] at hperm
    exact hperm.trans h.perm
  sorted := by
    have hsplit := h.sorted
    rw [← List.take_append_drop n rows, List.pairwise_append] at hsplit
    refine List.pairwise_append.mpr ⟨htop.sorted, hsplit.2.1, ?_⟩
    exact fun a ha b hb => hsplit.2.2 a (htop.perm.subset ha) b hb

/-- **The first of the first** are the first, as long as enough were kept. -/
theorem exists_take_eq (h : IsRanking score base rows) {m n : ℕ}
    (htop : IsRanking score (rows.take n) top) (hle : m ≤ n ∨ base.length ≤ n) :
    ∃ l, IsRanking score base l ∧ top.take m = l.take m := by
  refine ⟨top ++ rows.drop n, h.append_drop htop, ?_⟩
  have hlength := htop.length_eq
  rw [List.length_take, h.length_eq] at hlength
  rcases Nat.lt_or_ge n base.length with hn | hn
  · rw [List.take_append_of_le_length (by omega)]
  · rw [List.drop_eq_nil_of_le (h.length_eq ▸ hn), List.append_nil]

/-- **What the first `n` leave out** comes after `n` others. -/
theorem mem_take_or (h : IsRanking score base rows) {a : α} (ha : a ∈ base)
    (n : ℕ) : a ∈ rows.take n ∨
      n ≤ ((rows.take n).filter fun b => score a ≤ score b).length := by
  have hmem : a ∈ rows.take n ++ rows.drop n := by
    rw [List.take_append_drop]
    exact h.perm.mem_iff.mpr ha
  rcases List.mem_append.mp hmem with htake | hdrop
  · exact .inl htake
  · right
    have hsplit := h.sorted
    rw [← List.take_append_drop n rows, List.pairwise_append] at hsplit
    have hall : ((rows.take n).filter fun b => score a ≤ score b) =
        rows.take n := by
      apply List.filter_eq_self.mpr
      intro b hb
      exact decide_eq_true (hsplit.2.2 b hb a hdrop)
    have hlong : n < rows.length := by
      by_contra hn
      rw [List.drop_eq_nil_of_le (not_lt.mp hn)] at hdrop
      cases hdrop
    rw [hall, List.length_take]
    omega

theorem length_filter_sorted (t : β) : ∀ {l : List α} (n : ℕ),
    (l.Pairwise fun a b => score b ≤ score a) →
    ((l.take n).filter fun a => t ≤ score a).length =
      min n (l.filter fun a => t ≤ score a).length
  | [], n, _ => by simp
  | a :: l, 0, _ => by simp
  | a :: l, n + 1, hsorted => by
      obtain ⟨hle, hrest⟩ := List.pairwise_cons.mp hsorted
      rw [List.take_succ_cons]
      by_cases ha : t ≤ score a
      · rw [List.filter_cons_of_pos (by simpa using ha),
          List.filter_cons_of_pos (by simpa using ha), List.length_cons,
          List.length_cons, length_filter_sorted t n hrest]
        omega
      · -- from here on all scores are smaller still
        have hnone : ∀ l' : List α, l' ⊆ a :: l →
            (l'.filter fun b => t ≤ score b) = [] := by
          intro l' hsub
          apply List.filter_eq_nil_iff.mpr
          intro b hb hb'
          have hb' : t ≤ score b := of_decide_eq_true hb'
          rcases List.mem_cons.mp (hsub hb) with rfl | hmem
          · exact ha hb'
          · exact ha (hb'.trans (hle b hmem))
        rw [hnone (a :: l) (List.Subset.refl _), hnone (a :: l.take n) fun b hb => by
          rcases List.mem_cons.mp hb with rfl | hmem
          · exact List.mem_cons_self
          · exact List.mem_cons_of_mem a (List.mem_of_mem_take hmem)]
        simp

/-- **Of the scores from `t` on** the first `n` hold as many as they can. -/
theorem length_filter_take (h : IsRanking score base rows) (n : ℕ) (t : β) :
    ((rows.take n).filter fun a => t ≤ score a).length =
      min n (base.filter fun a => t ≤ score a).length := by
  rw [length_filter_sorted t n h.sorted, (h.perm.filter _).length_eq]

/-- **Whom fewer than `n` others match** is among the first `n`. -/
theorem mem_take_of_few [DecidableEq α] (h : IsRanking score base rows)
    (hnd : base.Nodup) {a : α} (ha : a ∈ base) {n : ℕ}
    (hfew : (base.filter fun b => b ≠ a ∧ score a ≤ score b).length < n) :
    a ∈ rows.take n := by
  rcases h.mem_take_or ha n with htake | hmany
  · exact htake
  · by_contra hnot
    have htake : (rows.take n).Nodup :=
      (h.perm.nodup_iff.mpr hnd).sublist (List.take_sublist n rows)
    have hsub : ((rows.take n).filter fun b => score a ≤ score b) ⊆
        base.filter fun b => b ≠ a ∧ score a ≤ score b := by
      intro b hb
      obtain ⟨hb, hle⟩ := List.mem_filter.mp hb
      refine List.mem_filter.mpr ⟨h.perm.subset (List.mem_of_mem_take hb), ?_⟩
      have hne : b ≠ a := fun hba => hnot (hba ▸ hb)
      exact decide_eq_true ⟨hne, of_decide_eq_true hle⟩
    have hle := (List.subperm_of_subset
      (htake.filter fun b => decide (score a ≤ score b)) hsub).length_le
    omega

/-- Any element may come after all that are not below it. -/
theorem exists_last [DecidableEq α] (score : α → β) (hnd : base.Nodup) {a : α}
    (ha : a ∈ base) : ∃ rows, IsRanking score base rows ∧ ∀ n, a ∈ rows.take n →
      (base.filter fun b => b ≠ a ∧ score a ≤ score b).length < n := by
  let upper := base.filter fun b => b ≠ a ∧ score a ≤ score b
  let lower := base.filter fun b => ¬ score a ≤ score b
  have hup := insertionSort score upper
  have hlow := insertionSort score lower
  have hupper : ∀ b ∈ upper.insertionSort fun x y => score y ≤ score x,
      b ≠ a ∧ score a ≤ score b := fun b hb =>
    of_decide_eq_true (List.mem_filter.mp (hup.perm.subset hb)).2
  have hlower : ∀ b ∈ lower.insertionSort fun x y => score y ≤ score x,
      score b < score a := fun b hb => not_le.mp
    (of_decide_eq_true (List.mem_filter.mp (hlow.perm.subset hb)).2)
  refine ⟨upper.insertionSort (fun x y => score y ≤ score x) ++
    a :: lower.insertionSort fun x y => score y ≤ score x, ⟨?_, ?_⟩, ?_⟩
  · have hsplit := List.filter_append_perm (fun b => decide (score a ≤ score b))
      base
    have hself : (a :: upper).Perm
        (base.filter fun b => decide (score a ≤ score b)) := by
      have hmem : a ∈ base.filter fun b => decide (score a ≤ score b) :=
        List.mem_filter.mpr ⟨ha, decide_eq_true (le_refl _)⟩
      refine .trans (.of_eq ?_) (List.perm_cons_erase hmem).symm
      have hnd' : (base.filter fun b => decide (score a ≤ score b)).Nodup :=
        hnd.filter _
      rw [hnd'.erase_eq_filter, List.filter_filter]
      refine congrArg (List.cons a) (List.filter_congr fun b _ => ?_)
      by_cases hb : b = a <;> simp [hb]
    have hlow' : lower = base.filter fun b => !decide (score a ≤ score b) :=
      List.filter_congr fun b _ => decide_not
    rw [← hlow'] at hsplit
    refine (hup.perm.append (hlow.perm.cons a)).trans ?_
    exact List.perm_middle.trans ((hself.append_right lower).trans hsplit)
  · refine List.pairwise_append.mpr ⟨hup.sorted, List.pairwise_cons.mpr
      ⟨fun b hb => (hlower b hb).le, hlow.sorted⟩, ?_⟩
    intro b hb c hc
    rcases List.mem_cons.mp hc with rfl | hc
    · exact (hupper b hb).2
    · exact (hlower c hc).le.trans (hupper b hb).2
  · intro n hn
    have hlen := hup.length_eq
    by_contra hlong
    rw [List.take_append_of_le_length (by
      rw [hlen]
      exact not_lt.mp hlong)] at hn
    exact (hupper a (List.mem_of_mem_take hn)).1 rfl

end IsRanking

/-! ## The best of a list -/

/-- The `n` best of a list, one of the choices that ties leave. -/
structure IsTop (score : α → β) (base : List α) (n : ℕ) (top : List α) : Prop where
  nodup : top.Nodup
  subset : top ⊆ base
  length : top.length = min n base.length
  above : ∀ a ∈ top, ∀ b ∈ base, b ∉ top → score b ≤ score a

theorem IsRanking.isTop (h : IsRanking score base rows) (hnd : base.Nodup)
    (n : ℕ) : IsTop score base n (rows.take n) where
  nodup := (h.perm.nodup_iff.mpr hnd).sublist (List.take_sublist n rows)
  subset := fun _ ha => h.perm.subset (List.mem_of_mem_take ha)
  length := by rw [List.length_take, h.length_eq]
  above := fun a ha b hb hnot => by
    have hsplit := h.sorted
    rw [← List.take_append_drop n rows, List.pairwise_append] at hsplit
    have hmem : b ∈ rows.take n ++ rows.drop n := by
      rw [List.take_append_drop]
      exact h.perm.mem_iff.mpr hb
    rcases List.mem_append.mp hmem with htake | hdrop
    · exact absurd htake hnot
    · exact hsplit.2.2 a ha b hdrop

/-- No choice has another as a part. -/
theorem IsTop.subset_of {n : ℕ} {top' : List α} (h : IsTop score base n top)
    (h' : IsTop score base n top') (hsub : top ⊆ top') : top' ⊆ top :=
  ((List.subperm_of_subset h.nodup hsub).perm_of_length_le
    (h'.length.trans h.length.symm).le).symm.subset

end Framework
