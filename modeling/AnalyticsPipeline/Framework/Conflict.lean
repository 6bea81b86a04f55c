import Mathlib.Data.List.Nodup
import Mathlib.Data.List.Sublists

/-!
# Insertion that skips conflicts

`freshBy key taken l` keeps the elements of `l` whose key is neither taken nor
the key of an earlier element that was kept: the rows an
`INSERT ... ON CONFLICT DO NOTHING` really inserts.
-/

namespace Framework

variable {α κ : Type*} [DecidableEq κ]

def freshBy (key : α → κ) (taken : List κ) : List α → List α
  | [] => []
  | a :: l =>
      if key a ∈ taken then freshBy key taken l
      else a :: freshBy key (key a :: taken) l

variable {key : α → κ}

theorem freshBy_sublist : ∀ {l : List α} {taken : List κ},
    (freshBy key taken l).Sublist l
  | [], _ => .slnil
  | a :: l, taken => by
      rw [freshBy]
      split
      · exact freshBy_sublist.cons a
      · exact freshBy_sublist.cons_cons a

theorem mem_map_freshBy_iff {k : κ} : ∀ {l : List α} {taken : List κ},
    k ∈ (freshBy key taken l).map key ↔ k ∈ l.map key ∧ k ∉ taken
  | [], _ => by simp [freshBy]
  | a :: l, taken => by
      rw [freshBy]
      split
      · rename_i h
        rw [mem_map_freshBy_iff, List.map_cons, List.mem_cons]
        constructor
        · rintro ⟨hl, ht⟩
          exact ⟨.inr hl, ht⟩
        · rintro ⟨rfl | hl, ht⟩
          · exact absurd h ht
          · exact ⟨hl, ht⟩
      · rename_i h
        rw [List.map_cons, List.mem_cons, mem_map_freshBy_iff, List.map_cons,
          List.mem_cons, List.mem_cons]
        constructor
        · rintro (rfl | ⟨hl, ht⟩)
          · exact ⟨.inl rfl, h⟩
          · exact ⟨.inr hl, fun hk => ht (.inr hk)⟩
        · rintro ⟨hk | hl, ht⟩
          · exact .inl hk
          · by_cases hka : k = key a
            · exact .inl hka
            · exact .inr ⟨hl, fun hk => hk.elim hka ht⟩

theorem nodup_map_freshBy : ∀ {l : List α} {taken : List κ},
    ((freshBy key taken l).map key).Nodup
  | [], _ => by simp [freshBy]
  | a :: l, taken => by
      rw [freshBy]
      split
      · exact nodup_map_freshBy
      · rw [List.map_cons, List.nodup_cons]
        refine ⟨fun h => ?_, nodup_map_freshBy⟩
        exact (mem_map_freshBy_iff.mp h).2 List.mem_cons_self

theorem freshBy_eq_self : ∀ {l : List α} {taken : List κ},
    (l.map key).Nodup → (∀ a ∈ l, key a ∉ taken) → freshBy key taken l = l
  | [], _, _, _ => rfl
  | a :: l, taken, hnd, h => by
      rw [List.map_cons, List.nodup_cons] at hnd
      rw [freshBy, if_neg (h a List.mem_cons_self), freshBy_eq_self hnd.2]
      intro b hb hmem
      rcases List.mem_cons.mp hmem with hba | ht
      · exact hnd.1 (hba ▸ List.mem_map_of_mem hb)
      · exact h b (List.mem_cons_of_mem a hb) ht

/-- Under distinct keys one row answers to a key. -/
theorem filter_key_eq {l : List α} {a : α} (hnd : (l.map key).Nodup)
    (ha : a ∈ l) : (l.filter fun b => key b = key a) = [a] := by
  refine List.perm_singleton.mp ((List.perm_ext_iff_of_nodup
    ((hnd.of_map _).filter _) (List.nodup_singleton a)).mpr fun b => ?_)
  simp only [List.mem_filter, decide_eq_true_eq, List.mem_singleton]
  constructor
  · rintro ⟨hb, hkey⟩
    exact List.inj_on_of_nodup_map hnd hb ha hkey
  · rintro rfl
    exact ⟨ha, rfl⟩

end Framework
