import Mathlib.Data.Finset.Card
import Mathlib.Data.Finset.Dedup
import Mathlib.Data.List.Nodup
import Mathlib.Data.List.Perm.Basic
import Mathlib.Data.List.Perm.Subperm
import Mathlib.Order.Defs.LinearOrder
import Mathlib.Algebra.Order.Group.Nat

/-!
# Paging by a high-water mark

A log is read in pages of at most `limit` elements, in the order of a key. A
page leaves behind one key, that of its last element, and the next page is taken
from the elements above it. Elements with one key are not told apart, so the
paging is complete exactly when no page boundary falls inside a group of them.
-/

namespace Framework

variable {α τ : Type*} [LinearOrder τ] (key : α → τ)

/-- What is left of the log above the mark. -/
def above (t : τ) (l : List α) : List α := l.filter fun a => t < key a

def countBelow (l : List α) (t : τ) : ℕ := l.countP fun a => key a < t

def countUpto (l : List α) (t : τ) : ℕ := l.countP fun a => key a ≤ t

/-- Position `m` of the ordered list is not inside a group of equal keys. -/
def CleanCut (l : List α) (m : ℕ) : Prop :=
  ∀ a ∈ l, m ≤ countBelow key l (key a) ∨ countUpto key l (key a) ≤ m

instance (l : List α) (m : ℕ) : Decidable (CleanCut key l m) :=
  inferInstanceAs (Decidable (∀ a ∈ l,
    m ≤ countBelow key l (key a) ∨ countUpto key l (key a) ≤ m))

/-- A page that is not empty: its last element, and what it leaves. -/
structure PageOf (limit : ℕ) (rest page : List α) (last : α) (later : List α) :
    Prop where
  perm : (page ++ later).Perm rest
  length : page.length = min limit rest.length
  last_mem : last ∈ page
  page_le : ∀ a ∈ page, key a ≤ key last
  later_ge : ∀ b ∈ later, key last ≤ key b

/-- The pages of a log, to the end. -/
inductive Pages (limit : ℕ) : List α → List (List α) → Prop where
  | nil : Pages limit [] []
  | cons {rest page later : List α} {last : α} {pages : List (List α)} :
      PageOf key limit rest page last later →
      Pages limit (above key (key last) rest) pages →
      Pages limit rest (page :: pages)

variable {key} {limit m : ℕ} {l l' rest page later : List α} {last : α}
  {pages : List (List α)}

theorem CleanCut.of_perm (hp : l.Perm l') (h : CleanCut key l m) :
    CleanCut key l' m := by
  intro a ha
  rcases h a (hp.symm.subset ha) with h | h
  · exact .inl (h.trans_eq (hp.countP_eq _))
  · exact .inr ((hp.countP_eq _).symm.trans_le h)

theorem cleanCut_zero (l : List α) : CleanCut key l 0 :=
  fun _ _ => .inl (Nat.zero_le _)

/-- At most one element has a given key. -/
theorem countUpto_le_of_nodup (h : (l.map key).Nodup) (t : τ) :
    countUpto key l t ≤ countBelow key l t + 1 := by
  induction l with
  | nil => exact Nat.zero_le _
  | cons b l ih =>
      obtain ⟨hnew, hrest⟩ := List.nodup_cons.mp h
      have hle := ih hrest
      unfold countUpto countBelow at hle ⊢
      rw [List.countP_cons, List.countP_cons]
      rcases lt_trichotomy (key b) t with hb | rfl | hb
      · simp only [hb, hb.le, decide_true, if_true]
        omega
      · have hsame : l.countP (fun a => key a ≤ key b) =
            l.countP fun a => key a < key b := by
          refine List.countP_congr fun a ha => ?_
          have hne : key a ≠ key b := fun heq =>
            hnew (heq ▸ List.mem_map_of_mem ha)
          rw [decide_eq_true_eq, decide_eq_true_eq]
          exact ⟨fun hab => lt_of_le_of_ne hab hne, le_of_lt⟩
        rw [hsame]
        simp
      · simp only [hb.not_ge, hb.not_gt, decide_false, Bool.false_eq_true,
          if_false]
        omega

/-- Elements with different keys are never cut apart. -/
theorem cleanCut_of_nodup (h : (l.map key).Nodup) (m : ℕ) : CleanCut key l m := by
  intro a _
  have hone := countUpto_le_of_nodup h (key a)
  by_cases hm : m ≤ countBelow key l (key a)
  · exact .inl hm
  · exact .inr (by omega)

theorem above_eq_self_iff {t : τ} : above key t l = l ↔ ∀ a ∈ l, t < key a := by
  simp [above]

/-- Moving the mark up forgets where it was. -/
theorem above_above {t u : τ} (htu : t ≤ u) :
    above key u (above key t l) = above key u l := by
  rw [above, above, List.filter_filter]
  refine List.filter_congr fun a _ => ?_
  rw [← Bool.decide_and, decide_eq_decide]
  exact and_iff_left_of_imp fun hu => htu.trans_lt hu

/-- Above an element of the log there is one key less. -/
theorem card_keys_above_lt [DecidableEq τ] {a : α} (ha : a ∈ l) :
    ((above key (key a) l).map key).toFinset.card <
      (l.map key).toFinset.card := by
  apply Finset.card_lt_card
  rw [Finset.ssubset_iff_of_subset]
  · refine ⟨key a, List.mem_toFinset.mpr (List.mem_map_of_mem ha), ?_⟩
    simpa [above] using fun x (_ : x ∈ l) (h : key a < key x) => h.ne'
  · intro t ht
    rw [List.mem_toFinset] at ht ⊢
    exact (List.filter_sublist.map key).subset ht

namespace PageOf

/-- The first `limit` elements in the order of the key. -/
theorem of_sorted (hperm : l.Perm rest)
    (hsorted : l.Pairwise fun a b => key a ≤ key b)
    (hlast : (l.take limit).getLast? = some last) :
    PageOf key limit rest (l.take limit) last (l.drop limit) where
  perm := (List.take_append_drop limit l).symm ▸ hperm
  length := by rw [List.length_take, hperm.length_eq]
  last_mem := List.mem_of_getLast? hlast
  page_le := by
    intro a ha
    obtain ⟨init, hinit⟩ := List.getLast?_eq_some_iff.mp hlast
    have hpage := hsorted.sublist (List.take_sublist limit l)
    rw [hinit, List.pairwise_append] at hpage
    rw [hinit, List.mem_append, List.mem_singleton] at ha
    rcases ha with ha | rfl
    · exact hpage.2.2 a ha last (List.mem_singleton.mpr rfl)
    · exact le_refl _
  later_ge := by
    intro b hb
    rw [← List.take_append_drop limit l, List.pairwise_append] at hsorted
    exact hsorted.2.2 last (List.mem_of_getLast? hlast) b hb

theorem above_perm (h : PageOf key limit rest page last later) :
    (above key (key last) rest).Perm (above key (key last) later) := by
  have hnil : above key (key last) page = [] := by
    rw [above, List.filter_eq_nil_iff]
    intro a ha
    simpa using h.page_le a ha
  have hperm := h.perm.symm.filter fun a => decide (key last < key a)
  rw [List.filter_append] at hperm
  change (above key (key last) rest).Perm
    (above key (key last) page ++ above key (key last) later) at hperm
  rwa [hnil, List.nil_append] at hperm

/-- Every page makes progress. -/
theorem length_above_lt (h : PageOf key limit rest page last later) :
    (above key (key last) rest).length < rest.length := by
  have hlen := h.above_perm.length_eq
  have hle : (above key (key last) later).length ≤ later.length :=
    List.length_filter_le _ _
  have hsum := h.perm.length_eq
  have hpos := List.length_pos_of_mem h.last_mem
  rw [List.length_append] at hsum
  omega

/-- A page that leaves something behind is full. -/
theorem length_page (h : PageOf key limit rest page last later) {b : α}
    (hb : b ∈ later) : page.length = limit := by
  have hlen := h.length
  have hsum := h.perm.length_eq
  have hpos := List.length_pos_of_mem hb
  rw [List.length_append] at hsum
  omega

theorem count_page_below (h : PageOf key limit rest page last later) :
    page.countP (fun a => key a < key last) < page.length := by
  refine lt_of_le_of_ne List.countP_le_length fun heq => ?_
  simpa using List.countP_eq_length.mp heq last h.last_mem

/-- The boundary after the page is clean exactly when the page closes its last
group. -/
theorem cleanCut_iff (h : PageOf key limit rest page last later) :
    CleanCut key rest limit ↔ ∀ b ∈ later, key last < key b := by
  constructor
  · intro hcut b hb
    by_contra hnot
    have heq : key b = key last := le_antisymm (not_lt.mp hnot) (h.later_ge b hb)
    have hlimit := h.length_page hb
    have hpage : page.countP (fun a => key a ≤ key last) = page.length :=
      List.countP_eq_length.mpr fun a ha => by simpa using h.page_le a ha
    have hlater : 0 < later.countP fun a => key a ≤ key last :=
      List.countP_pos_iff.mpr ⟨b, hb, by simp [heq]⟩
    have hlater' : later.countP (fun a => key a < key last) = 0 :=
      List.countP_eq_zero.mpr fun c hc => by simpa using h.later_ge c hc
    have hbelow := h.count_page_below
    rcases hcut last (h.perm.subset (List.mem_append_left _ h.last_mem)) with
      hc | hc
    · rw [countBelow, ← h.perm.countP_eq, List.countP_append] at hc
      omega
    · rw [countUpto, ← h.perm.countP_eq, List.countP_append] at hc
      omega
  · intro hclosed a ha
    rcases List.mem_append.mp (h.perm.symm.subset ha) with hp | hl
    · right
      have hlater : later.countP (fun b => key b ≤ key a) = 0 :=
        List.countP_eq_zero.mpr fun b hb => by
          simpa using (h.page_le a hp).trans_lt (hclosed b hb)
      have hpage : page.countP (fun b => key b ≤ key a) ≤ page.length :=
        List.countP_le_length
      have hlen := h.length
      rw [countUpto, ← h.perm.countP_eq, List.countP_append]
      omega
    · left
      have hpage : page.countP (fun b => key b < key a) = page.length :=
        List.countP_eq_length.mpr fun b hb => by
          simpa using (h.page_le b hb).trans_lt (hclosed a hl)
      have hlimit := h.length_page hl
      rw [countBelow, ← h.perm.countP_eq, List.countP_append]
      omega

/-- Beyond a closed page, positions count from its end. -/
theorem cleanCut_add_iff (h : PageOf key limit rest page last later)
    (hclosed : ∀ b ∈ later, key last < key b) :
    CleanCut key rest (limit + m) ↔ CleanCut key later m := by
  have hpage : ∀ a ∈ page, countUpto key rest (key a) ≤ limit + m := by
    intro a ha
    have hlater : later.countP (fun b => key b ≤ key a) = 0 :=
      List.countP_eq_zero.mpr fun b hb => by
        simpa using (h.page_le a ha).trans_lt (hclosed b hb)
    have hle : page.countP (fun b => key b ≤ key a) ≤ page.length :=
      List.countP_le_length
    have hlen := h.length
    rw [countUpto, ← h.perm.countP_eq, List.countP_append]
    omega
  have hlater : ∀ a ∈ later,
      countBelow key rest (key a) = limit + countBelow key later (key a) ∧
      countUpto key rest (key a) = limit + countUpto key later (key a) := by
    intro a ha
    have hlimit := h.length_page ha
    have hlt : ∀ b ∈ page, key b < key a := fun b hb =>
      (h.page_le b hb).trans_lt (hclosed a ha)
    have h₁ : page.countP (fun b => key b < key a) = page.length :=
      List.countP_eq_length.mpr fun b hb => by simpa using hlt b hb
    have h₂ : page.countP (fun b => key b ≤ key a) = page.length :=
      List.countP_eq_length.mpr fun b hb => by simpa using (hlt b hb).le
    rw [countBelow, countUpto, ← h.perm.countP_eq, ← h.perm.countP_eq,
      List.countP_append, List.countP_append, h₁, h₂, hlimit]
    exact ⟨rfl, rfl⟩
  constructor
  · intro hcut a ha
    obtain ⟨h₁, h₂⟩ := hlater a ha
    have := hcut a (h.perm.subset (List.mem_append_right _ ha))
    omega
  · intro hcut a ha
    rcases List.mem_append.mp (h.perm.symm.subset ha) with hp | hl
    · exact .inr (hpage a hp)
    · obtain ⟨h₁, h₂⟩ := hlater a hl
      have := hcut a hl
      omega

/-- The pages after this one exhaust what it leaves exactly when it closes its
last group and they exhaust what is above the mark. -/
theorem perm_later_iff (h : PageOf key limit rest page last later)
    {xs : List α} (hxs : xs.Subperm (above key (key last) rest)) :
    xs.Perm later ↔ (∀ b ∈ later, key last < key b) ∧
      xs.Perm (above key (key last) rest) := by
  have habove := h.above_perm
  constructor
  · intro hperm
    have hlen : later.length ≤ (above key (key last) later).length :=
      hperm.length_eq.symm.le.trans (hxs.length_le.trans habove.length_eq.le)
    have hall : above key (key last) later = later :=
      List.filter_sublist.eq_of_length_le hlen
    exact ⟨above_eq_self_iff.mp hall, hperm.trans (hall ▸ habove.symm)⟩
  · rintro ⟨hclosed, hperm⟩
    rw [above_eq_self_iff.mpr hclosed] at habove
    exact hperm.trans habove

end PageOf

namespace Pages

/-- No element is read twice. -/
theorem subperm (h : Pages key limit rest pages) :
    pages.flatten.Subperm rest := by
  induction h with
  | nil => exact List.Subperm.refl _
  | @cons rest page later last pages hpage _ ih =>
      have hlater : pages.flatten.Subperm later :=
        (ih.trans hpage.above_perm.subperm).trans List.filter_sublist.subperm
      have happend : (page ++ pages.flatten).Subperm (page ++ later) :=
        (List.subperm_append_left page).mpr hlater
      exact happend.trans hpage.perm.subperm

/-- **Completeness**: every element is read, once, exactly when each multiple
of the limit is a clean cut. -/
theorem perm_iff (h : Pages key limit rest pages) :
    pages.flatten.Perm rest ↔ ∀ k, CleanCut key rest (k * limit) := by
  induction h with
  | nil => exact ⟨fun _ k a ha => absurd ha List.not_mem_nil, fun _ => .refl _⟩
  | @cons rest page later last pages hpage hrest ih =>
      have hsplit : (page :: pages).flatten.Perm rest ↔
          pages.flatten.Perm later := by
        rw [List.flatten_cons]
        constructor
        · intro hp
          exact (List.perm_append_left_iff page).mp (hp.trans hpage.perm.symm)
        · intro hp
          exact ((List.perm_append_left_iff page).mpr hp).trans hpage.perm
      rw [hsplit, hpage.perm_later_iff hrest.subperm, ih]
      constructor
      · rintro ⟨hclosed, hcuts⟩ k
        have habove := hpage.above_perm
        rw [above_eq_self_iff.mpr hclosed] at habove
        match k with
        | 0 =>
            rw [Nat.zero_mul]
            exact cleanCut_zero rest
        | k + 1 =>
            rw [Nat.succ_mul, Nat.add_comm]
            exact (hpage.cleanCut_add_iff hclosed).mpr
              ((hcuts k).of_perm habove)
      · intro hcuts
        have hclosed := hpage.cleanCut_iff.mp (Nat.one_mul limit ▸ hcuts 1)
        have habove := hpage.above_perm
        rw [above_eq_self_iff.mpr hclosed] at habove
        refine ⟨hclosed, fun k => ?_⟩
        have hk := hcuts (k + 1)
        rw [Nat.succ_mul, Nat.add_comm] at hk
        exact ((hpage.cleanCut_add_iff hclosed).mp hk).of_perm habove.symm

end Pages

end Framework
