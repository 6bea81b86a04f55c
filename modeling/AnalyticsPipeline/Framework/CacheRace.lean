import Mathlib.Algebra.Group.Basic
import Mathlib.Data.List.Induction

/-!
# A cache rebuilt beside its writer

The writer adds to a table and then, in a second step, to a cached copy of it.
The reader looks whether anything is cached; if not, it reads the table and puts
what it has read in place of the cache. Nothing keeps the steps of the two
apart, so what is added may be in the cache twice, or not at all.
-/

namespace Framework

inductive CacheStep where
  | check | load | store
  | commit | push
deriving DecidableEq

/-- The steps of the reader. -/
def CacheStep.reads : CacheStep → Bool
  | check | load | store => true
  | commit | push => false

structure CacheState (G : Type*) where
  table : G
  cache : Option G
  copy : G

variable {α G : Type*}

/-- All ways of shuffling two lists. -/
def interleave : List α → List α → List (List α)
  | [], m => [m]
  | l, [] => [l]
  | a :: l, b :: m =>
      (interleave l (b :: m)).map (a :: ·) ++ (interleave (a :: l) m).map (b :: ·)

theorem interleave_nil_left (m : List α) : interleave [] m = [m] := by
  rw [interleave]

theorem interleave_nil_right (l : List α) : interleave l [] = [l] := by
  cases l <;> simp [interleave]

/-- A list shuffles what is left of it and what is filtered out. -/
theorem mem_interleave_filter (p : α → Bool) : ∀ l : List α,
    l ∈ interleave (l.filter p) (l.filter fun a => !p a)
  | [] => by simp [interleave]
  | a :: l => by
      have ih := mem_interleave_filter p l
      cases hp : p a with
      | true =>
          rw [List.filter_cons_of_pos hp, List.filter_cons_of_neg (by simp [hp])]
          cases hm : l.filter fun a => !p a with
          | nil =>
              rw [hm, interleave_nil_right, List.mem_singleton] at ih
              rw [interleave_nil_right, ← ih]
              exact List.mem_singleton.mpr rfl
          | cons b m =>
              rw [hm] at ih
              rw [interleave]
              exact List.mem_append_left _ (List.mem_map_of_mem ih)
      | false =>
          rw [List.filter_cons_of_neg (by simp [hp]),
            List.filter_cons_of_pos (by simp [hp])]
          cases hl : l.filter p with
          | nil =>
              rw [hl, interleave_nil_left, List.mem_singleton] at ih
              rw [interleave_nil_left, ← ih]
              exact List.mem_singleton.mpr rfl
          | cons b m =>
              rw [hl] at ih
              rw [interleave]
              exact List.mem_append_right _ (List.mem_map_of_mem ih)

/-- The one step comes before the other. -/
def Before (a b : α) (l : List α) : Prop := [a, b].Sublist l

theorem before_nil {a b : α} : ¬ Before a b [] := by
  intro h
  cases h

theorem before_cons {a b c : α} {l : List α} :
    Before a b (c :: l) ↔ a = c ∧ b ∈ l ∨ Before a b l := by
  constructor
  · intro h
    cases h with
    | cons _ h => exact .inr h
    | cons_cons _ h => exact .inl ⟨rfl, List.singleton_sublist.mp h⟩
  · rintro (⟨rfl, hb⟩ | h)
    · exact .cons_cons a (List.singleton_sublist.mpr hb)
    · exact .cons c h

/-- A new last step comes after the others. -/
theorem before_concat {a b c : α} {l : List α} :
    Before a b (l ++ [c]) ↔ Before a b l ∨ a ∈ l ∧ b = c := by
  induction l with
  | nil => simp [before_cons, before_nil]
  | cons d l ih =>
      rw [List.cons_append, before_cons, ih, before_cons, List.mem_append,
        List.mem_singleton, List.mem_cons]
      tauto

theorem before_concat_of_ne {a b c : α} {l : List α} (hne : b ≠ c) :
    Before a b (l ++ [c]) ↔ Before a b l := by
  rw [before_concat]
  exact or_iff_left fun h => hne h.2

theorem Before.left_mem {a b : α} {l : List α} (h : Before a b l) : a ∈ l :=
  h.subset List.mem_cons_self

theorem Before.right_mem {a b : α} {l : List α} (h : Before a b l) : b ∈ l :=
  h.subset (List.mem_cons_of_mem a List.mem_cons_self)

variable [AddCommGroup G]

namespace CacheState

/-- `keeps`: whether what is stored stays; `delta`: what the writer adds to the
table; `gain`: what becomes of a cached value it adds to. -/
def next (keeps : Bool) (delta : G) (gain : G → G) (s : CacheState G) :
    CacheStep → CacheState G
  | .check => s
  | .load => { s with copy := s.table }
  | .store => { s with cache := if keeps then some s.copy else none }
  | .commit => { s with table := s.table + delta }
  | .push => { s with cache := some (gain (s.cache.getD 0)) }

/-- From a table that is not cached. -/
def run (keeps : Bool) (delta : G) (gain : G → G) (table : G)
    (l : List CacheStep) : CacheState G :=
  l.foldl (next keeps delta gain) ⟨table, none, 0⟩

def Consistent (s : CacheState G) : Prop :=
  s.cache = none ∨ s.cache = some s.table

end CacheState

/-- Reader and writer have finished. A reader that finds something cached stops;
one that finds the table empty stores nothing. A writer that has nothing to add
does not push. -/
structure CacheRace (delta table : G) (l : List CacheStep) : Prop where
  reader : l.filter CacheStep.reads = [.check] ∧ Before .push .check l ∨
    ¬ Before .push .check l ∧
      (l.filter CacheStep.reads = [.check, .load] ∧ table = 0 ∨
        l.filter CacheStep.reads = [.check, .load, .store])
  writer : (l.filter fun s => !s.reads) = [.commit, .push] ∨
    delta = 0 ∧ ((l.filter fun s => !s.reads) = [] ∨
      (l.filter fun s => !s.reads) = [.commit])

/-- The cache gains what the writer adds, as long as nothing is added twice; then
it may round, but not to the right value. -/
structure Gains (gain : G → G) (delta table : G) : Prop where
  empty : gain 0 = delta
  once : gain table = table + delta
  twice : gain (table + delta) = table + delta ↔ delta = 0

/-- The orders in which nothing is lost or added twice. -/
def Composes (keeps : Bool) (delta table : G) (l : List CacheStep) : Prop :=
  .push ∉ l ∨ Before .push .check l ∧ table = 0 ∨
    ¬ Before .push .check l ∧ (.store ∉ l ∨
      keeps = true ∧ (delta = 0 ∨ (Before .load .commit l ↔
        Before .store .push l)) ∨
      keeps = false ∧ (Before .push .store l ∨ table = 0))

section Races

variable {keeps : Bool} {delta table : G} {gain : G → G} {l : List CacheStep}

open CacheStep

/-- One proof for each way the two may finish, over all their orders. -/
theorem CacheRace.cases {P : G → G → List CacheStep → Prop}
    (h : CacheRace delta table l)
    (hit : ∀ delta table, ∀ l ∈ interleave [check] [commit, push],
      Before push check l → P delta table l)
    (skipped : ∀ delta, ∀ l ∈ interleave [check, load] [commit, push],
      ¬ Before push check l → P delta 0 l)
    (stored : ∀ delta table, ∀ l ∈ interleave [check, load, store] [commit, push],
      ¬ Before push check l → P delta table l)
    (unwritten : ∀ table, ∀ r ∈ [[check], [check, load], [check, load, store]],
      ∀ w ∈ [[], [commit]], ∀ l ∈ interleave r w, P 0 table l) :
    P delta table l := by
  have hl := mem_interleave_filter CacheStep.reads l
  -- the trace shuffles the steps of the reader with those of the writer
  rcases h.writer with hw | ⟨rfl, hw⟩
  · rw [hw] at hl
    rcases h.reader with ⟨hr, hpush⟩ | ⟨hpush, ⟨hr, rfl⟩ | hr⟩ <;> rw [hr] at hl
    · exact hit delta table l hl hpush
    · exact skipped delta l hl hpush
    · exact stored delta table l hl hpush
  · refine unwritten table _ ?_ _ ?_ l hl
    · rcases h.reader with ⟨hr, -⟩ | ⟨-, ⟨hr, -⟩ | hr⟩ <;> simp [hr]
    · rcases hw with hw | hw <;> simp [hw]

/-- **The cache is right in the end** if and only if the order composes. -/
theorem CacheRace.consistent_iff (h : CacheRace delta table l)
    (hgain : Gains gain delta table) :
    (CacheState.run keeps delta gain table l).Consistent ↔
      Composes keeps delta table l := by
  obtain ⟨hempty, honce, htwice⟩ := hgain
  revert hempty honce htwice
  refine h.cases (P := fun delta table l => gain 0 = delta →
    gain table = table + delta →
    (gain (table + delta) = table + delta ↔ delta = 0) →
    ((CacheState.run keeps delta gain table l).Consistent ↔
      Composes keeps delta table l)) ?_ ?_ ?_ ?_ <;>
  cases keeps <;>
  simp +contextual [interleave, before_cons, before_nil, CacheState.run,
    CacheState.next, CacheState.Consistent, Composes]

theorem CacheRace.run_table (h : CacheRace delta table l) :
    (CacheState.run keeps delta gain table l).table = table + delta := by
  refine h.cases (P := fun delta table l =>
    (CacheState.run keeps delta gain table l).table = table + delta) ?_ ?_ ?_ ?_ <;>
  simp [interleave, CacheState.run, CacheState.next]

/-- What the reader has read. -/
theorem CacheRace.run_copy (h : CacheRace delta table l) (hload : load ∈ l) :
    Before commit load l ∧
        (CacheState.run keeps delta gain table l).copy = table + delta ∨
      ¬ Before commit load l ∧
        (CacheState.run keeps delta gain table l).copy = table := by
  revert hload
  refine h.cases (P := fun delta table l => load ∈ l →
    (Before commit load l ∧
        (CacheState.run keeps delta gain table l).copy = table + delta ∨
      ¬ Before commit load l ∧
        (CacheState.run keeps delta gain table l).copy = table)) ?_ ?_ ?_ ?_ <;>
  simp [interleave, before_cons, before_nil, CacheState.run, CacheState.next]

/-! ## Caches that represent values -/

variable {C : Type*} {view : C → G} {stored : C} {pushed : Option C → C}

/-- What is cached in the end, when `stored` is put in place of the cache and
`pushed` adds to it. -/
def cacheAfter (keeps : Bool) (stored : C) (pushed : Option C → C)
    (l : List CacheStep) : Option C :=
  l.foldl (fun c s => match s with
    | .store => if keeps then some stored else none
    | .push => some (pushed c)
    | _ => c) none

/-- Only `push` and `store` touch the cache. -/
theorem cacheAfter_concat (s : CacheStep) : cacheAfter keeps stored pushed
    (l ++ [s]) = match s with
      | .store => if keeps then some stored else none
      | .push => some (pushed (cacheAfter keeps stored pushed l))
      | _ => cacheAfter keeps stored pushed l := by
  rw [cacheAfter, List.foldl_append]
  cases s <;> rfl

theorem cacheAfter_congr {stored' : C} {pushed' : Option C → C}
    (hstored : store ∈ l → stored = stored') (hpushed : push ∈ l →
      pushed = pushed') : cacheAfter keeps stored pushed l =
        cacheAfter keeps stored' pushed' l := by
  induction l using List.reverseRecOn with
  | nil => rfl
  | append_singleton l s ih =>
      have ih := ih (fun h => hstored (List.mem_append_left _ h))
        (fun h => hpushed (List.mem_append_left _ h))
      rw [cacheAfter_concat, cacheAfter_concat, ih]
      cases s with
      | store => rw [hstored (by simp)]
      | push => rw [hpushed (by simp)]
      | _ => rfl

/-- Before anything is stored, what is cached was pushed. -/
theorem cacheAfter_isSome_iff (hstore : store ∉ l) :
    (cacheAfter keeps stored pushed l).isSome = true ↔ push ∈ l := by
  induction l using List.reverseRecOn with
  | nil => simp [cacheAfter]
  | append_singleton l s ih =>
      rw [List.mem_append, List.mem_singleton, not_or] at hstore
      rw [cacheAfter_concat, List.mem_append, List.mem_singleton,
        ← ih hstore.1]
      cases s with
      | store => exact absurd rfl hstore.2
      | _ => simp

theorem CacheRace.view_cacheAfter (h : CacheRace delta table l)
    (hstored : store ∈ l →
      view stored = (CacheState.run keeps delta gain table l).copy)
    (hempty : push ∈ l → view (pushed none) = gain 0)
    (hpushed : push ∈ l → store ∈ l →
      view (pushed (some stored)) = gain (view stored)) :
    (cacheAfter keeps stored pushed l).map view =
      (CacheState.run keeps delta gain table l).cache := by
  revert hstored hempty hpushed
  refine h.cases (P := fun delta table l => (store ∈ l →
      view stored = (CacheState.run keeps delta gain table l).copy) →
    (push ∈ l → view (pushed none) = gain 0) →
    (push ∈ l → store ∈ l →
      view (pushed (some stored)) = gain (view stored)) →
    (cacheAfter keeps stored pushed l).map view =
      (CacheState.run keeps delta gain table l).cache) ?_ ?_ ?_ ?_ <;>
  cases keeps <;>
  simp +contextual [interleave, before_cons, before_nil, CacheState.run,
    CacheState.next, cacheAfter]

end Races

end Framework
