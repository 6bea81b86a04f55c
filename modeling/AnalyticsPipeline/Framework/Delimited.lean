import AnalyticsPipeline.Framework.Digits

/-!
# Delimited fields

Reading the fields of a record back from one text, field after field. `Reads T f v`
says that a text which starts with the rendering `f` of a record, and goes on as
`T` allows, fixes the value `v` of the record and where the rendering ends.
Fixed widths are read anywhere; an optional field is read if no continuation
looks as if the field were there.
-/

namespace Framework

variable {α δ ε γ : Type}

def Reads (T : List γ → Prop) (f : α → List γ) (v : α → δ) : Prop :=
  ∀ ⦃a b s t⦄, T s → T t → f a ++ s = f b ++ t → v a = v b ∧ s = t

namespace Reads

variable {S T : List γ → Prop} {f g : α → List γ} {v : α → δ} {u : α → ε}

/-- Any value that the values read determine. -/
theorem map (h : Reads T f v) (hu : ∀ a b, v a = v b → u a = u b) :
    Reads T f u := by
  intro a b s t hs ht heq
  obtain ⟨hv, hrest⟩ := h hs ht heq
  exact ⟨hu a b hv, hrest⟩

/-- A record read as a part of another. -/
theorem comap {β : Type} (h : Reads T f v) (k : β → α) :
    Reads T (fun b => f (k b)) (fun b => v (k b)) :=
  fun _ _ _ _ hs ht heq => h hs ht heq

theorem of_length (hlength : ∀ a b, (f a).length = (f b).length)
    (hf : ∀ a b, f a = f b → v a = v b) : Reads T f v := by
  intro a b s t _ _ heq
  obtain ⟨hsame, hrest⟩ := List.append_inj heq (hlength a b)
  exact ⟨hf a b hsame, hrest⟩

/-- One field after another. -/
theorem append (hf : Reads S f v) (hg : Reads T g u)
    (hS : ∀ a t, T t → S (g a ++ t)) :
    Reads T (fun a => f a ++ g a) (fun a => (v a, u a)) := by
  intro a b s t hs ht heq
  rw [List.append_assoc, List.append_assoc] at heq
  obtain ⟨hv, hrest⟩ := hf (hS a s hs) (hS b t ht) heq
  obtain ⟨hu, hrest⟩ := hg hs ht hrest
  exact ⟨Prod.ext hv hu, hrest⟩

/-- A field after one that is read anywhere. -/
theorem followed (hf : Reads (fun _ => True) f v) (hg : Reads T g u) :
    Reads T (fun a => f a ++ g a) (fun a => (v a, u a)) :=
  hf.append hg fun _ _ _ => trivial

/-- A fixed text before a field. -/
theorem after (l : List γ) (hf : Reads T f v) :
    Reads T (fun a => l ++ f a) v := by
  intro a b s t hs ht heq
  rw [List.append_assoc, List.append_assoc, List.append_cancel_left_eq] at heq
  exact hf hs ht heq

/-- A field left out where `p` holds. The text `P` of a continuation tells
whether the field is there. -/
theorem optional {p : α → Prop} [DecidablePred p] {P : List γ → Prop}
    (hg : Reads T g v) (hp : ∀ a b, p a → p b → v a = v b)
    (hthere : ∀ a t, ¬ p a → T t → P (g a ++ t)) (hT : ∀ t, T t → ¬ P t) :
    Reads T (fun a => if p a then [] else g a) v := by
  intro a b s t hs ht heq
  dsimp only at heq
  by_cases ha : p a
  · by_cases hb : p b
    · rw [if_pos ha, if_pos hb] at heq
      exact ⟨hp a b ha hb, heq⟩
    · rw [if_pos ha, if_neg hb, List.nil_append] at heq
      exact absurd (heq ▸ hthere b t hb ht) (hT s hs)
  · by_cases hb : p b
    · rw [if_neg ha, if_pos hb, List.nil_append] at heq
      exact absurd (heq ▸ hthere a s ha hs) (hT t ht)
    · rw [if_neg ha, if_neg hb] at heq
      exact hg hs ht heq

end Reads

/-! ## Numerals -/

section Numerals

variable {T : List Char → Prop} {n : α → ℕ} {w : ℕ}

/-- A zero-padded decimal numeral. -/
theorem reads_pad (hw : w ≠ 0) (hn : ∀ a, n a < 10 ^ w) :
    Reads T (fun a => pad 10 w (n a)) n :=
  .of_length (fun _ _ => by rw [length_pad, length_pad]) fun a b heq =>
    pad_injective (by decide) (by decide) hw (hn a) (hn b) heq

/-- The same after a separator. -/
theorem reads_cons_pad (c : Char) (hw : w ≠ 0) (hn : ∀ a, n a < 10 ^ w) :
    Reads T (fun a => c :: pad 10 w (n a)) n :=
  (reads_pad hw hn).after [c]

end Numerals

end Framework
