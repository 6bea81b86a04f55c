import Mathlib.Data.Nat.Notation
import Mathlib.Data.Rat.Defs
import Mathlib.Order.Lattice

/-!
# JSON documents

Documents as `json.loads` builds them: a text is a list of code points, where a
surrogate may stand alone, and a number may be infinite or `NaN`. `json.dumps`
writes them out again, each text escaped in UTF-16 code units. A document is
`storable` when a reader that keeps to Unicode and to the numbers of the JSON
grammar, and has no null character, takes what is written.
-/

namespace Framework

/-! ## Texts -/

/-- A Python `str`: code points, surrogates among them. -/
abbrev CodePoints := List (Fin 0x110000)

/-- The code units a code point is escaped in. -/
def codeUnits (c : ℕ) : List ℕ :=
  if c < 0x10000 then [c]
  else [0xD800 + (c - 0x10000) / 0x400, 0xDC00 + (c - 0x10000) % 0x400]

def isHighSurrogate (u : ℕ) : Bool := 0xD800 ≤ u ∧ u < 0xDC00

def isLowSurrogate (u : ℕ) : Bool := 0xDC00 ≤ u ∧ u < 0xE000

/-- Every high surrogate is followed by a low one and every low one follows a
high one; `high` says that a high one has just been read. -/
def paired : (high : Bool) → List ℕ → Bool
  | high, [] => !high
  | true, u :: us => isLowSurrogate u && paired false us
  | false, u :: us => !isLowSurrogate u && paired (isHighSurrogate u) us

/-- A text of characters alone. -/
def codePoints (s : String) : CodePoints :=
  s.toList.map fun c => ⟨c.toNat, by
    rcases c.valid with h | h
    · exact Nat.lt_trans h (by decide)
    · exact h.2⟩

namespace CodePoints

/-- A reader of the escaped text takes it. -/
def storable (s : CodePoints) : Bool :=
  s.all (fun c => c.val ≠ 0) && paired false (s.flatMap fun c => codeUnits c.val)

theorem storable_iff {s : CodePoints} : s.storable = true ↔
    (∀ c ∈ s, c.val ≠ 0) ∧ paired false (s.flatMap fun c => codeUnits c.val) := by
  rw [storable, Bool.and_eq_true, List.all_eq_true]
  simp only [decide_eq_true_eq]

end CodePoints

/-- The units of a code point that is no surrogate are taken one after another. -/
theorem paired_codeUnits {c : ℕ} (hc : c < 0xD800 ∨ 0xDFFF < c) (h : c < 0x110000)
    (us : List ℕ) : paired false (codeUnits c ++ us) = paired false us := by
  unfold codeUnits
  split
  · have hlow : isLowSurrogate c = false := by
      simp only [isLowSurrogate, decide_eq_false_iff_not]
      omega
    have hhigh : isHighSurrogate c = false := by
      simp only [isHighSurrogate, decide_eq_false_iff_not]
      omega
    simp only [List.singleton_append, paired, hlow, hhigh, Bool.not_false,
      Bool.true_and]
  · -- a code point beyond the first plane is a high and a low one
    have hhigh : isHighSurrogate (0xD800 + (c - 0x10000) / 0x400) = true := by
      simp only [isHighSurrogate, decide_eq_true_eq]
      omega
    have hnot : isLowSurrogate (0xD800 + (c - 0x10000) / 0x400) = false := by
      simp only [isLowSurrogate, decide_eq_false_iff_not]
      omega
    have hlow : isLowSurrogate (0xDC00 + (c - 0x10000) % 0x400) = true := by
      simp only [isLowSurrogate, decide_eq_true_eq]
      omega
    simp only [List.cons_append, List.nil_append, paired, hhigh, hnot, hlow,
      Bool.not_false, Bool.true_and]

theorem paired_chars : ∀ cs : List Char,
    paired false (cs.flatMap fun c => codeUnits c.toNat) = true
  | [] => rfl
  | c :: cs => by
      rw [List.flatMap_cons, paired_codeUnits ?_ ?_, paired_chars cs]
      · rcases c.valid with h | h
        · exact .inl h
        · exact .inr h.1
      · rcases c.valid with h | h
        · exact Nat.lt_trans h (by decide)
        · exact h.2

/-- **Only surrogates that stand alone are refused**: a text of characters is
taken when none of them is null. -/
theorem storable_codePoints_iff {s : String} :
    (codePoints s).storable = true ↔ '\x00' ∉ s.toList := by
  have hunits : ((codePoints s).flatMap fun c => codeUnits c.val) =
      s.toList.flatMap fun c => codeUnits c.toNat := List.flatMap_map ..
  rw [CodePoints.storable_iff, hunits, and_iff_left (paired_chars _), codePoints,
    List.forall_mem_map]
  constructor
  · intro h hnul
    exact h _ hnul rfl
  · intro h c hc hzero
    have heq : c = '\x00' := Char.toNat_inj.mp hzero
    exact h (heq ▸ hc)

/-- A surrogate pair in two code points reads as one character; half of one is
refused. -/
example : CodePoints.storable [⟨0xD83D, by decide⟩, ⟨0xDE00, by decide⟩] = true ∧
    CodePoints.storable [⟨0xD83D, by decide⟩] = false := by decide

/-! ## Documents -/

/-- A Python `float`. -/
inductive JsonFloat where
  | finite (q : ℚ)
  | infinity (negative : Bool)
  | nan
deriving DecidableEq

def JsonFloat.isFinite : JsonFloat → Bool
  | .finite _ => true
  | _ => false

mutual

inductive Json where
  | null
  | bool (b : Bool)
  | int (n : ℤ)
  | float (x : JsonFloat)
  | str (s : CodePoints)
  | array (items : JsonItems)
  | object (fields : JsonFields)

inductive JsonItems where
  | nil
  | cons (item : Json) (items : JsonItems)

inductive JsonFields where
  | nil
  | cons (key : CodePoints) (value : Json) (fields : JsonFields)

end

deriving instance DecidableEq for Json, JsonItems, JsonFields

mutual

def Json.storable : Json → Bool
  | .float x => x.isFinite
  | .str s => s.storable
  | .array items => items.storable
  | .object fields => fields.storable
  | _ => true

def JsonItems.storable : JsonItems → Bool
  | .nil => true
  | .cons item items => item.storable && items.storable

def JsonFields.storable : JsonFields → Bool
  | .nil => true
  | .cons key value fields =>
      key.storable && value.storable && fields.storable

end

mutual

/-- Every text of a document, keys and values. -/
def Json.texts : Json → List CodePoints
  | .str s => [s]
  | .array items => items.texts
  | .object fields => fields.texts
  | _ => []

def JsonItems.texts : JsonItems → List CodePoints
  | .nil => []
  | .cons item items => item.texts ++ items.texts

def JsonFields.texts : JsonFields → List CodePoints
  | .nil => []
  | .cons key value fields => key :: value.texts ++ fields.texts

end

mutual

/-- Every `float` of a document. -/
def Json.floats : Json → List JsonFloat
  | .float x => [x]
  | .array items => items.floats
  | .object fields => fields.floats
  | _ => []

def JsonItems.floats : JsonItems → List JsonFloat
  | .nil => []
  | .cons item items => item.floats ++ items.floats

def JsonFields.floats : JsonFields → List JsonFloat
  | .nil => []
  | .cons _ value fields => value.floats ++ fields.floats

end

mutual

/-- **A document is storable** when its texts are and its numbers are finite. -/
theorem Json.storable_iff : ∀ j : Json, j.storable = true ↔
    (∀ s ∈ j.texts, s.storable = true) ∧ ∀ x ∈ j.floats, x.isFinite = true
  | .null | .bool _ | .int _ => by simp [Json.storable, Json.texts, Json.floats]
  | .float x => by simp [Json.storable, Json.texts, Json.floats]
  | .str s => by simp [Json.storable, Json.texts, Json.floats]
  | .array items => by
      simp only [Json.storable, Json.texts, Json.floats]
      exact items.storable_iff
  | .object fields => by
      simp only [Json.storable, Json.texts, Json.floats]
      exact fields.storable_iff

theorem JsonItems.storable_iff : ∀ items : JsonItems, items.storable = true ↔
    (∀ s ∈ items.texts, s.storable = true) ∧
      ∀ x ∈ items.floats, x.isFinite = true
  | .nil => by simp [JsonItems.storable, JsonItems.texts, JsonItems.floats]
  | .cons item items => by
      simp only [JsonItems.storable, JsonItems.texts, JsonItems.floats,
        Bool.and_eq_true, List.forall_mem_append]
      rw [item.storable_iff, items.storable_iff, and_and_and_comm]

theorem JsonFields.storable_iff : ∀ fields : JsonFields, fields.storable = true ↔
    (∀ s ∈ fields.texts, s.storable = true) ∧
      ∀ x ∈ fields.floats, x.isFinite = true
  | .nil => by simp [JsonFields.storable, JsonFields.texts, JsonFields.floats]
  | .cons key value fields => by
      simp only [JsonFields.storable, JsonFields.texts, JsonFields.floats,
        Bool.and_eq_true, List.cons_append, List.forall_mem_cons,
        List.forall_mem_append]
      rw [value.storable_iff, fields.storable_iff]
      constructor
      · rintro ⟨⟨hkey, htexts, hfloats⟩, htexts', hfloats'⟩
        exact ⟨⟨hkey, htexts, htexts'⟩, hfloats, hfloats'⟩
      · rintro ⟨⟨hkey, htexts, htexts'⟩, hfloats, hfloats'⟩
        exact ⟨⟨hkey, htexts, hfloats⟩, htexts', hfloats'⟩

end

end Framework
