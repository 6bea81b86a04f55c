import Mathlib.Algebra.GroupWithZero.Nat
import Mathlib.Data.Nat.Notation
import Mathlib.Algebra.Order.Group.Nat
import Mathlib.Data.List.DropRight

/-!
# Numerals, UUID text and binary64 integers

The textual and numeric formats the services exchange: zero-padded numerals in
a base up to sixteen, the integer literals that Python reads, the hyphenated form
of a 128-bit identifier, and the rounding of an integer to the nearest IEEE 754
binary64 value.
-/

namespace Framework

/-! ## Numerals -/

/-- The last `w` digits of `n` in base `b`, most significant first. -/
def pad (b : ℕ) : ℕ → ℕ → List Char
  | 0, _ => []
  | w + 1, n => pad b w (n / b) ++ [Nat.digitChar (n % b)]

def digitValue? (b : ℕ) (c : Char) : Option ℕ :=
  (List.range b).find? (fun d => Nat.digitChar d = c)

/-- `int(s, b)` on plain digits; `none` where Python raises `ValueError`. -/
def numeral? (b : ℕ) (cs : List Char) : Option ℕ :=
  if cs = [] then none
  else cs.foldlM (fun acc c => (digitValue? b c).map (acc * b + ·)) 0

@[simp] theorem length_pad (b : ℕ) : ∀ w n, (pad b w n).length = w
  | 0, _ => rfl
  | w + 1, n => by simp [pad, length_pad b w]

theorem mem_pad {b : ℕ} (hb : 0 < b) {c : Char} : ∀ {w n},
    c ∈ pad b w n → ∃ d < b, c = Nat.digitChar d
  | 0, _, h => by simp [pad] at h
  | w + 1, n, h => by
      rcases List.mem_append.mp h with h | h
      · exact mem_pad hb h
      · exact ⟨n % b, Nat.mod_lt _ hb, List.mem_singleton.mp h⟩

theorem digitChar_inj : ∀ d < 16, ∀ e < 16,
    Nat.digitChar d = Nat.digitChar e → d = e := by decide

theorem digitChar_ne_hyphen : ∀ d < 16, Nat.digitChar d ≠ '-' := by decide

theorem digitValue?_digitChar {b d : ℕ} (hb : b ≤ 16) (hd : d < b) :
    digitValue? b (Nat.digitChar d) = some d := by
  unfold digitValue?
  rw [List.find?_range_eq_some]
  refine ⟨by simp, List.mem_range.mpr hd, fun e he => ?_⟩
  have hne : ¬ Nat.digitChar e = Nat.digitChar d := fun h => by
    have := digitChar_inj e (by omega) d (by omega) h
    omega
  simpa using hne

theorem foldlM_pad {b : ℕ} (hb : 0 < b) (hb' : b ≤ 16) : ∀ w n acc,
    n < b ^ w →
      (pad b w n).foldlM
        (fun acc c => (digitValue? b c).map (acc * b + ·)) acc =
          some (acc * b ^ w + n)
  | 0, n, acc, h => by
      have hn : n = 0 := by simpa using h
      simp [pad, hn]
  | w + 1, n, acc, h => by
      have hdiv : n / b < b ^ w := by
        rw [Nat.div_lt_iff_lt_mul hb, ← Nat.pow_succ]
        exact h
      rw [pad, List.foldlM_append, foldlM_pad hb hb' w (n / b) acc hdiv]
      have hdigit := digitValue?_digitChar hb' (Nat.mod_lt n hb)
      simp only [Option.bind_eq_bind, Option.bind_some, List.foldlM_cons,
        List.foldlM_nil, hdigit, Option.map_some, Option.pure_def,
        Option.some.injEq]
      have hn := Nat.div_add_mod n b
      rw [Nat.pow_succ, Nat.add_mul, Nat.mul_assoc, Nat.mul_comm (n / b) b]
      omega

/-- **Numerals round-trip.** -/
theorem numeral?_pad {b w n : ℕ} (hb : 0 < b) (hb' : b ≤ 16)
    (hw : w ≠ 0) (hn : n < b ^ w) : numeral? b (pad b w n) = some n := by
  have hne : pad b w n ≠ [] := fun h => hw (by simpa using congrArg List.length h)
  rw [numeral?, if_neg hne, foldlM_pad hb hb' w n 0 hn, Nat.zero_mul,
    Nat.zero_add]

theorem hyphen_not_mem_pad {b w n : ℕ} (hb : 0 < b) (hb' : b ≤ 16) :
    '-' ∉ pad b w n := by
  intro h
  obtain ⟨d, hd, hc⟩ := mem_pad hb h
  exact digitChar_ne_hyphen d (by omega) hc.symm

theorem pad_injective {b w m n : ℕ} (hb : 0 < b) (hb' : b ≤ 16) (hw : w ≠ 0)
    (hm : m < b ^ w) (hn : n < b ^ w) (h : pad b w m = pad b w n) : m = n := by
  have hm' := numeral?_pad hb hb' hw hm
  rw [h, numeral?_pad hb hb' hw hn] at hm'
  exact (Option.some.inj hm').symm

/-! ## Integer literals

What `int(s)` reads: the decimal digits of every script, one underscore at most
between two of them, white space around them. -/

/-- The code points of the zeros; the other nine digits of a script follow. -/
def decimalZeros : List ℕ :=
  [0x30, 0x660, 0x6f0, 0x7c0, 0x966, 0x9e6, 0xa66, 0xae6, 0xb66, 0xbe6, 0xc66,
   0xce6, 0xd66, 0xde6, 0xe50, 0xed0, 0xf20, 0x1040, 0x1090, 0x17e0, 0x1810,
   0x1946, 0x19d0, 0x1a80, 0x1a90, 0x1b50, 0x1bb0, 0x1c40, 0x1c50, 0xa620,
   0xa8d0, 0xa900, 0xa9d0, 0xa9f0, 0xaa50, 0xabf0, 0xff10, 0x104a0, 0x10d30,
   0x11066, 0x110f0, 0x11136, 0x111d0, 0x112f0, 0x11450, 0x114d0, 0x11650,
   0x116c0, 0x11730, 0x118e0, 0x11950, 0x11c50, 0x11d50, 0x11da0, 0x11f50,
   0x16a60, 0x16ac0, 0x16b50, 0x1d7ce, 0x1d7d8, 0x1d7e2, 0x1d7ec, 0x1d7f6,
   0x1e140, 0x1e2f0, 0x1e4f0, 0x1e950, 0x1fbf0]

def decimalValue? (c : Char) : Option ℕ :=
  (decimalZeros.find? fun z => z ≤ c.toNat ∧ c.toNat < z + 10).map (c.toNat - ·)

/-- `str.isspace`, without the four ASCII separators that `int` does not skip. -/
def isSpace (c : Char) : Bool :=
  c.toNat ∈ [0x9, 0xa, 0xb, 0xc, 0xd, 0x20, 0x85, 0xa0, 0x1680, 0x2028, 0x2029,
    0x202f, 0x205f, 0x3000] ∨ 0x2000 ≤ c.toNat ∧ c.toNat ≤ 0x200a

def stripSpace (cs : List Char) : List Char :=
  (cs.dropWhile isSpace).rdropWhile isSpace

def dropPlus : List Char → List Char
  | '+' :: cs => cs
  | cs => cs

/-- `sys.get_int_max_str_digits()` -/
def maxStrDigits : ℕ := 4300

/-- `int(s)` for a text without a minus sign; `none` where Python raises
`ValueError`. -/
def natLiteral? (cs : List Char) : Option ℕ :=
  let groups := (dropPlus (stripSpace cs)).splitOn '_'
  if [] ∈ groups ∨ maxStrDigits < groups.flatten.length then none
  else groups.flatten.foldlM
    (fun acc c => (decimalValue? c).map (acc * 10 + ·)) 0

theorem literal_digitChar : ∀ d < 10, isSpace (Nat.digitChar d) = false ∧
    Nat.digitChar d ≠ '+' ∧ Nat.digitChar d ≠ '_' ∧
      decimalValue? (Nat.digitChar d) = some d := by decide

theorem stripSpace_eq_self {cs : List Char} (h : ∀ c ∈ cs, isSpace c = false) :
    stripSpace cs = cs := by
  have hfirst : cs.dropWhile isSpace = cs := by
    rw [List.dropWhile_eq_self_iff]
    intro hlen
    simp [h _ (List.getElem_mem hlen)]
  rw [stripSpace, hfirst, List.rdropWhile_eq_self_iff]
  intro hne
  simp [h _ (List.getLast_mem hne)]

theorem dropPlus_eq_self {cs : List Char} (h : '+' ∉ cs) : dropPlus cs = cs := by
  unfold dropPlus
  split
  · exact absurd List.mem_cons_self h
  · rfl

/-- Digit by digit, ASCII digits are read as in a plain numeral. -/
theorem foldlM_decimalValue? : ∀ {cs : List Char} (acc : ℕ),
    (∀ c ∈ cs, ∃ d < 10, c = Nat.digitChar d) →
      cs.foldlM (fun acc c => (decimalValue? c).map (acc * 10 + ·)) acc =
        cs.foldlM (fun acc c => (digitValue? 10 c).map (acc * 10 + ·)) acc
  | [], _, _ => rfl
  | c :: cs, acc, h => by
      obtain ⟨⟨d, hd, rfl⟩, hcs⟩ := List.forall_mem_cons.mp h
      rw [List.foldlM_cons, List.foldlM_cons, (literal_digitChar d hd).2.2.2,
        digitValue?_digitChar (by decide) hd]
      exact congrArg _ (funext fun acc' => foldlM_decimalValue? acc' hcs)

/-- **Padded numerals are literals.** -/
theorem natLiteral?_pad {w n : ℕ} (hw : w ≠ 0) (hmax : w ≤ maxStrDigits)
    (hn : n < 10 ^ w) : natLiteral? (pad 10 w n) = some n := by
  have hdigit : ∀ c ∈ pad 10 w n, ∃ d < 10, c = Nat.digitChar d :=
    fun c hc => mem_pad (by decide) hc
  have hspace : ∀ c ∈ pad 10 w n, isSpace c = false := by
    intro c hc
    obtain ⟨d, hd, rfl⟩ := hdigit c hc
    exact (literal_digitChar d hd).1
  have hplus : '+' ∉ pad 10 w n := by
    intro hc
    obtain ⟨d, hd, heq⟩ := hdigit _ hc
    exact (literal_digitChar d hd).2.1 heq.symm
  have hunderscore : '_' ∉ pad 10 w n := by
    intro hc
    obtain ⟨d, hd, heq⟩ := hdigit _ hc
    exact (literal_digitChar d hd).2.2.1 heq.symm
  have hne : [] ≠ pad 10 w n := by
    intro h
    have hlength := length_pad 10 w n
    rw [← h] at hlength
    exact hw hlength.symm
  rw [natLiteral?, stripSpace_eq_self hspace, dropPlus_eq_self hplus,
    List.splitOn_eq_singleton hunderscore, List.flatten_singleton, length_pad,
    if_neg, foldlM_decimalValue? 0 hdigit,
    foldlM_pad (by decide) (by decide) w n 0 hn, Nat.zero_mul, Nat.zero_add]
  rw [List.mem_singleton, not_or, not_lt]
  exact ⟨hne, hmax⟩

/-- Full-width digits, a space around them and an underscore among them. -/
example : natLiteral? [' ', '２', '０', '_', '２', '４', ' '] = some 2024 := by
  decide

/-! ## Identifiers -/

/-- `uuid.UUID`: its 128-bit integer. -/
abbrev UUID := Fin (2 ^ 128)

instance UUID.instNeZero : NeZero (2 ^ 128) := ⟨by decide⟩

instance UUID.instLawfulBEq : LawfulBEq UUID := inferInstance

namespace UUID

def hex (u : UUID) : List Char := pad 16 32 u.val

/-- `str(u)`: `8-4-4-4-12` lower-case hexadecimal digits. -/
def str (u : UUID) : String :=
  let h := hex u
  String.ofList (h.take 8 ++ '-' :: ((h.drop 8).take 4 ++
    '-' :: ((h.drop 12).take 4 ++ '-' :: ((h.drop 16).take 4 ++
      '-' :: h.drop 20))))

/-- `uuid.UUID(s)`: hyphens are ignored, 32 hexadecimal digits are required. -/
def ofStr? (s : String) : Option UUID :=
  let h := s.toList.filter (· ≠ '-')
  if h.length = 32 then
    (numeral? 16 h).bind fun n =>
      if hn : n < 2 ^ 128 then some ⟨n, hn⟩ else none
  else none

theorem filter_str (u : UUID) :
    u.str.toList.filter (· ≠ '-') = hex u := by
  have hall : ∀ l : List Char, l.Sublist (hex u) →
      l.filter (fun c => decide (c ≠ '-')) = l := by
    intro l hl
    rw [List.filter_eq_self]
    intro c hc
    have hne : c ≠ '-' := fun h =>
      hyphen_not_mem_pad (b := 16) (w := 32) (by decide) (by decide)
        (h ▸ hl.subset hc)
    simpa using hne
  have hpiece : ∀ i j, ((hex u).drop i).take j =
      (((hex u).drop i).take j).filter (fun c => decide (c ≠ '-')) := fun i j =>
    (hall _ ((List.take_sublist j _).trans (List.drop_sublist i _))).symm
  have hjoin : (hex u).take 8 ++ (((hex u).drop 8).take 4 ++
      (((hex u).drop 12).take 4 ++ (((hex u).drop 16).take 4 ++
        (hex u).drop 20))) = hex u := by
    have hsplit : ∀ i j, ((hex u).drop i).take j ++ (hex u).drop (i + j) =
        (hex u).drop i := fun i j => by
      rw [← List.drop_drop, List.take_append_drop]
    rw [hsplit 16 4, hsplit 12 4, hsplit 8 4, List.take_append_drop]
  simp only [str, String.toList_ofList, List.filter_append, List.filter_cons,
    ne_eq, not_true_eq_false, decide_false, Bool.false_eq_true, if_false]
  rw [← hpiece 8 4, ← hpiece 12 4, ← hpiece 16 4,
    hall _ (List.take_sublist 8 _), hall _ (List.drop_sublist 20 _), hjoin]

/-- **Identifiers round-trip** through their text. -/
theorem ofStr?_str (u : UUID) : ofStr? u.str = some u := by
  have hn : numeral? 16 (hex u) = some u.val :=
    numeral?_pad (by decide) (by decide) (by decide)
      (Nat.lt_of_lt_of_eq u.isLt (by decide))
  have hlen : (hex u).length = 32 := length_pad 16 32 u.val
  simp only [ofStr?, filter_str, hlen, if_true, hn, Option.bind_some]
  exact dif_pos u.isLt

theorem str_injective : Function.Injective str := by
  intro u v h
  have hu := ofStr?_str u
  rw [h, ofStr?_str v] at hu
  exact (Option.some.inj hu).symm

end UUID

/-! ## Binary64 integers -/

/-- The nearest integer with a 53-bit significand, ties to even. -/
def roundDoubleNat (n : ℕ) : ℕ :=
  if n < 2 ^ 53 then n
  else
    let ulp := 2 ^ (Nat.log2 n - 52)
    let q := n / ulp
    let r := n % ulp
    if 2 * r > ulp ∨ (2 * r = ulp ∧ q % 2 = 1) then (q + 1) * ulp else q * ulp

def roundDouble (n : ℤ) : ℤ :=
  if 0 ≤ n then roundDoubleNat n.natAbs else - (roundDoubleNat n.natAbs : ℤ)

theorem roundDoubleNat_eq_self {n : ℕ} (h : n ≤ 2 ^ 53) :
    roundDoubleNat n = n := by
  rcases Nat.lt_or_eq_of_le h with hlt | rfl
  · exact if_pos hlt
  · decide

/-- **Integers up to `2 ^ 53` are exact.** -/
theorem roundDouble_eq_self {n : ℤ} (h : n.natAbs ≤ 2 ^ 53) :
    roundDouble n = n := by
  rw [roundDouble, roundDoubleNat_eq_self h]
  split <;> omega

/-- Rounding does not cross `2 ^ 53`. -/
theorem le_roundDoubleNat {n : ℕ} (h : 2 ^ 53 ≤ n) : 2 ^ 53 ≤ roundDoubleNat n := by
  have hne : n ≠ 0 := by omega
  have hlog : 53 ≤ Nat.log2 n := (Nat.le_log2 hne).mpr h
  -- the significand has its full 53 bits
  have hq : 2 ^ 52 ≤ n / 2 ^ (Nat.log2 n - 52) := by
    rw [Nat.le_div_iff_mul_le (Nat.two_pow_pos _), ← pow_add,
      Nat.add_sub_cancel' (by omega)]
    exact Nat.log2_self_le hne
  have hulp : 2 ^ 1 ≤ 2 ^ (Nat.log2 n - 52) :=
    Nat.pow_le_pow_right (by decide) (by omega)
  have hfloor : 2 ^ 53 ≤ n / 2 ^ (Nat.log2 n - 52) * 2 ^ (Nat.log2 n - 52) :=
    Nat.mul_le_mul hq hulp
  rw [roundDoubleNat, if_neg (by omega)]
  dsimp only
  split
  · rw [Nat.add_mul]
    omega
  · exact hfloor

/-- **Adding to an exact integer is noticed**, rounding or not. -/
theorem roundDouble_add_eq_self_iff {a d : ℤ} (ha : 0 ≤ a)
    (hlt : a.natAbs < 2 ^ 53) (hd : 0 ≤ d) : roundDouble (a + d) = a ↔ d = 0 := by
  constructor
  · intro h
    by_cases hsum : (a + d).natAbs < 2 ^ 53
    · rw [roundDouble_eq_self (by omega)] at h
      omega
    · have hround := le_roundDoubleNat (n := (a + d).natAbs) (by omega)
      rw [roundDouble, if_pos (by omega)] at h
      omega
  · rintro rfl
    rw [Int.add_zero]
    exact roundDouble_eq_self (by omega)

end Framework
