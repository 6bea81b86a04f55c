import AnalyticsPipeline.Framework.Traversal
import AnalyticsPipeline.Guarantees.ExactlyOnce

/-!
# Validated events and column domains

What `EventIngest` accepts is inserted into typed columns. The length of the
currency is checked before it is put in uppercase, amounts have no upper bound
and no text is checked for null characters.
-/

namespace AnalyticsPipeline

open Framework

/-- What the columns of an event are to hold. -/
structure ColumnDomains (v : RawValues PyDateTime) : Prop where
  amount : 0 ≤ v.amount_cents ∧ v.amount_cents ≤ 2 ^ 31 - 1
  currency : v.currency.length = 3
  key : 1 ≤ v.idempotency_key.length ∧ v.idempotency_key.length ≤ 255 ∧
    hasNul v.idempotency_key = false

/-- What an insert fails with for a value that a column cannot hold. -/
def domainErrors : List DbError :=
  [.invalidText, .numericOutOfRange, .stringTruncation, .datetimeOutOfRange]

/-- The insert may fail for the domain of a column. -/
def Misfits (values : List (RawValues PyDateTime)) : Prop :=
  ∃ now ch view e, (Stmt.insertRawEvents values).run now ch view =
    some (.error e) ∧ e ∈ domainErrors

/-- The row fits, alone and among rows that fit. -/
def InDomains (v : RawValues PyDateTime) : Prop :=
  ∀ before after, ¬ Misfits before → ¬ Misfits after →
    ¬ Misfits (before ++ v :: after)

/-- UTC has the time in its calendar. A time without a zone is UTC already, but
the first day of the calendar has only its first instant. -/
def PyDateTime.Representable : PyDateTime → Prop
  | .naive t => t.ordinal = 1 → t.timeOfDay = 0
  | .aware t => DateTime.dayMicros ≤ t.instant ∧
      t.instant < (DateTime.maxOrdinal + 1) * DateTime.dayMicros

instance PyDateTime.decidableRepresentable : DecidablePred PyDateTime.Representable
  | .naive t => inferInstanceAs (Decidable (t.ordinal = 1 → t.timeOfDay = 0))
  | .aware t => inferInstanceAs (Decidable (DateTime.dayMicros ≤ t.instant ∧
      t.instant < (DateTime.maxOrdinal + 1) * DateTime.dayMicros))

/-- No text of the document has a null character or an unpaired surrogate, and
its numbers are finite. -/
def StorableDocument (fields : Metadata) : Prop :=
  ∀ f ∈ fields, '\x00' ∉ f.1.toList ∧
    (∀ s ∈ f.2.texts, s.storable = true) ∧ ∀ x ∈ f.2.floats, x.isFinite = true

instance decidableStorableDocument (fields : Metadata) :
    Decidable (StorableDocument fields) :=
  inferInstanceAs (Decidable (∀ f ∈ fields, '\x00' ∉ f.1.toList ∧
    (∀ s ∈ f.2.texts, s.storable = true) ∧ ∀ x ∈ f.2.floats, x.isFinite = true))

/-- A null character in a value, and the first midnight of the calendar fourteen
hours ahead of UTC. -/
example : ¬ StorableDocument [("a", .str (codePoints "\x00"))] ∧
    ¬ PyDateTime.Representable (.aware ⟨default, 50400000000, by decide⟩) := by
  decide +kernel

section Columns

variable {v : RawValues PyDateTime} {values : List (RawValues PyDateTime)}
  {s : String}

theorem hasNul_iff : hasNul s = true ↔ '\x00' ∈ s.toList := by
  rw [hasNul, List.contains_iff_mem]

theorem integerColumn_isOk {n : ℤ} :
    (∃ m, integerColumn n = .ok m) ↔ -2 ^ 31 ≤ n ∧ n < 2 ^ 31 := by
  unfold integerColumn
  split <;> simp_all

theorem textColumn_isOk : (∃ t, textColumn s = .ok t) ↔ hasNul s = false := by
  unfold textColumn
  split <;> simp_all

theorem charColumn_isOk {n : ℕ} : (∃ t, charColumn n s = .ok t) ↔
    hasNul s = false ∧ (s.toList.drop n).all (· = ' ') = true := by
  unfold charColumn
  by_cases hnul : hasNul s = true
  · rw [if_pos hnul, hnul]
    simp
  · rw [if_neg hnul, Bool.eq_false_of_not_eq_true hnul]
    split
    · rename_i hspaces
      exact ⟨fun _ => ⟨rfl, hspaces⟩, fun _ => ⟨_, rfl⟩⟩
    · rename_i hspaces
      constructor
      · rintro ⟨t, ht⟩
        cases ht
      · rintro ⟨-, h⟩
        exact absurd h hspaces

theorem PyDateTime.representable_iff {t : PyDateTime} :
    (∃ u, timestamptzColumn t = .ok u) ↔ t.Representable := by
  cases t with
  | naive t =>
      simp only [timestamptzColumn, PyDateTime.Representable]
      split
      · rename_i hfirst
        constructor
        · rintro ⟨u, hu⟩
          cases hu
        · intro h
          exact absurd (h hfirst.1) hfirst.2
      · rename_i hfirst
        constructor
        · intro _ hday
          by_contra hne
          exact hfirst ⟨hday, hne⟩
        · intro _
          exact ⟨t, rfl⟩
  | aware t =>
      rw [PyDateTime.Representable, ← AwareDateTime.toUtc?_isSome_iff]
      simp only [timestamptzColumn]
      cases t.toUtc? with
      | none => simp
      | some u => simp

theorem clientTimestamp_isOk {t : Option PyDateTime} :
    (∃ u, t.mapM timestamptzColumn = .ok u) ↔ ∀ x, t = some x → x.Representable := by
  rw [option_mapM_isOk_iff]
  simp only [PyDateTime.representable_iff]

theorem jsonColumn_isOk {m : Option Metadata} :
    (∃ m', jsonColumn m = .ok m') ↔ ∀ fields, m = some fields →
      StorableDocument fields := by
  cases m with
  | none => simp [jsonColumn]
  | some fields =>
      simp only [jsonColumn, Option.some.injEq, forall_eq', StorableDocument,
        ← storable_codePoints_iff, ← Json.storable_iff]
      split
      · rename_i hall
        simp only [List.all_eq_true, Bool.and_eq_true] at hall
        exact ⟨fun _ => hall, fun _ => ⟨_, rfl⟩⟩
      · rename_i hall
        simp only [List.all_eq_true, Bool.and_eq_true] at hall
        constructor
        · rintro ⟨m', hm'⟩
          cases hm'
        · intro h
          exact absurd h hall

/-- A row is stored when each column takes its value. -/
theorem stored_isOk : (∃ u, v.stored = .ok u) ↔
    (∃ a, integerColumn v.amount_cents = .ok a) ∧
    (∃ c, charColumn 3 v.currency = .ok c) ∧
    (∃ k, textColumn v.idempotency_key = .ok k) ∧
    (∃ t, v.client_timestamp.mapM timestamptzColumn = .ok t) ∧
      ∃ m, jsonColumn v.metadata = .ok m := by
  constructor
  · rintro ⟨u, hu⟩
    have hcols := RawValues.stored_eq_ok_iff.mp hu
    exact ⟨⟨_, hcols.amount_cents⟩, ⟨_, hcols.currency⟩, ⟨_, hcols.idempotency_key⟩,
      ⟨_, hcols.client_timestamp⟩, ⟨_, hcols.metadata⟩⟩
  · rintro ⟨⟨a, ha⟩, ⟨c, hc⟩, ⟨k, hk⟩, ⟨t, ht⟩, ⟨m, hm⟩⟩
    exact ⟨⟨v.id, v.event_type, v.merchant_id, a, c, k, v.occurred_at, t, m⟩,
      RawValues.stored_eq_ok_iff.mpr ⟨rfl, rfl, rfl, ha, hc, hk, rfl, ht, hm⟩⟩

/-! What each column refuses a value with. -/

theorem integerColumn_error {n : ℤ} {e : DbError} (h : integerColumn n = .error e) :
    e = .numericOutOfRange := by
  unfold integerColumn at h
  split at h <;> cases h
  rfl

theorem textColumn_error {e : DbError} (h : textColumn s = .error e) :
    e = .invalidText := by
  unfold textColumn at h
  split at h <;> cases h
  rfl

theorem charColumn_error {n : ℕ} {e : DbError} (h : charColumn n s = .error e) :
    e = .invalidText ∨ e = .stringTruncation := by
  unfold charColumn at h
  by_cases hnul : hasNul s = true
  · rw [if_pos hnul] at h
    exact .inl (Except.error.inj h).symm
  · rw [if_neg hnul] at h
    split at h <;> cases h
    exact .inr rfl

theorem timestamptzColumn_error {t : PyDateTime} {e : DbError}
    (h : timestamptzColumn t = .error e) : e = .datetimeOutOfRange := by
  cases t with
  | naive t =>
      simp only [timestamptzColumn] at h
      split at h <;> cases h
      rfl
  | aware t =>
      simp only [timestamptzColumn] at h
      split at h <;> cases h
      rfl

theorem jsonColumn_error {m : Option Metadata} {e : DbError}
    (h : jsonColumn m = .error e) : e = .invalidText := by
  cases m with
  | none => cases h
  | some fields =>
      simp only [jsonColumn] at h
      split at h <;> cases h
      rfl

/-- The columns refuse a value for its domain only. -/
theorem stored_error {e : DbError} (h : v.stored = .error e) :
    e ∈ domainErrors := by
  unfold RawValues.stored at h
  rcases bind_eq_error_iff.mp h with h | ⟨a, -, h⟩
  · rw [integerColumn_error h]
    decide
  rcases bind_eq_error_iff.mp h with h | ⟨c, -, h⟩
  · rcases charColumn_error h with rfl | rfl <;> decide
  rcases bind_eq_error_iff.mp h with h | ⟨k, -, h⟩
  · rw [textColumn_error h]
    decide
  rcases bind_eq_error_iff.mp h with h | ⟨t, -, h⟩
  · obtain ⟨t, -, ht⟩ := exists_of_option_mapM_error h
    rw [timestamptzColumn_error ht]
    decide
  rcases bind_eq_error_iff.mp h with h | ⟨m, -, h⟩
  · rw [jsonColumn_error h]
    decide
  · cases h

/-- **A statement misfits** when one of its rows does. -/
theorem misfits_iff : Misfits values ↔ ∃ v ∈ values, ∀ u, v.stored ≠ .ok u := by
  constructor
  · rintro ⟨now, ch, view, e, hrun, he⟩
    by_contra hall
    simp only [not_exists, not_and, not_forall, not_not] at hall
    obtain ⟨vs, hvs⟩ := exists_mapM_ok hall
    simp only [Stmt.run, hvs] at hrun
    split at hrun
    · cases hrun
    · cases hrun
      revert he
      decide
  · rintro ⟨v, hv, hno⟩
    cases hvs : values.mapM RawValues.stored with
    | ok vs =>
        obtain ⟨u, -, hu⟩ := ok_of_mapM_ok hvs hv
        exact absurd hu (hno u)
    | error e =>
        refine ⟨default, .auto, ∅, e, by simp only [Stmt.run, hvs], ?_⟩
        obtain ⟨v', -, hv'⟩ := exists_of_mapM_error hvs
        exact stored_error hv'

theorem fits_iff : InDomains v ↔ ∃ u, v.stored = .ok u := by
  constructor
  · intro h
    have hnone : ¬ Misfits [] := by
      rw [misfits_iff]
      rintro ⟨v', hv', -⟩
      cases hv'
    have halone := h [] [] hnone hnone
    rw [misfits_iff] at halone
    by_contra hno
    exact halone ⟨v, List.mem_cons_self, fun u hu => hno ⟨u, hu⟩⟩
  · rintro ⟨u, hu⟩ before after hbefore hafter hmisfits
    obtain ⟨v', hv', hno⟩ := misfits_iff.mp hmisfits
    rcases List.mem_append.mp hv' with hmem | hmem
    · exact hbefore (misfits_iff.mpr ⟨v', hmem, hno⟩)
    · rcases List.mem_cons.mp hmem with rfl | hmem
      · exact hno u hu
      · exact hafter (misfits_iff.mpr ⟨v', hmem, hno⟩)

end Columns

section Validated

variable {p : EventPayload} {e : EventIngest}

theorem validate_ok (h : EventIngest.validate p = .ok e) :
    (0 ≤ p.amount_cents ∧
      ∀ currency, p.currency = some currency → currency.length = 3) ∧
    (1 ≤ p.idempotency_key.length ∧ p.idempotency_key.length ≤ 255) ∧
    e.amount_cents = p.amount_cents ∧ e.currency = p.currency.elim "EUR" upper ∧
    e.idempotency_key = p.idempotency_key ∧
    e.client_timestamp = p.client_timestamp ∧ e.metadata = p.metadata := by
  unfold EventIngest.validate at h
  split at h
  · rename_i herrors
    cases h
    obtain ⟨hfields, hkey⟩ := EventPayload.errors_eq_nil_iff.mp herrors
    exact ⟨hfields, hkey, rfl, rfl, rfl, rfl, rfl⟩
  · cases h

/-- **A validated event fits its columns** exactly when its amount is below
2^31, no character of its currency has several characters as uppercase, none of
its texts has a null character, its client's time is in the calendar and its
document can be stored. -/
theorem validated_event_fits_iff (h : EventIngest.validate p = .ok e) :
    (∀ id occurred_at, ColumnDomains (e.rawValues id occurred_at) ∧
      InDomains (e.rawValues id occurred_at)) ↔
    p.amount_cents < 2 ^ 31 ∧
      (∀ currency, p.currency = some currency → hasNul currency = false ∧
        ∀ c ∈ currency.toList, (upperChar c).length = 1) ∧
      hasNul p.idempotency_key = false ∧
      (∀ t, p.client_timestamp = some t → t.Representable) ∧
      ∀ fields, p.metadata = some fields → StorableDocument fields := by
  obtain ⟨⟨hamount, hcurrency⟩, hkey, he₁, he₂, he₃, he₄, he₅⟩ := validate_ok h
  -- both sides, column by column
  have hfits : ∀ id occurred_at, InDomains (e.rawValues id occurred_at) ↔
      (-2 ^ 31 ≤ p.amount_cents ∧ p.amount_cents < 2 ^ 31) ∧
      (hasNul e.currency = false ∧
        (e.currency.toList.drop 3).all (· = ' ') = true) ∧
      hasNul p.idempotency_key = false ∧
      (∀ t, p.client_timestamp = some t → t.Representable) ∧
      ∀ fields, p.metadata = some fields → StorableDocument fields := by
    intro id occurred_at
    rw [fits_iff, stored_isOk, integerColumn_isOk, charColumn_isOk,
      textColumn_isOk, clientTimestamp_isOk, jsonColumn_isOk, ← he₁, ← he₃, ← he₄,
      ← he₅]
    rfl
  constructor
  · intro hall
    obtain ⟨⟨⟨-, hmax⟩, hlength, -⟩, hfit⟩ := hall 0 default
    obtain ⟨-, ⟨hnul, -⟩, hkeyNul, htime, hmeta⟩ := (hfits 0 default).mp hfit
    refine ⟨?_, fun currency hc => ?_, hkeyNul, htime, hmeta⟩
    · have hmax' : e.amount_cents ≤ 2 ^ 31 - 1 := hmax
      rw [he₁] at hmax'
      omega
    · -- the currency stored is the one given, in capitals
      have hupper : e.currency = upper currency := by
        rw [he₂, hc]
        rfl
      have hlength' : e.currency.length = 3 := hlength
      rw [hupper] at hnul hlength'
      constructor
      · rw [← Bool.not_eq_true, hasNul_iff, nul_mem_upper] at hnul
        rw [← Bool.not_eq_true, hasNul_iff]
        exact hnul
      · rw [← length_upper_eq_iff, hlength', hcurrency currency hc]
  · rintro ⟨hmax, hchars, hkeyNul, htime, hmeta⟩ id occurred_at
    have hcur : e.currency.length = 3 ∧ hasNul e.currency = false := by
      rw [he₂]
      cases hc : p.currency with
      | none => decide
      | some currency =>
          obtain ⟨hnul, hone⟩ := hchars currency hc
          constructor
          · exact (length_upper_eq_iff.mpr hone).trans (hcurrency currency hc)
          · rw [← Bool.not_eq_true, hasNul_iff] at hnul
            rw [← Bool.not_eq_true, hasNul_iff]
            exact fun h => hnul (nul_mem_upper.mp h)
    constructor
    · constructor
      · show 0 ≤ e.amount_cents ∧ e.amount_cents ≤ 2 ^ 31 - 1
        rw [he₁]
        omega
      · exact hcur.1
      · show 1 ≤ e.idempotency_key.length ∧ e.idempotency_key.length ≤ 255 ∧
          hasNul e.idempotency_key = false
        rw [he₃]
        exact ⟨hkey.1, hkey.2, hkeyNul⟩
    · refine (hfits id occurred_at).mpr ⟨⟨by omega, hmax⟩, ⟨hcur.2, ?_⟩, hkeyNul,
        htime, hmeta⟩
      rw [List.drop_eq_nil_of_le (by rw [String.length_toList, hcur.1])]
      rfl

end Validated

/-! ## Two payloads -/

/-- A payment in a currency as a client may write it, two hours ahead of UTC. -/
def paymentIn (currency : String) : EventPayload where
  event_type := .paymentConfirmed
  merchant_id := 7
  amount_cents := 250
  currency := some currency
  idempotency_key := "a"
  client_timestamp := some (.aware ⟨Sample.instant 3, 7200000000, by decide⟩)
  metadata := some [("note", .str (codePoints "été"))]

theorem validated_event_fits_lowercase : ∃ e,
    EventIngest.validate (paymentIn "eur") = .ok e ∧
    ∀ id occurred_at, ColumnDomains (e.rawValues id occurred_at) ∧
      InDomains (e.rawValues id occurred_at) := by
  refine ⟨_, rfl, (validated_event_fits_iff (p := paymentIn "eur") rfl).mpr
    ⟨by decide, ?_, by decide, ?_, ?_⟩⟩
  rotate_left
  · rintro t ht
    obtain rfl := Option.some.inj ht
    decide +kernel
  · rintro fields hfields
    obtain rfl := Option.some.inj hfields
    decide +kernel
  intro currency hcurrency
  obtain rfl := Option.some.inj hcurrency
  have hplain : ("eur".toList.all fun c =>
      (specialUpper.lookup c.toNat).isNone) = true := by
    decide +kernel
  refine ⟨by decide, fun c hc => length_upperChar_eq_one_iff.mpr ?_⟩
  exact Option.isNone_iff_eq_none.mp (List.all_eq_true.mp hplain c hc)

/-- **Three characters become four**, and the insert fails. -/
theorem sharp_s_misfits : ∃ e,
    EventIngest.validate (paymentIn "aßc") = .ok e ∧
    ¬ ∀ id occurred_at, ColumnDomains (e.rawValues id occurred_at) ∧
      InDomains (e.rawValues id occurred_at) := by
  refine ⟨_, rfl, fun hall => ?_⟩
  obtain ⟨-, hfits⟩ := hall 0 default
  obtain ⟨u, hu⟩ := fits_iff.mp hfits
  have hcurrency := (stored_isOk.mp ⟨u, hu⟩).2.1
  rw [charColumn_isOk] at hcurrency
  revert hcurrency
  decide +kernel

end AnalyticsPipeline
