import AnalyticsPipeline.Guarantees.ExactlyOnce
import AnalyticsPipeline.Model.Routes

/-!
# Bounds of a metrics request

The bounds are compared before they are made aware, and Python compares a
naive time only with a naive one. An absent bound is aware.
-/

namespace AnalyticsPipeline

open Framework

/-- The bounds a request means: an absent one by its default, a naive one in
UTC. -/
structure Normalised (now : DateTime) (start stop : Option PyDateTime)
    (s e : AwareDateTime) : Prop where
  given : ∀ t, start = some t → s = t.ensureAware
  day_ago : start = none →
    s.utcoffset = 0 ∧ s.instant = now.micros - DateTime.dayMicros
  stop : e = stop.elim (.utc now) PyDateTime.ensureAware

/-- In order and at most 365 days apart. -/
def InRange (s e : AwareDateTime) : Prop :=
  s.instant < e.instant ∧ timedeltaDays (e.instant - s.instant) ≤ 365

instance (s e : AwareDateTime) : Decidable (InRange s e) :=
  inferInstanceAs (Decidable (_ ∧ _))

/-- The route answers 400 or calls the service with the bounds meant, and
answers 400 exactly for bounds out of range. -/
structure HandlesBounds (settings : Settings) (now : DateTime)
    (merchant_id : UUID) (start stop : Option PyDateTime) : Prop where
  outcome : (∃ detail, getMetricsAt settings now merchant_id start stop =
      throw (.httpException 400 detail)) ∨
    ∃ s e, Normalised now start stop s e ∧ InRange s e ∧
      getMetricsAt settings now merchant_id start stop =
        QueryService.getMerchantMetrics settings merchant_id s e
  refused : (∃ detail, getMetricsAt settings now merchant_id start stop =
      throw (.httpException 400 detail)) ↔
    ∃ s e, Normalised now start stop s e ∧ ¬ InRange s e

def PyDateTime.IsNaive (t : PyDateTime) : Prop := ∃ u, t = .naive u

/-- Absent bounds are aware. -/
def NaiveBound (bound : Option PyDateTime) : Prop :=
  ∃ t, bound = some (.naive t)

section Bounds

variable {a b : PyDateTime}

@[simp] theorem isNaive_naive (t : DateTime) : (PyDateTime.naive t).IsNaive :=
  ⟨t, rfl⟩

@[simp] theorem not_isNaive_aware (t : AwareDateTime) :
    ¬ (PyDateTime.aware t).IsNaive := by
  rintro ⟨u, hu⟩
  cases hu

/-- Times of one kind are compared as the instants they mean. -/
theorem PyDateTime.ge_same (h : a.IsNaive ↔ b.IsNaive) :
    a.ge b = .ok (decide (b.ensureAware.instant ≤ a.ensureAware.instant)) := by
  cases a <;> cases b
  case naive.naive s t => simp [ge, ensureAware]
  case naive.aware s t => simp at h
  case aware.naive s t => simp at h
  case aware.aware s t => rfl

theorem PyDateTime.sub_same (h : a.IsNaive ↔ b.IsNaive) :
    b.sub a = .ok (b.ensureAware.instant - a.ensureAware.instant) := by
  cases a <;> cases b
  case naive.naive s t => simp [sub, ensureAware]
  case naive.aware s t => simp at h
  case aware.naive s t => simp at h
  case aware.aware s t => rfl

theorem checkBounds_eq {g : Bool} {d : ℤ} (hge : a.ge b = .ok g)
    (hsub : b.sub a = .ok d) :
    checkBounds a b =
      if g = true then .error (.httpException 400 "start must be before end")
      else if 365 < timedeltaDays d then
        .error (.httpException 400 "Range cannot exceed 365 days")
      else .ok (a.ensureAware, b.ensureAware) := by
  unfold checkBounds
  rw [hge, hsub]
  cases g with
  | true => rfl
  | false =>
      dsimp only [bind, Except.bind]
      simp only [Bool.false_eq_true, if_false]
      split <;> rfl

theorem checkBounds_same (h : a.IsNaive ↔ b.IsNaive) :
    (InRange a.ensureAware b.ensureAware ∧
      checkBounds a b = .ok (a.ensureAware, b.ensureAware)) ∨
    ¬ InRange a.ensureAware b.ensureAware ∧
      ∃ detail, checkBounds a b = .error (.httpException 400 detail) := by
  unfold InRange
  rw [checkBounds_eq (PyDateTime.ge_same h) (PyDateTime.sub_same h)]
  simp only [decide_eq_true_eq]
  split_ifs with hge hdays
  · exact .inr ⟨fun hin => absurd hin.1 (not_lt.mpr hge), _, rfl⟩
  · exact .inr ⟨fun hin => absurd hin.2 (not_le.mpr hdays), _, rfl⟩
  · exact .inl ⟨⟨not_le.mp hge, not_lt.mp hdays⟩, rfl⟩

theorem checkBounds_mixed (h : ¬ (a.IsNaive ↔ b.IsNaive)) :
    checkBounds a b = .error .typeError := by
  cases a <;> cases b <;> first | rfl | simp at h

variable {now : DateTime} {start stop : Option PyDateTime}

theorem isNaive_getD :
    (stop.getD (.aware (.utc now))).IsNaive ↔ NaiveBound stop := by
  unfold NaiveBound PyDateTime.IsNaive
  cases stop <;> simp

/-- The day before is the only time 24 hours ago in UTC. -/
theorem eq_utc_iff {t : DateTime} (h : now.prevDay? = some t) {s : AwareDateTime} :
    (s.utcoffset = 0 ∧ s.instant = now.micros - DateTime.dayMicros) ↔
      s = .utc t := by
  have hmicros := DateTime.prevDay?_micros h
  constructor
  · rintro ⟨hoffset, hinstant⟩
    obtain ⟨naive, offset, _⟩ := s
    obtain rfl : offset = 0 := hoffset
    have hnaive : naive = t := by
      apply DateTime.micros_injective
      simp only [AwareDateTime.instant] at hinstant
      omega
    rw [hnaive]
    rfl
  · rintro rfl
    refine ⟨rfl, ?_⟩
    rw [AwareDateTime.instant_utc]
    omega

/-- With its defaults in, a request has two bounds to be checked. -/
theorem exists_bounds (stop : Option PyDateTime)
    (hnow : start = none → now.ordinal ≠ 1) :
    ∃ a b : PyDateTime, (a.IsNaive ↔ NaiveBound start) ∧
      (b.IsNaive ↔ NaiveBound stop) ∧
      (∀ s e, Normalised now start stop s e ↔
        s = a.ensureAware ∧ e = b.ensureAware) ∧
      ∀ settings merchant_id,
        getMetricsAt settings now merchant_id start stop =
          raising (checkBounds a b) >>= fun p =>
            QueryService.getMerchantMetrics settings merchant_id p.1 p.2 := by
  have hstop : stop.elim (.utc now) PyDateTime.ensureAware =
      (stop.getD (.aware (.utc now))).ensureAware := by
    cases stop <;> rfl
  cases start with
  | some t =>
      refine ⟨t, stop.getD (.aware (.utc now)), ?_, isNaive_getD,
        fun s e => ⟨fun h => ?_, ?_⟩, fun _ _ => rfl⟩
      · unfold NaiveBound PyDateTime.IsNaive
        simp
      · exact ⟨h.given t rfl, h.stop.trans hstop⟩
      · rintro ⟨rfl, rfl⟩
        exact ⟨fun u hu => (Option.some.inj hu) ▸ rfl, fun h => (by cases h), hstop.symm⟩
  | none =>
      obtain ⟨t, ht⟩ := Option.isSome_iff_exists.mp
        (DateTime.prevDay?_isSome_iff.mpr (hnow rfl))
      refine ⟨.aware (.utc t), stop.getD (.aware (.utc now)), ?_, isNaive_getD,
        fun s e => ⟨fun h => ?_, ?_⟩, fun settings m => ?_⟩
      · unfold NaiveBound
        simp
      · exact ⟨(eq_utc_iff ht).mp (h.day_ago rfl), h.stop.trans hstop⟩
      · rintro ⟨rfl, rfl⟩
        exact ⟨fun u hu => (by cases hu), fun _ => (eq_utc_iff ht).mpr rfl,
          hstop.symm⟩
      · unfold getMetricsAt
        rw [ht]
        rfl

theorem getMetricsAt_overflow (hnow : now.ordinal = 1) (settings : Settings)
    (merchant_id : UUID) :
    getMetricsAt settings now merchant_id none stop = throw .overflowError := by
  have hnone : now.prevDay? = none := by
    rw [← Option.not_isSome_iff_eq_none, DateTime.prevDay?_isSome_iff]
    exact not_not_intro hnow
  unfold getMetricsAt
  rw [hnone]
  rfl

theorem typeError_ne_refusal (detail : String) :
    PyError.typeError ≠ .httpException 400 detail := by
  simp

/-- An exception of another kind is neither an answer 400 nor the service. -/
theorem HandlesBounds.ne_throw {settings : Settings} {merchant_id : UUID}
    {err : PyError} (h : HandlesBounds settings now merchant_id start stop)
    (herr : ∀ detail, err ≠ .httpException 400 detail) :
    getMetricsAt settings now merchant_id start stop ≠ throw err := by
  intro hroute
  rcases h.outcome with ⟨detail, hdetail⟩ | ⟨s, e, -, -, hcall⟩
  · rw [hroute] at hdetail
    cases hdetail
    exact herr detail rfl
  · rw [hroute] at hcall
    cases hcall

/-! ### The route -/

variable {ok : Call → Choice → Prop} {i : ℕ} {w w' : World} {settings : Settings}
  {merchant_id : UUID} {x : Except PyError MetricsResponse}

/-- The handler reads the clock and goes on with what it reads. -/
theorem eval_getMetrics_iff :
    Eval (M := services) ok i (getMetrics settings merchant_id start stop) w x w' ↔
      ∃ now, ok .now (.clock now) ∧ Eval (M := services) ok i
        (getMetricsAt settings now merchant_id start stop) w x w' := by
  rw [getMetrics, perform_bind, eval_call_iff]
  constructor
  · rintro ⟨ch, now, w₁, hok, he, hrest⟩
    cases ch with
    | clock t =>
        obtain ⟨rfl, rfl⟩ := Prod.mk.inj (Option.some.inj he)
        exact ⟨t, hok, hrest⟩
    | _ => cases he
  · rintro ⟨now, hok, hrest⟩
    exact ⟨.clock now, now, w, hok, rfl, hrest⟩

/-- **Every request** whose bounds are handled whatever the clock is refused with
a 400, nothing having happened, or is one to the service with the bounds meant. -/
theorem eval_getMetrics (h : ∀ now, ok .now (.clock now) →
      HandlesBounds settings now merchant_id start stop)
    (he : Eval (M := services) ok i
      (getMetrics settings merchant_id start stop) w x w') :
    (∃ detail, x = .error (.httpException 400 detail) ∧ w' = w) ∨
      ∃ now s e, ok .now (.clock now) ∧ Normalised now start stop s e ∧
        InRange s e ∧ Eval (M := services) ok i
          (QueryService.getMerchantMetrics settings merchant_id s e) w x w' := by
  obtain ⟨now, hok, hrest⟩ := eval_getMetrics_iff.mp he
  rcases (h now hok).outcome with ⟨detail, hdetail⟩ | ⟨s, e, hnormal, hin, hcall⟩
  · rw [hdetail] at hrest
    obtain ⟨rfl, rfl⟩ := eval_ret_iff.mp hrest
    exact .inl ⟨detail, rfl, rfl⟩
  · rw [hcall] at hrest
    exact .inr ⟨now, s, e, hok, hnormal, hin, hrest⟩

end Bounds

/-- **Bounds** are handled exactly when both are naive or neither is, an absent
one counting as aware, and there is a time 24 hours before now where the start
is absent. -/
theorem metrics_bounds_handled_iff (settings : Settings) (now : DateTime)
    (merchant_id : UUID) (start stop : Option PyDateTime) :
    HandlesBounds settings now merchant_id start stop ↔
      (start = none → now.ordinal ≠ 1) ∧
        (NaiveBound start ↔ NaiveBound stop) := by
  constructor
  · intro h
    have hnow : start = none → now.ordinal ≠ 1 := by
      rintro rfl hone
      exact h.ne_throw (by simp) (getMetricsAt_overflow hone settings merchant_id)
    refine ⟨hnow, ?_⟩
    by_contra hmixed
    obtain ⟨a, b, ha, hb, -, hroute⟩ := exists_bounds stop hnow
    rw [← ha, ← hb] at hmixed
    apply h.ne_throw typeError_ne_refusal
    rw [hroute, checkBounds_mixed hmixed]
    rfl
  · rintro ⟨hnow, hsame⟩
    obtain ⟨a, b, ha, hb, hnormal, hroute⟩ := exists_bounds stop hnow
    rw [← ha, ← hb] at hsame
    rcases checkBounds_same hsame with ⟨hin, hcheck⟩ | ⟨hout, detail, hcheck⟩
    · have hcall := hroute settings merchant_id
      rw [hcheck] at hcall
      refine ⟨.inr ⟨_, _, (hnormal _ _).mpr ⟨rfl, rfl⟩, hin, hcall⟩, ?_⟩
      refine iff_of_false ?_ ?_
      · rintro ⟨detail, hdetail⟩
        rw [hcall] at hdetail
        cases hdetail
      · rintro ⟨s, e, hse, hrange⟩
        obtain ⟨rfl, rfl⟩ := (hnormal s e).mp hse
        exact hrange hin
    · have hthrow := hroute settings merchant_id
      rw [hcheck] at hthrow
      exact ⟨.inl ⟨detail, hthrow⟩, iff_of_true ⟨detail, hthrow⟩
        ⟨_, _, (hnormal _ _).mpr ⟨rfl, rfl⟩, hout⟩⟩

/-- A naive start and no end. -/
theorem naive_start_unhandled :
    ¬ ∀ (settings : Settings) (now : DateTime) (merchant_id : UUID)
      (start stop : Option PyDateTime),
      HandlesBounds settings now merchant_id start stop := by
  intro hall
  have hnaive := hall (Sample.worker "w") (Sample.instant 5) 0
    (some (.naive (Sample.instant 3))) none
  exact hnaive.ne_throw typeError_ne_refusal rfl

end AnalyticsPipeline
