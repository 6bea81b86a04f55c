import AnalyticsPipeline.Framework.Delimited
import AnalyticsPipeline.Model.RedisRepository

/-!
# Cache keys

A metric key joins two `isoformat` texts by colons, which they contain
themselves, and the seconds of an offset are written only when there are any.
Three characters further on a year, or a granularity, can be told from such
seconds; so the key is read back field by field and no two queries share one.
-/

namespace AnalyticsPipeline

open Framework

/-! ## Reading a time -/

/-- A sign comes next. -/
def signed (l : List Char) : Prop := l.head? = some '+' ∨ l.head? = some '-'

/-- Another field comes next, and what comes is not the seconds of an offset:
two digits and then a separator. -/
def beyondOffset (l : List Char) : Prop :=
  l.head? = some ':' ∧ l[3]? ≠ some ':' ∧ l[3]? ≠ some '.'

theorem getElem?_pad_ne {w n i : ℕ} {c : Char} (hc : ∀ d < 10, c ≠ Nat.digitChar d) :
    (pad 10 w n)[i]? ≠ some c := by
  intro h
  obtain ⟨d, hd, rfl⟩ := mem_pad (by decide) (List.mem_of_getElem? h)
  exact hc d hd rfl

theorem colon_not_digit : ∀ d < 10, ':' ≠ Nat.digitChar d := by decide

theorem point_not_digit : ∀ d < 10, '.' ≠ Nat.digitChar d := by decide

/-- What `naiveIsoformat` shows of a time. -/
abbrev timeFields (t : DateTime) : ((((((ℕ × ℕ) × ℕ) × ℕ) × ℕ) × ℕ) × ℕ) :=
  ((((((t.year, t.month), t.day), t.hour), t.minute), t.second), t.microsecond)

theorem reads_naiveIsoformat : Reads signed naiveIsoformat timeFields := by
  have hyear := reads_pad (T := fun _ => True) (n := DateTime.year) (w := 4)
    (by decide) fun t => by have := t.year_range.2; omega
  have hmonth := reads_cons_pad (T := fun _ => True) (n := DateTime.month)
    (w := 2) '-' (by decide) fun t => by have := t.month_range.2; omega
  have hday := reads_cons_pad (T := fun _ => True) (n := DateTime.day)
    (w := 2) '-' (by decide) fun t => by
      have := t.day_range.2
      have := daysInMonth_le t.year t.month
      omega
  have hhour := reads_cons_pad (T := fun _ => True) (n := DateTime.hour)
    (w := 2) 'T' (by decide) fun t => by have := t.time_range.1; omega
  have hminute := reads_cons_pad (T := fun _ => True) (n := DateTime.minute)
    (w := 2) ':' (by decide) fun t => by have := t.time_range.2.1; omega
  have hsecond := reads_cons_pad (T := fun _ => True) (n := DateTime.second)
    (w := 2) ':' (by decide) fun t => by have := t.time_range.2.2.1; omega
  have hmicrosecond : Reads signed (fun t : DateTime =>
      if t.microsecond = 0 then [] else '.' :: pad 10 6 t.microsecond)
      DateTime.microsecond :=
    (reads_cons_pad '.' (by decide) fun t => by
        have := t.time_range.2.2.2; omega).optional
      (P := fun l => l.head? = some '.')
      (fun a b ha hb => ha.trans hb.symm) (fun _ _ _ _ => rfl)
      fun t ht hpoint => by
        rcases ht with h | h <;> rw [h] at hpoint <;> simp at hpoint
  exact (((((hyear.followed hmonth).followed hday).followed hhour).followed
    hminute).followed hsecond).followed hmicrosecond

theorem natAbs_utcoffset_lt (t : AwareDateTime) :
    t.utcoffset.natAbs < 86400000000 := by
  have h := t.offset_range
  unfold DateTime.dayMicros at h
  omega

/-- The seconds of an offset are read up to their microseconds or what follows
the offset. -/
theorem reads_seconds :
    Reads (fun l => l.head? = some '.' ∨ beyondOffset l)
      (fun t : AwareDateTime => if t.utcoffset.natAbs % 60000000 = 0 then []
        else ':' :: pad 10 2 (t.utcoffset.natAbs / 1000000 % 60))
      (fun t => t.utcoffset.natAbs / 1000000 % 60) := by
  apply Reads.optional (reads_cons_pad ':' (by decide) fun t => by omega)
    (P := fun l => l.head? = some ':' ∧ (l[3]? = some ':' ∨ l[3]? = some '.'))
  · intro a b ha hb
    omega
  · intro a l _ hl
    refine ⟨rfl, ?_⟩
    have hnext : (':' :: pad 10 2 (a.utcoffset.natAbs / 1000000 % 60) ++ l)[3]? =
        l.head? := by
      rw [List.getElem?_append_right (by simp), List.head?_eq_getElem?]
      simp
    rw [hnext]
    exact hl.symm.imp_left And.left
  · rintro l (hpoint | ⟨-, hcolon, hpoint⟩) ⟨hhead, hthird⟩
    · rw [hpoint] at hhead
      cases hhead
    · exact hthird.elim hcolon hpoint

theorem reads_offsetIsoformat : Reads beyondOffset
    (fun t : AwareDateTime => offsetIsoformat t.utcoffset)
    AwareDateTime.utcoffset := by
  have hsign : Reads (fun _ => True)
      (fun t : AwareDateTime => [if t.utcoffset < 0 then '-' else '+'])
      (fun t => decide (t.utcoffset < 0)) := by
    apply Reads.of_length
    · exact fun _ _ => rfl
    · intro a b h
      rw [decide_eq_decide]
      split_ifs at h <;> first | omega | simp at h
  have hhour := reads_pad (T := fun _ => True) (w := 2)
    (n := fun t : AwareDateTime => t.utcoffset.natAbs / 1000000 / 3600)
    (by decide) fun t => by have := natAbs_utcoffset_lt t; omega
  have hminute := reads_cons_pad (T := fun _ => True) (w := 2) ':'
    (n := fun t : AwareDateTime => t.utcoffset.natAbs / 1000000 / 60 % 60)
    (by decide) fun t => by omega
  have hmicrosecond : Reads beyondOffset
      (fun t : AwareDateTime => if t.utcoffset.natAbs % 1000000 = 0 then []
        else '.' :: pad 10 6 (t.utcoffset.natAbs % 1000000))
      (fun t => t.utcoffset.natAbs % 1000000) :=
    (reads_cons_pad '.' (by decide) fun t => by omega).optional
      (P := fun l => l.head? = some '.')
      (fun a b ha hb => ha.trans hb.symm) (fun _ _ _ _ => rfl)
      fun l hl hpoint => by
        rw [hl.1] at hpoint
        cases hpoint
  have hoffset := (((hsign.followed hhour).followed hminute).followed
    reads_seconds).append hmicrosecond fun t l hl => by
      split_ifs
      · exact .inr hl
      · exact .inl rfl
  refine hoffset.map fun a b heq => ?_
  simp only [Prod.mk.injEq, decide_eq_decide] at heq
  omega

theorem timeFields_injective : Function.Injective timeFields := by
  rintro ⟨⟩ ⟨⟩ h
  simp_all [timeFields]

theorem reads_isoformat :
    Reads beyondOffset (fun t : AwareDateTime => (isoformat t).toList) id := by
  have hread := (reads_naiveIsoformat.comap AwareDateTime.naive).append
    reads_offsetIsoformat fun t l _ => by
      unfold signed offsetIsoformat
      dsimp only
      split_ifs <;> simp
  unfold isoformat
  simp only [String.toList_ofList]
  refine hread.map fun a b heq => ?_
  rw [Prod.mk.injEq] at heq
  obtain ⟨_, _, _⟩ := a
  obtain ⟨_, _, _⟩ := b
  obtain ⟨hnaive, rfl⟩ := heq
  cases timeFields_injective hnaive
  rfl

/-! ## Keys -/

/-- A year is not the seconds of an offset. -/
theorem beyondOffset_isoformat (t : AwareDateTime) (l : List Char) :
    beyondOffset (':' :: (isoformat t).toList ++ l) := by
  obtain ⟨rest, hrest⟩ : ∃ rest, (isoformat t).toList =
      pad 10 4 t.naive.year ++ rest := by
    unfold isoformat naiveIsoformat
    simp only [String.toList_ofList, List.append_assoc]
    exact ⟨_, rfl⟩
  have hdigit : (':' :: (isoformat t).toList ++ l)[3]? =
      (pad 10 4 t.naive.year)[2]? := by
    rw [hrest, List.cons_append, List.getElem?_cons_succ, List.append_assoc,
      List.getElem?_append_left (by simp)]
  refine ⟨rfl, ?_, ?_⟩ <;> rw [hdigit]
  · exact getElem?_pad_ne colon_not_digit
  · exact getElem?_pad_ne point_not_digit

theorem beyondOffset_value (g : RollupGranularity) :
    beyondOffset (':' :: g.value.toList) := by
  unfold beyondOffset
  cases g <;> decide

theorem toList_metricCacheKey (m : UUID) (s e : AwareDateTime) (g : String) :
    (metricCacheKey m s e g).toList = "metrics:".toList ++ (m.str.toList ++
      (':' :: (isoformat s).toList ++ (':' :: (isoformat e).toList ++
        ':' :: g.toList))) := by
  have hkey : metricCacheKey m s e g = "metrics:" ++ m.str ++ ":" ++
    isoformat s ++ ":" ++ isoformat e ++ ":" ++ g := rfl
  rw [hkey]
  simp [String.toList_append, List.append_assoc]

theorem length_str (u : UUID) : u.str.toList.length = 36 := by
  simp [UUID.str, UUID.hex]

theorem value_injective : Function.Injective RollupGranularity.value := by
  intro g g' h
  revert h
  cases g <;> cases g' <;> decide

theorem reads_granularity :
    Reads (· = []) (fun g : RollupGranularity => ':' :: g.value.toList) id := by
  rintro a b _ _ rfl rfl heq
  rw [List.append_nil, List.append_nil, List.cons_inj_right] at heq
  exact ⟨value_injective (String.toList_inj.mp heq), rfl⟩

/-- A key is read from left to right, each time up to the colon after it. -/
theorem reads_window : Reads (· = [])
    (fun k : AwareDateTime × AwareDateTime × RollupGranularity =>
      ':' :: (isoformat k.1).toList ++
        (':' :: (isoformat k.2.1).toList ++ ':' :: k.2.2.value.toList))
    (fun k => (k.1, k.2.1, k.2.2)) := by
  have hstop : Reads (· = [])
      (fun k : AwareDateTime × RollupGranularity =>
        ':' :: (isoformat k.1).toList ++ ':' :: k.2.value.toList)
      (fun k => (k.1, k.2)) := by
    apply ((reads_isoformat.after [':']).comap Prod.fst).append
      (reads_granularity.comap Prod.snd)
    rintro k _ rfl
    rw [List.append_nil]
    exact beyondOffset_value k.2
  apply ((reads_isoformat.after [':']).comap Prod.fst).append
    (hstop.comap Prod.snd)
  intro k l _
  rw [List.append_assoc]
  exact beyondOffset_isoformat k.2.1 _

/-- **A key names its query.** -/
theorem metricCacheKey_injective {m m' : UUID} {s e s' e' : AwareDateTime}
    {g g' : RollupGranularity}
    (h : metricCacheKey m s e g.value = metricCacheKey m' s' e' g'.value) :
    m = m' ∧ s = s' ∧ e = e' ∧ g = g' := by
  have heq := congrArg String.toList h
  rw [toList_metricCacheKey, toList_metricCacheKey, List.append_cancel_left_eq]
    at heq
  obtain ⟨hm, hwindow⟩ := List.append_inj heq (by rw [length_str, length_str])
  have hread := @reads_window (s, e, g) (s', e', g') [] [] rfl rfl
    (congrArg (· ++ []) hwindow)
  cases hread.1
  exact ⟨UUID.str_injective (String.toList_inj.mp hm), rfl, rfl, rfl⟩

theorem length_metricCacheKey (m : UUID) (s e : AwareDateTime) (g : String) :
    44 < (metricCacheKey m s e g).length := by
  rw [← String.length_toList, toList_metricCacheKey]
  simp only [List.length_append, length_str, List.length_cons]
  change 44 < 8 + _
  omega

theorem metricCacheKey_ne_sparkline (m m' : UUID) (s e : AwareDateTime)
    (g : String) (w : ℤ) : metricCacheKey m s e g ≠ sparklineCacheKey m' w := by
  intro h
  have hspark : sparklineCacheKey m' w = "sparkline:" ++ m'.str ++ ":" ++ toString w :=
    rfl
  have hhead := congrArg (fun k : String => k.toList.head?) h
  simp only [toList_metricCacheKey, hspark, String.toList_append,
    List.append_assoc] at hhead
  revert hhead
  change some 'm' ≠ some 's'
  decide

/-- **Metric keys never collide.** -/
theorem metric_keys_never_collide :
    (∀ (m m' : UUID) (s e s' e' : AwareDateTime) (g g' : RollupGranularity),
      metricCacheKey m s e g.value = metricCacheKey m' s' e' g'.value →
        m = m' ∧ g = g' ∧ s.instant = s'.instant ∧ e.instant = e'.instant) ∧
    ∀ (m : UUID) (s e : AwareDateTime) (g : RollupGranularity),
      (∀ (m' : UUID) (window_minutes : ℤ), metricCacheKey m s e g.value ≠
        sparklineCacheKey m' window_minutes) ∧
      metricCacheKey m s e g.value ≠ "metrics:ingestion_rate" ∧
      metricCacheKey m s e g.value ≠ "metrics:cache_hits" ∧
      metricCacheKey m s e g.value ≠ "metrics:cache_misses" := by
  constructor
  · intro m m' s e s' e' g g' h
    obtain ⟨rfl, rfl, rfl, rfl⟩ := metricCacheKey_injective h
    exact ⟨rfl, rfl, rfl, rfl⟩
  · intro m s e g
    have hlength := length_metricCacheKey m s e g.value
    refine ⟨fun m' w => metricCacheKey_ne_sparkline m m' s e g.value w,
      ?_, ?_, ?_⟩ <;>
    · intro h
      rw [h] at hlength
      revert hlength
      decide

/-- Midnight at an offset with seconds. -/
def secondsOffset : AwareDateTime := ⟨default, 3630000000, by decide⟩

theorem seconds_offset_key_read_back :
    ((0 : UUID) = 0 ∧ RollupGranularity.day = .day ∧
      secondsOffset.instant = secondsOffset.instant ∧
      (AwareDateTime.utc default).instant =
        (AwareDateTime.utc default).instant) ∧
    metricCacheKey 0 secondsOffset (.utc default) "day" ≠
      sparklineCacheKey 0 60 :=
  ⟨metric_keys_never_collide.1 0 0 secondsOffset (.utc default) secondsOffset
      (.utc default) .day .day rfl,
    (metric_keys_never_collide.2 0 secondsOffset (.utc default) .day).1 0 60⟩

end AnalyticsPipeline
