import AnalyticsPipeline.Guarantees.Partitioning
import AnalyticsPipeline.Model.PartitionSchedule

/-!
# Partitions on schedule

The script fails over rows of the default partition, and rows end up there when
the script is late. A job that is on time keeps the default partition empty and
never fails, however its turns fall between the events that come in. A single
row that came too early blocks its day for good.
-/

namespace AnalyticsPipeline

open Framework CreatePartitions

/-! ## The partitioned table -/

theorem Partition.Apart.not_holds {p q : Partition} {r : RawEvent}
    (h : p.Apart q) (hp : p.Holds r) : ¬ q.Holds r := by
  unfold Partition.Apart at h
  unfold Partition.Holds at hp ⊢
  omega

/-- The day has its partition. -/
def PartitionedTable.HasDay (t : PartitionedTable) (d : DateTime) : Prop :=
  ∃ p ∈ t.partitions, p.IsDay d

namespace PartitionedTable.Daily

variable {t : PartitionedTable} {d : DateTime} {r : RawEvent}

/-- One partition takes the row. -/
theorem flatMap_taking {ps : List Partition} (happart : ps.Pairwise Partition.Apart)
    (hany : ∃ p ∈ ps, p.Holds r) :
    ((ps.map (taking r)).flatMap Partition.rows).Perm
      (ps.flatMap Partition.rows ++ [r]) := by
  induction ps with
  | nil =>
      obtain ⟨p, hp, -⟩ := hany
      cases hp
  | cons p rest ih =>
      obtain ⟨hhead, hrest⟩ := List.pairwise_cons.mp happart
      rw [List.map_cons, List.flatMap_cons, List.flatMap_cons]
      by_cases hp : p.Holds r
      · have hothers : ∀ q ∈ rest, taking r q = q := fun q hq =>
          if_neg ((hhead q hq).not_holds hp)
        rw [(List.map_congr_left hothers).trans (List.map_id' rest), taking, if_pos hp,
          List.append_assoc, List.append_assoc]
        exact List.perm_append_comm.append_left p.rows
      · have hsome : ∃ q ∈ rest, q.Holds r := by
          obtain ⟨q, hq, hholds⟩ := hany
          rcases List.mem_cons.mp hq with rfl | hq
          · exact absurd hholds hp
          · exact ⟨q, hq, hholds⟩
        rw [taking, if_neg hp, List.append_assoc]
        exact (ih hrest hsome).append_left p.rows

/-- An insert adds the row, and adds it once. -/
theorem rows_insert (ht : t.Daily) (r : RawEvent) :
    (t.insert r).rows.Perm (t.rows ++ [r]) := by
  unfold PartitionedTable.insert
  split
  · rename_i hany
    obtain ⟨p, hp, hholds⟩ := List.any_eq_true.mp hany
    have hmoved := flatMap_taking ht.apart ⟨p, hp, of_decide_eq_true hholds⟩
    have hcomm : (t.partitions.flatMap Partition.rows ++ [r] ++ t.default_rows).Perm
        (t.partitions.flatMap Partition.rows ++ t.default_rows ++ [r]) := by
      rw [List.append_assoc, List.append_assoc]
      exact List.perm_append_comm.append_left _
    exact (hmoved.append_right t.default_rows).trans hcomm
  · rw [PartitionedTable.rows, PartitionedTable.rows, List.append_assoc]

theorem drop (ht : t.Daily) (name : String) : (t.drop name).Daily where
  day := fun p hp => ht.day p (List.mem_filter.mp hp).1
  apart := ht.apart.filter _
  placed := fun p hp => ht.placed p (List.mem_filter.mp hp).1
  unplaced := fun r hr p hp => ht.unplaced r hr p (List.mem_filter.mp hp).1

/-- A row in the default partition has no partition for its day. -/
theorem not_hasDay (ht : t.Daily) (hr : r ∈ t.default_rows) :
    ¬ t.HasDay r.occurred_at.truncDay := by
  rintro ⟨p, hp, hday⟩
  exact ht.unplaced r hr p hp
    ((hday.holds_iff r.occurred_at.truncDay_truncDay).mpr rfl)

end PartitionedTable.Daily

namespace PartitionedTable

variable {t t' : PartitionedTable} {d : DateTime} {r : RawEvent}

theorem HasDay.mono (h : t.HasDay d) (hsub : t.partitions ⊆ t'.partitions) :
    t'.HasDay d := by
  obtain ⟨p, hp, hday⟩ := h
  exact ⟨p, hsub hp, hday⟩

theorem HasDay.insert (h : t.HasDay d) (r : RawEvent) : (t.insert r).HasDay d := by
  obtain ⟨p, hp, hday⟩ := h
  unfold PartitionedTable.insert
  split
  · obtain ⟨hname, hstart, hstop⟩ := Daily.taking_bounds r p
    exact ⟨Daily.taking r p, List.mem_map_of_mem hp, hname.trans hday.name,
      hstart.trans hday.start, hstop.trans hday.stop⟩
  · exact ⟨p, hp, hday⟩

/-- Where its day has a partition, a row stays out of the default one. -/
theorem HasDay.insert_default (h : t.HasDay r.occurred_at.truncDay) :
    (t.insert r).default_rows = t.default_rows := by
  obtain ⟨p, hp, hday⟩ := h
  have hholds : p.Holds r :=
    (hday.holds_iff r.occurred_at.truncDay_truncDay).mpr rfl
  unfold PartitionedTable.insert
  rw [if_pos (List.any_eq_true.mpr ⟨p, hp, decide_eq_true hholds⟩)]

theorem default_subset_insert (t : PartitionedTable) (r : RawEvent) :
    t.default_rows ⊆ (t.insert r).default_rows := by
  unfold PartitionedTable.insert
  split
  · exact List.Subset.refl _
  · exact List.subset_append_left _ _

/-- A dropped partition takes its rows with it, and no others. -/
theorem rows_drop (t : PartitionedTable) (name : String) :
    ((t.drop name).rows ++ t.rowsOf name).Perm t.rows := by
  have hsplit := List.filter_append_perm (fun p : Partition => decide (p.name ≠ name))
    t.partitions
  have hnamed : t.partitions.filter (fun p => !decide (p.name ≠ name)) =
      t.partitions.filter fun p => p.name = name :=
    List.filter_congr fun p _ => by simp
  rw [hnamed] at hsplit
  have hrows := hsplit.flatMap_right Partition.rows
  rw [List.flatMap_append] at hrows
  have hcomm : ((t.drop name).rows ++ t.rowsOf name).Perm
      ((t.drop name).partitions.flatMap Partition.rows ++ t.rowsOf name ++
        t.default_rows) := by
    rw [PartitionedTable.rows, List.append_assoc, List.append_assoc]
    exact List.perm_append_comm.append_left _
  exact hcomm.trans (hrows.append_right t.default_rows)

end PartitionedTable

/-! ## Steps -/

namespace CreatePartitions

variable {s s' : ScheduleState} {e : ScheduleEvent} {es : List ScheduleEvent}
  {p p' : ScriptRun} {t t' : PartitionedTable} {d : DateTime}

/-- A turn is through with its day, or the process has come to its end. -/
theorem turn?_eq_some (h : turn? p t = some (p', t')) :
    ∃ i rest, p.left = .ok (i :: rest) ∧
      ((ensurePartition p.today i t = .ok t' ∧ p' = { p with left := .ok rest }) ∨
        ∃ e, ensurePartition p.today i t = .error e ∧ t' = t ∧
          p' = { p with left := .error e }) := by
  unfold turn? at h
  split at h
  · rename_i i rest hleft
    refine ⟨i, rest, hleft, ?_⟩
    split at h
    · rename_i t₁ hturn
      cases h
      exact .inl ⟨hturn, rfl⟩
    · rename_i e hturn
      cases h
      exact .inr ⟨e, hturn, rfl, rfl⟩
  · cases h

/-- **What a step does.** -/
theorem next?_eq_some (h : next? s e = some s') :
    (∃ now, e = .clock now ∧ s.now.micros ≤ now.micros ∧ s' = { s with now := now }) ∨
      (∃ days_ahead, e = .starts days_ahead ∧
        s' = { s with scripts := s.scripts ++ [started s.now days_ahead] }) ∨
      (∃ k p p' t', e = .turns k ∧ s.scripts[k]? = some p ∧
        turn? p s.table = some (p', t') ∧
        s' = { s with scripts := s.scripts.set k p', table := t' }) ∨
      (∃ row, e = .ingests row ∧ s' = { s with
        table := s.table.insert row, ingested := s.ingested ++ [row] }) ∨
      ∃ name, e = .drops name ∧ s' = { s with
        table := s.table.drop name, dropped := s.dropped ++ s.table.rowsOf name } := by
  cases e with
  | clock now =>
      simp only [next?] at h
      split at h
      · rename_i hle
        cases h
        exact .inl ⟨now, rfl, hle, rfl⟩
      · cases h
  | starts days_ahead =>
      cases h
      exact .inr (.inl ⟨days_ahead, rfl, rfl⟩)
  | turns k =>
      obtain ⟨p, hp, hmap⟩ := Option.bind_eq_some_iff.mp h
      obtain ⟨⟨p', t'⟩, hturn, rfl⟩ := Option.map_eq_some_iff.mp hmap
      exact .inr (.inr (.inl ⟨k, p, p', t', rfl, hp, hturn, rfl⟩))
  | ingests row =>
      cases h
      exact .inr (.inr (.inr (.inl ⟨row, rfl, rfl⟩)))
  | drops name =>
      cases h
      exact .inr (.inr (.inr (.inr ⟨name, rfl, rfl⟩)))

/-! ## Any schedule -/

/-- Rows are where they belong, and none is lost. -/
structure Tidy (s : ScheduleState) : Prop where
  daily : s.table.Daily
  midnight : ∀ p ∈ s.scripts, p.today.truncDay = p.today
  turns : ∀ p ∈ s.scripts, ∀ rest, p.left = .ok rest → rest ⊆ dayOffsets p.days_ahead
  kept : (s.table.rows ++ s.dropped).Perm s.ingested

theorem tidy_migrated (now : DateTime) : Tidy (migrated now) :=
  ⟨Produced.migrated.daily, fun _ hp => (List.not_mem_nil hp).elim,
    fun _ hp => (List.not_mem_nil hp).elim, .refl _⟩

/-- A turn adds a partition at most. -/
theorem turn?_keeps (ht : t.Daily) (htoday : p.today.truncDay = p.today)
    (h : turn? p t = some (p', t')) :
    p'.today = p.today ∧ p'.days_ahead = p.days_ahead ∧ t'.Daily ∧
      t'.default_rows = t.default_rows ∧ t'.rows = t.rows ∧
      t.partitions ⊆ t'.partitions := by
  obtain ⟨i, rest, -, ⟨hturn, rfl⟩ | ⟨e, -, rfl, rfl⟩⟩ := turn?_eq_some h
  · obtain ⟨d, -, hgains⟩ := ensurePartition_ok ht htoday hturn
    exact ⟨rfl, rfl, hgains.daily, hgains.default_rows, hgains.rows, hgains.keeps⟩
  · exact ⟨rfl, rfl, ht, rfl, rfl, List.Subset.refl _⟩

theorem turn?_turns {offsets rest : List ℤ}
    (hsub : ∀ rest, p.left = .ok rest → rest ⊆ offsets)
    (h : turn? p t = some (p', t')) (hleft : p'.left = .ok rest) : rest ⊆ offsets := by
  obtain ⟨i, rest', hbefore, ⟨-, rfl⟩ | ⟨e, -, -, rfl⟩⟩ := turn?_eq_some h
  · cases hleft
    exact fun j hj => hsub _ hbefore (List.mem_cons_of_mem i hj)
  · cases hleft

theorem Tidy.next (hs : Tidy s) (h : next? s e = some s') : Tidy s' := by
  rcases next?_eq_some h with ⟨now, -, -, rfl⟩ | ⟨days_ahead, -, rfl⟩ |
    ⟨k, p, p', t', -, hp, hturn, rfl⟩ | ⟨row, -, rfl⟩ | ⟨name, -, rfl⟩
  · exact ⟨hs.daily, hs.midnight, hs.turns, hs.kept⟩
  · refine ⟨hs.daily, fun p hp => ?_, fun p hp => ?_, hs.kept⟩
    · rcases List.mem_append.mp hp with hp | hp
      · exact hs.midnight p hp
      · rw [List.mem_singleton.mp hp]
        exact s.now.truncDay_truncDay
    · rcases List.mem_append.mp hp with hp | hp
      · exact hs.turns p hp
      · rw [List.mem_singleton.mp hp]
        intro rest hleft
        cases hleft
        exact List.Subset.refl _
  · have hmidnight := hs.midnight p (List.mem_of_getElem? hp)
    obtain ⟨htoday, hdays, hdaily, -, hrows, -⟩ := turn?_keeps hs.daily hmidnight hturn
    refine ⟨hdaily, fun q hq => ?_, fun q hq => ?_, by rw [hrows]; exact hs.kept⟩
    · rcases List.mem_or_eq_of_mem_set hq with hq | rfl
      · exact hs.midnight q hq
      · rw [htoday]
        exact hmidnight
    · rcases List.mem_or_eq_of_mem_set hq with hq | rfl
      · exact hs.turns q hq
      · intro rest hrest
        rw [hdays]
        exact turn?_turns (hs.turns p (List.mem_of_getElem? hp)) hturn hrest
  · refine ⟨hs.daily.insert row, hs.midnight, hs.turns, ?_⟩
    have hrows := (hs.daily.rows_insert row).append_right s.dropped
    rw [List.append_assoc] at hrows
    have hcomm : (s.table.rows ++ ([row] ++ s.dropped)).Perm
        (s.table.rows ++ s.dropped ++ [row]) := by
      rw [List.append_assoc]
      exact List.perm_append_comm.append_left _
    exact hrows.trans (hcomm.trans (hs.kept.append_right [row]))
  · refine ⟨hs.daily.drop name, hs.midnight, hs.turns, ?_⟩
    have hrows := (s.table.rows_drop name).append_right s.dropped
    have hcomm : ((s.table.drop name).rows ++ (s.dropped ++ s.table.rowsOf name)).Perm
        ((s.table.drop name).rows ++ s.table.rowsOf name ++ s.dropped) := by
      rw [List.append_assoc]
      exact List.perm_append_comm.append_left _
    exact hcomm.trans (hrows.trans hs.kept)

/-! ## On time -/

/-- The day is in the window of the process. -/
def Covers (p : ScriptRun) (d : DateTime) : Prop :=
  p.today.ordinal ≤ d.ordinal + 1 ∧ d.ordinal ≤ p.today.ordinal + p.days_ahead

/-- The process is past the turn of the day. -/
def Past (p : ScriptRun) (d : DateTime) : Prop :=
  ∃ rest, p.left = .ok rest ∧ ((d.ordinal : ℤ) - p.today.ordinal) ∉ rest

/-- Python has the days of the window and the one after. -/
def InCalendar (p : ScriptRun) : Prop :=
  1 < p.today.ordinal ∧ p.today.ordinal + p.days_ahead < DateTime.maxOrdinal

/-- A row comes in no later than on the day after it was stamped, and when a
process with this day in its window has returned. What is dropped is older than
yesterday. -/
def OnTime (s : ScheduleState) : ScheduleEvent → Prop
  | .ingests row =>
      row.occurred_at.micros ≤ s.now.micros ∧
        s.now.ordinal ≤ row.occurred_at.ordinal + 1 ∧
        ∃ p ∈ s.scripts, p.left = .ok [] ∧ s.now.ordinal ≤ p.today.ordinal + p.days_ahead
  | .drops name =>
      ∀ p ∈ s.table.partitions, p.name = name →
        p.stop ≤ (s.now.ordinal - 1) * DateTime.dayMicros
  | _ => True

/-- No row is where it blocks the script, and a day that rows may still come for
has its partition once a process is past it. -/
structure Punctual (s : ScheduleState) : Prop where
  empty : s.table.default_rows = []
  began : ∀ p ∈ s.scripts, p.today.ordinal ≤ s.now.ordinal
  unstopped : ∀ p ∈ s.scripts, InCalendar p → ∃ rest, p.left = .ok rest
  covered : ∀ p ∈ s.scripts, ∀ d, d.truncDay = d → Covers p d → Past p d →
    s.now.ordinal ≤ d.ordinal + 1 → s.table.HasDay d

theorem punctual_migrated (now : DateTime) : Punctual (migrated now) :=
  ⟨rfl, fun _ hp => (List.not_mem_nil hp).elim, fun _ hp => (List.not_mem_nil hp).elim,
    fun _ hp => (List.not_mem_nil hp).elim⟩

theorem ordinal_le_of_micros_le {u v : DateTime} (h : u.micros ≤ v.micros) :
    u.ordinal ≤ v.ordinal := by
  have hu := u.timeOfDay_lt
  have hv := v.timeOfDay_lt
  unfold DateTime.micros at h
  unfold DateTime.dayMicros at *
  omega

/-- A process that has just begun is past no day of its window. -/
theorem not_past_started {now : DateTime} {days_ahead : ℕ}
    (h : Covers (started now days_ahead) d) : ¬ Past (started now days_ahead) d := by
  rintro ⟨rest, hleft, hnot⟩
  cases hleft
  refine hnot (mem_dayOffsets.mpr ?_)
  obtain ⟨hlow, hhigh⟩ := h
  unfold started at *
  dsimp only at *
  omega

/-- With nothing in the default partition only the calendar can stop a turn. -/
theorem turn?_ok (ht : t.Daily) (htoday : p.today.truncDay = p.today)
    (hempty : t.default_rows = []) (hcalendar : InCalendar p)
    (hturns : ∀ rest, p.left = .ok rest → rest ⊆ dayOffsets p.days_ahead)
    (h : turn? p t = some (p', t')) : ∃ rest, p'.left = .ok rest := by
  obtain ⟨i, rest, hleft, ⟨-, rfl⟩ | ⟨e, hturn, -, -⟩⟩ := turn?_eq_some h
  · exact ⟨rest, rfl⟩
  · obtain ⟨hlow, hhigh⟩ := mem_dayOffsets.mp (hturns _ hleft List.mem_cons_self)
    obtain ⟨hfirst, hlast⟩ := hcalendar
    obtain ⟨t₁, hok⟩ := (ensurePartition_ok_iff (i := i) ht htoday).mpr
      ⟨⟨by omega, by omega⟩, fun r hr => by rw [hempty] at hr; cases hr⟩
    rw [hok] at hturn
    cases hturn

/-- **A turn on time** does not fail, and its day has a partition from then on. -/
theorem Punctual.turn (hs : Punctual s) (htidy : Tidy s) {k : ℕ}
    (hp : s.scripts[k]? = some p) (h : turn? p s.table = some (p', t')) :
    Punctual { s with scripts := s.scripts.set k p', table := t' } := by
  have hmem := List.mem_of_getElem? hp
  have hmidnight := htidy.midnight p hmem
  obtain ⟨htoday, hdays, -, hdefault, -, hsub⟩ := turn?_keeps htidy.daily hmidnight h
  have hold : ∀ q ∈ s.scripts, ∀ d, d.truncDay = d → Covers q d → Past q d →
      s.now.ordinal ≤ d.ordinal + 1 → t'.HasDay d :=
    fun q hq d hd hcovers hpast hnow => (hs.covered q hq d hd hcovers hpast hnow).mono hsub
  obtain ⟨i, rest, hleft, hcase⟩ := turn?_eq_some h
  refine ⟨hdefault.trans hs.empty, fun q hq => ?_, fun q hq => ?_, fun q hq => ?_⟩
  · rcases List.mem_or_eq_of_mem_set hq with hq | rfl
    · exact hs.began q hq
    · rw [htoday]
      exact hs.began p hmem
  · rcases List.mem_or_eq_of_mem_set hq with hq | rfl
    · exact hs.unstopped q hq
    · intro hcalendar
      rw [InCalendar, htoday, hdays] at hcalendar
      exact turn?_ok htidy.daily hmidnight hs.empty hcalendar (htidy.turns p hmem) h
  · rcases List.mem_or_eq_of_mem_set hq with hq | rfl
    · exact hold q hq
    · intro d hd hcovers hpast hnow
      rcases hcase with ⟨hturn, rfl⟩ | ⟨e', -, -, rfl⟩
      · obtain ⟨d', htarget, hgains⟩ := ensurePartition_ok htidy.daily hmidnight hturn
        by_cases hday : d.ordinal = d'.ordinal
        · rw [eq_of_ordinal_eq hd htarget.midnight hday]
          exact hgains.own
        · refine hold p hmem d hd hcovers ⟨i :: rest, hleft, ?_⟩ hnow
          obtain ⟨_, hrest, hnot⟩ := hpast
          cases hrest
          have hord := htarget.ordinal
          intro hin
          rcases List.mem_cons.mp hin with heq | hin
          · omega
          · exact hnot hin
      · obtain ⟨_, hrest, -⟩ := hpast
        cases hrest

theorem Punctual.next (hs : Punctual s) (htidy : Tidy s) (hok : OnTime s e)
    (h : next? s e = some s') : Punctual s' := by
  rcases next?_eq_some h with ⟨now, -, hle, rfl⟩ | ⟨days_ahead, -, rfl⟩ |
    ⟨k, p, p', t', -, hp, hturn, rfl⟩ | ⟨row, rfl, rfl⟩ | ⟨name, rfl, rfl⟩
  · have hord := ordinal_le_of_micros_le hle
    exact ⟨hs.empty, fun p hp => (hs.began p hp).trans hord, hs.unstopped,
      fun p hp d hd hcovers hpast hnow =>
        hs.covered p hp d hd hcovers hpast (hord.trans hnow)⟩
  · refine ⟨hs.empty, fun p hp => ?_, fun p hp => ?_, fun p hp => ?_⟩
    · rcases List.mem_append.mp hp with hp | hp
      · exact hs.began p hp
      · rw [List.mem_singleton.mp hp]
        exact Nat.le_refl _
    · rcases List.mem_append.mp hp with hp | hp
      · exact hs.unstopped p hp
      · rw [List.mem_singleton.mp hp]
        exact fun _ => ⟨_, rfl⟩
    · rcases List.mem_append.mp hp with hp | hp
      · exact hs.covered p hp
      · rw [List.mem_singleton.mp hp]
        exact fun d _ hcovers hpast => absurd hpast (not_past_started hcovers)
  · exact hs.turn htidy hp hturn
  · -- the window begins yesterday, so it has the day the row was stamped on
    obtain ⟨hbefore, hday, p, hp, hreturned, hwindow⟩ := hok
    have hord := ordinal_le_of_micros_le hbefore
    have hbegan := hs.began p hp
    have hhas : s.table.HasDay row.occurred_at.truncDay := by
      refine hs.covered p hp _ row.occurred_at.truncDay_truncDay ?_
        ⟨[], hreturned, List.not_mem_nil⟩ hday
      exact ⟨by rw [DateTime.truncDay_ordinal]; omega,
        by rw [DateTime.truncDay_ordinal]; omega⟩
    refine ⟨hhas.insert_default.trans hs.empty, hs.began, hs.unstopped, ?_⟩
    exact fun p hp d hd hcovers hpast hnow =>
      (hs.covered p hp d hd hcovers hpast hnow).insert row
  · refine ⟨hs.empty, hs.began, hs.unstopped, fun p hp d hd hcovers hpast hnow => ?_⟩
    obtain ⟨q, hq, hday⟩ := hs.covered p hp d hd hcovers hpast hnow
    refine ⟨q, List.mem_filter.mpr ⟨hq, decide_eq_true fun hname => ?_⟩, hday⟩
    have hstop := hok q hq hname
    rw [hday.stop, micros_midnight hd] at hstop
    have hnow' : s.now.ordinal ≤ d.ordinal + 1 := hnow
    unfold DateTime.dayMicros at hstop
    omega

instance decidableOnTime : ∀ (s : ScheduleState) (e : ScheduleEvent),
    Decidable (OnTime s e)
  | _, .ingests _ => inferInstanceAs (Decidable (_ ∧ _ ∧ ∃ _ ∈ _, _))
  | _, .drops _ => inferInstanceAs (Decidable (∀ _ ∈ _, _))
  | _, .clock _ => .isTrue trivial
  | _, .starts _ => .isTrue trivial
  | _, .turns _ => .isTrue trivial

/-- **A job on time** keeps the default partition empty: in every run of any
number of its processes next to ingestion and the dropping of old partitions, no
process stops that stays within the calendar, every row is in the partition of
its day, and none is lost. -/
theorem partitions_on_schedule {now : DateTime}
    (h : run? (guarded? OnTime next?) (migrated now) es = some s) :
    s.table.default_rows = [] ∧
      (∀ p ∈ s.scripts, InCalendar p → ∃ rest, p.left = .ok rest) ∧
      (∀ r ∈ s.table.rows, ∃ p ∈ s.table.partitions,
        p.IsDay r.occurred_at.truncDay ∧ r ∈ p.rows) ∧
      (s.table.rows ++ s.dropped).Perm s.ingested := by
  have hinv : Tidy s ∧ Punctual s := by
    refine run?_preserves (P := fun s => Tidy s ∧ Punctual s) (fun hs he => ?_)
      ⟨tidy_migrated now, punctual_migrated now⟩ h
    obtain ⟨hok, hstep⟩ := guarded?_eq_some.mp he
    exact ⟨hs.1.next hstep, hs.2.next hs.1 hok hstep⟩
  obtain ⟨htidy, hpunctual⟩ := hinv
  refine ⟨hpunctual.empty, hpunctual.unstopped, fun r hr => ?_, htidy.kept⟩
  rw [PartitionedTable.rows, hpunctual.empty, List.append_nil] at hr
  obtain ⟨p, hp, hrow⟩ := List.mem_flatMap.mp hr
  obtain ⟨d, hd, hday⟩ := htidy.daily.day p hp
  have hord := (hday.holds_iff hd).mp (htidy.daily.placed p hp r hrow)
  have heq : r.occurred_at.truncDay = d :=
    eq_of_ordinal_eq r.occurred_at.truncDay_truncDay hd hord
  exact ⟨p, hp, heq ▸ hday, hrow⟩

/-- A process that prepares three days, and a row after it. -/
theorem partitions_on_schedule_once : ∃ s,
    run? (guarded? OnTime next?) (migrated (Sample.instant 5))
      [.starts 1, .turns 0, .turns 0, .turns 0,
        .ingests (Sample.row (Sample.payment 'a' 250) 1 3)] = some s ∧
    s.table.default_rows = [] := by
  have hsome : (run? (guarded? OnTime next?) (migrated (Sample.instant 5))
      [.starts 1, .turns 0, .turns 0, .turns 0,
        .ingests (Sample.row (Sample.payment 'a' 250) 1 3)]).isSome = true := by
    decide +kernel
  obtain ⟨s, hs⟩ := Option.isSome_iff_exists.mp hsome
  exact ⟨s, hs, (partitions_on_schedule hs).1⟩

/-! ## Too late -/

/-- The row is still in the way of its day, and no process started since is past
it. -/
structure Blocked (r : RawEvent) (n : ℕ) (s : ScheduleState) : Prop where
  row : r ∈ s.table.default_rows
  old : n ≤ s.scripts.length
  stuck : ∀ p ∈ s.scripts.drop n, Covers p r.occurred_at.truncDay →
    ¬ Past p r.occurred_at.truncDay

/-- The turn of a day with a row in the default partition fails. -/
theorem not_past_turn {r : RawEvent} (ht : t.Daily)
    (htoday : p.today.truncDay = p.today) (hr : r ∈ t.default_rows)
    (hpast : ¬ Past p r.occurred_at.truncDay) (h : turn? p t = some (p', t')) :
    ¬ Past p' r.occurred_at.truncDay := by
  obtain ⟨i, rest, hleft, ⟨hturn, rfl⟩ | ⟨e, -, -, rfl⟩⟩ := turn?_eq_some h
  · rintro ⟨_, hrest, hnot⟩
    cases hrest
    obtain ⟨d, htarget, hgains⟩ := ensurePartition_ok ht htoday hturn
    refine hpast ⟨i :: rest, hleft, fun hin => ?_⟩
    rcases List.mem_cons.mp hin with heq | hin
    · have hord := htarget.ordinal
      have hday : d = r.occurred_at.truncDay :=
        eq_of_ordinal_eq htarget.midnight r.occurred_at.truncDay_truncDay (by omega)
      exact hgains.daily.not_hasDay (hgains.default_rows ▸ hr) (hday ▸ hgains.own)
    · exact hnot hin
  · rintro ⟨_, hrest, -⟩
    cases hrest

theorem Blocked.next {r : RawEvent} {n : ℕ} (hs : Blocked r n s) (htidy : Tidy s)
    (h : next? s e = some s') : Blocked r n s' := by
  rcases next?_eq_some h with ⟨now, -, -, rfl⟩ | ⟨days_ahead, -, rfl⟩ |
    ⟨k, p, p', t', -, hp, hturn, rfl⟩ | ⟨row, -, rfl⟩ | ⟨name, -, rfl⟩
  · exact ⟨hs.row, hs.old, hs.stuck⟩
  · refine ⟨hs.row, ?_, fun p hp => ?_⟩
    · rw [List.length_append]
      exact hs.old.trans (Nat.le_add_right _ _)
    · rw [List.drop_append_of_le_length hs.old] at hp
      rcases List.mem_append.mp hp with hp | hp
      · exact hs.stuck p hp
      · rw [List.mem_singleton.mp hp]
        exact not_past_started
  · have hmidnight := htidy.midnight p (List.mem_of_getElem? hp)
    obtain ⟨htoday, hdays, -, hdefault, -, -⟩ := turn?_keeps htidy.daily hmidnight hturn
    refine ⟨hdefault ▸ hs.row, by rw [List.length_set]; exact hs.old, fun q hq => ?_⟩
    obtain ⟨j, hj⟩ := List.mem_iff_getElem?.mp hq
    rw [List.getElem?_drop, List.getElem?_set] at hj
    split at hj
    · -- the process is one that started since
      rename_i hk
      split at hj
      · cases hj
        intro hcovers
        refine not_past_turn htidy.daily hmidnight hs.row (hs.stuck p ?_ ?_) hturn
        · exact List.mem_iff_getElem?.mpr ⟨j, by rw [List.getElem?_drop, ← hk]; exact hp⟩
        · rw [Covers, htoday, hdays] at hcovers
          exact hcovers
      · cases hj
    · exact hs.stuck q (List.mem_iff_getElem?.mpr ⟨j, by rw [List.getElem?_drop]; exact hj⟩)
  · exact ⟨s.table.default_subset_insert row hs.row, hs.old, hs.stuck⟩
  · exact ⟨hs.row, hs.old, hs.stuck⟩

/-- **A row that came too early** blocks its day for good: whatever happens from
then on, the row stays in the default partition, its day gets no partition of its
own, and no process with the day in its window that starts later ever returns. -/
theorem early_row_blocks_its_day {now : DateTime} {es' : List ScheduleEvent}
    (h : run? next? (migrated now) es = some s) {r : RawEvent}
    (hr : r ∈ s.table.default_rows) (h' : run? next? s es' = some s') :
    r ∈ s'.table.default_rows ∧ ¬ s'.table.HasDay r.occurred_at.truncDay ∧
      ∀ p ∈ s'.scripts.drop s.scripts.length, Covers p r.occurred_at.truncDay →
        p.left ≠ .ok [] := by
  have htidy : Tidy s := run?_preserves (P := Tidy) Tidy.next (tidy_migrated now) h
  have hblocked : Blocked r s.scripts.length s :=
    ⟨hr, Nat.le_refl _, fun p hp => by rw [List.drop_length] at hp; cases hp⟩
  obtain ⟨htidy', hblocked'⟩ := run?_preserves
    (P := fun s' => Tidy s' ∧ Blocked r s.scripts.length s')
    (fun hs he => ⟨hs.1.next he, hs.2.next hs.1 he⟩) ⟨htidy, hblocked⟩ h'
  refine ⟨hblocked'.row, htidy'.daily.not_hasDay hblocked'.row, fun p hp hcovers hleft => ?_⟩
  exact hblocked'.stuck p hp hcovers ⟨[], hleft, List.not_mem_nil⟩

/-- A row before the first process, and the process stops at its day. -/
theorem early_row_blocks_its_day_once : ∃ s s' r,
    run? next? (migrated (Sample.instant 5)) [.ingests r] = some s ∧
    run? next? s [.starts 1, .turns 0, .turns 0] = some s' ∧
    ¬ s'.table.HasDay r.occurred_at.truncDay := by
  have hsome : (run? next? (migrated (Sample.instant 5))
      ([.ingests (Sample.row (Sample.payment 'a' 250) 1 3)] ++
        [.starts 1, .turns 0, .turns 0])).isSome = true := by
    decide +kernel
  obtain ⟨s', hs'⟩ := Option.isSome_iff_exists.mp hsome
  obtain ⟨s, hs, hlater⟩ := run?_append.mp hs'
  have hr : Sample.row (Sample.payment 'a' 250) 1 3 ∈ s.table.default_rows := by
    cases hs
    exact List.mem_singleton_self _
  exact ⟨s, s', _, hs, hlater, (early_row_blocks_its_day hs hr hlater).2.1⟩

end CreatePartitions

end AnalyticsPipeline
