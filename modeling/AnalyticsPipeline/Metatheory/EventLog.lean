import AnalyticsPipeline.Framework.Paging
import AnalyticsPipeline.Metatheory.BatchTransaction

/-!
# Reading the event log

A fetch reads one page, in the sense of `Framework.Paging`, of what the log
holds above its cursor; the key is `created_at`, whatever else the query orders
by.
-/

namespace AnalyticsPipeline

open Framework

/-- What can still be fetched after the cursor. -/
def remaining (log : List RawEvent) : Option UUID → List RawEvent
  | none => log
  | some id =>
      match log.filter fun r => r.id = id with
      | [last] => above RawEvent.created_at last.created_at log
      | _ => []

section Orders

instance : Std.Total byCreatedAt :=
  ⟨fun a b => le_total a.created_at b.created_at⟩

instance : IsTrans RawEvent byCreatedAt :=
  ⟨fun _ _ _ hab hbc => le_trans (α := DateTime) hab hbc⟩

instance : Std.Total byCreatedAtId := ⟨fun a b => by
  rcases lt_trichotomy a.created_at b.created_at with h | h | h
  · exact .inl (.inl h)
  · exact (le_total a.id b.id).imp (fun hid => .inr ⟨h, hid⟩)
      fun hid => .inr ⟨h.symm, hid⟩
  · exact .inr (.inl h)⟩

instance : IsTrans RawEvent byCreatedAtId := ⟨by
  rintro a b c (hab | ⟨hab, hid⟩) (hbc | ⟨hbc, hid'⟩)
  · exact .inl (hab.trans hbc)
  · exact .inl (hbc ▸ hab)
  · exact .inl (hab ▸ hbc)
  · exact .inr ⟨hab.trans hbc, hid.trans hid'⟩⟩

theorem created_at_le_of_byCreatedAtId {a b : RawEvent}
    (h : byCreatedAtId a b) : a.created_at ≤ b.created_at := by
  rcases h with h | ⟨h, -⟩
  · exact h.le
  · exact h.le

end Orders

section Remaining

variable {log scan page : List RawEvent} {last : Option UUID} {limit : ℕ}
  {e : RawEvent}

theorem filter_id (hids : (log.map (·.id)).Nodup) (he : e ∈ log) :
    (log.filter fun r => r.id = e.id) = [e] :=
  filter_key_eq hids he

/-- After a page, only what is above its last event remains. -/
theorem remaining_some (hids : (log.map (·.id)).Nodup) (he : e ∈ log) :
    remaining log (some e.id) = above RawEvent.created_at e.created_at log := by
  rw [remaining, filter_id hids he]

theorem remaining_sublist : (remaining log last).Sublist log := by
  unfold remaining
  split
  · exact List.Sublist.refl _
  · split
    · exact List.filter_sublist
    · exact List.nil_sublist _

theorem remaining_subset : remaining log last ⊆ log := remaining_sublist.subset

/-- Whatever the cursor was, above an event that remained the log looks the
same. -/
theorem above_remaining (he : e ∈ remaining log last) :
    above RawEvent.created_at e.created_at (remaining log last) =
      above RawEvent.created_at e.created_at log := by
  unfold remaining at he ⊢
  split at he
  · rfl
  · split at he
    · rename_i c _
      have hlt : c.created_at < e.created_at := by
        simpa [above] using (List.mem_filter.mp he).2
      exact above_above hlt.le
    · cases he

theorem eventsAfter_ne_error (hids : (log.map (·.id)).Nodup) {err : DbError} :
    Stmt.eventsAfter log last limit scan ≠ .error err := by
  intro h
  rw [Stmt.eventsAfter.eq_def] at h
  split at h
  · cases h
  · rename_i id
    split at h
    · cases h
    · cases h
    · rename_i hnil hone
      cases hfilter : log.filter fun r => r.id = id with
      | nil => exact hnil hfilter
      | cons r rs =>
          have hmem : r ∈ log.filter fun r => r.id = id :=
            hfilter ▸ List.mem_cons_self
          obtain ⟨hr, hid⟩ := List.mem_filter.mp hmem
          exact hone r (of_decide_eq_true hid ▸ filter_id hids hr)

/-- A fetch takes the first rows of a sorted list of what remains. -/
theorem eventsAfter_sorted (hperm : scan.Perm log)
    (h : Stmt.eventsAfter log last limit scan = .ok page) :
    ∃ l : List RawEvent, l.Perm (remaining log last) ∧
      (l.Pairwise fun a b => a.created_at ≤ b.created_at) ∧
      page = l.take limit := by
  rw [Stmt.eventsAfter.eq_def] at h
  split at h
  · refine ⟨_, ((List.perm_insertionSort _ _).trans hperm),
      List.pairwise_insertionSort byCreatedAt scan, (Except.ok.inj h).symm⟩
  · rename_i id
    rw [remaining]
    split at h
    · rename_i hnil
      refine ⟨[], ?_, List.Pairwise.nil, ?_⟩
      · rw [hnil]
      · rw [← Except.ok.inj h, List.take_nil]
    · rename_i c hone
      rw [hone]
      refine ⟨_, (List.perm_insertionSort _ _).trans (hperm.filter _),
        (List.pairwise_insertionSort byCreatedAtId _).imp
          created_at_le_of_byCreatedAtId, (Except.ok.inj h).symm⟩
    · cases h

/-- **A fetch is a page** of what remains. -/
theorem eventsAfter_page (hperm : scan.Perm log)
    (h : Stmt.eventsAfter log last limit scan = .ok page)
    (hlast : page.getLast? = some e) :
    ∃ later, PageOf RawEvent.created_at limit (remaining log last) page e
      later := by
  obtain ⟨l, hl, hsorted, rfl⟩ := eventsAfter_sorted hperm h
  exact ⟨l.drop limit, .of_sorted hl hsorted hlast⟩

/-- An empty page: the log is read to its end. -/
theorem remaining_eq_nil (hperm : scan.Perm log) (hlimit : 1 ≤ limit)
    (h : Stmt.eventsAfter log last limit scan = .ok []) :
    remaining log last = [] := by
  obtain ⟨l, hl, -, hpage⟩ := eventsAfter_sorted hperm h
  rcases List.take_eq_nil_iff.mp hpage.symm with hzero | rfl
  · omega
  · exact hl.nil_eq.symm

end Remaining

end AnalyticsPipeline
