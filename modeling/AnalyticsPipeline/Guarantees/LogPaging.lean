import AnalyticsPipeline.Guarantees.ExactlyOnce
import AnalyticsPipeline.Metatheory.EventLog
import AnalyticsPipeline.Metatheory.Resources

/-!
# Paging the event log

A worker alone with a log that does not grow, from no offset until a batch
finds nothing. The offset is compared by `created_at` alone, so events that
share their `created_at` must share their page: the worker reads the whole log
exactly when no page ends between two of them.
-/

namespace AnalyticsPipeline

open Framework

/-! ## Reading to the end -/

/-- Everything that was fetched, in order. -/
def History.fetched (h : History) : List RawEvent := h.fetches.flatMap Fetch.page

/-- `_process_batch`, again and again, until it returns 0. -/
inductive Drain (ok : Call → Choice → Prop) (settings : Settings) (i : ℕ) :
    World → World → Prop where
  | done {w w' : World} :
      Eval (M := services) ok i (RollupWorker.processBatch settings) w (.ok 0)
        w' →
      Drain ok settings i w w'
  | more {w w₁ w' : World} {n : ℕ} :
      Eval (M := services) ok i (RollupWorker.processBatch settings) w (.ok n)
        w₁ →
      n ≠ 0 → Drain ok settings i w₁ w' → Drain ok settings i w w'

/-- These tables and no session at work. -/
def World.settled (db : Db) (redis : Redis) : World where
  db := db
  answered := []
  fetches := []
  redis := redis
  txs := ∅
  issued := Dict.ofList (db.raw_events.map fun r => (r.id, 0))

/-- The worker comes to the end of the log and has then fetched every event
once. -/
def ReadsOnce (settings : Settings) (i : ℕ) (w : World) : Prop :=
  (∃ w', Drain noFailure settings i w w') ∧
    ∀ w', Drain (fun _ _ => True) settings i w w' →
      w'.fetched.Perm w.db.raw_events

section Paging

variable {settings : Settings} {i : ℕ}

theorem Drain.weaken {ok ok' : Call → Choice → Prop} {w w' : World}
    (hok : ∀ c ch, ok c ch → ok' c ch) (hd : Drain ok settings i w w') :
    Drain ok' settings i w w' := by
  induction hd with
  | done he => exact .done (he.weaken hok)
  | more he hn _ ih => exact .more (he.weaken hok) hn ih

theorem coherent_settled {db : Db} (redis : Redis)
    (hids : (db.raw_events.map (·.id)).Nodup) :
    Coherent (World.settled db redis) := by
  refine ⟨by simp [World.settled], by simp [World.settled], fun r hr => ?_⟩
  have hkeys : ((db.raw_events.map fun r => (r.id, 0)).map Prod.fst).Nodup := by
    rwa [List.map_map]
  have hmem : (World.settled db redis).issued.get? r.id = some 0 :=
    (Dict.get?_ofList_eq_some_iff hkeys).mpr
      (List.mem_map_of_mem (f := fun r : RawEvent => (r.id, 0)) hr)
  simp [hmem]

/-- The events a batch may fetch. -/
def History.unread (h : History) (settings : Settings) : List RawEvent :=
  remaining h.db.raw_events (h.cursor settings)

variable {h h' : History} {page new : List RawEvent}

theorem fetched_fetch (h : History) (f : Fetch) :
    (h.fetch f).fetched = h.fetched ++ f.page := by
  simp [History.fetched, History.fetch]

theorem Fetched.eventsAfter {f : Fetch} (hf : Fetched settings h f) :
    ∃ scan : List RawEvent, scan.Perm h.db.raw_events ∧
      Stmt.eventsAfter h.db.raw_events (h.cursor settings)
        settings.worker_batch_size scan = .ok f.page := by
  obtain ⟨scan, hperm, hafter⟩ := hf.valid
  rw [hf.seen, hf.last_event_id, hf.limit] at hafter
  exact ⟨scan, hf.seen ▸ hperm, hafter⟩

theorem BatchOutcome.nothing_unread (hlimit : 1 ≤ settings.worker_batch_size)
    (hout : BatchOutcome settings h none h') :
    h.unread settings = [] ∧ h'.fetched = h.fetched := by
  cases hout with
  | @nothing f hf hpage =>
      obtain ⟨scan, hperm, hafter⟩ := hf.eventsAfter
      rw [hpage] at hafter
      refine ⟨remaining_eq_nil hperm hlimit hafter, ?_⟩
      rw [fetched_fetch, hpage, List.append_nil]

theorem BatchOutcome.page_ne_nil (hout : BatchOutcome settings h (some (page, new))
    h') : page ≠ [] := by
  cases hout with
  | page _ hpage _ => exact hpage

/-- A batch reads one page and leaves what is above it. -/
theorem BatchOutcome.page_unread (hids : (h.db.raw_events.map (·.id)).Nodup)
    (hout : BatchOutcome settings h (some (page, new)) h') :
    h'.db.raw_events = h.db.raw_events ∧ h'.fetched = h.fetched ++ page ∧
    ∃ e later, PageOf RawEvent.created_at settings.worker_batch_size
      (h.unread settings) page e later ∧ h'.cursor settings = some e.id ∧
      h'.unread settings = above RawEvent.created_at e.created_at
        (h.unread settings) := by
  cases hout with
  | @page f new ws hf hpage hbatch =>
      obtain ⟨scan, hperm, hafter⟩ := hf.eventsAfter
      obtain ⟨e, hlast, hoffset⟩ := hbatch.offset
      obtain ⟨later, hpageOf⟩ := eventsAfter_page hperm hafter hlast
      have hraw : ((h.fetch f).install ws []).db.raw_events = h.db.raw_events := by
        rw [History.install, Db.overlay_raw_events, hbatch.appends.2.1]
        exact List.append_nil _
      have hcursor : ((h.fetch f).install ws []).cursor settings =
          some e.id := by
        simp [History.cursor, History.install, Db.overlay, hoffset]
      have hunread : e ∈ h.unread settings :=
        hpageOf.perm.subset (List.mem_append_left _ hpageOf.last_mem)
      refine ⟨hraw, fetched_fetch h f, e, later, hpageOf, hcursor, ?_⟩
      rw [History.unread, hraw, hcursor,
        remaining_some hids (remaining_subset hunread)]
      exact (above_remaining hunread).symm

/-- **What a worker reads** until it finds nothing are the pages of what was
unread. -/
theorem Drain.pages {ok : Call → Choice → Prop} {w w' : World}
    (hlimit : 1 ≤ settings.worker_batch_size) (hd : Drain ok settings i w w')
    (hw : Coherent w) (hidle : NoTx i w)
    (hids : (w.db.raw_events.map (·.id)).Nodup) :
    ∃ pages, Pages RawEvent.created_at settings.worker_batch_size
      (w.toHistory.unread settings) pages ∧
      w'.fetched = w.fetched ++ pages.flatten := by
  induction hd with
  | done he =>
      obtain ⟨-, -, x, hout, hn⟩ := eval_processBatch hw hidle he
      cases x with
      | none =>
          obtain ⟨hnil, hfetched⟩ := hout.nothing_unread hlimit
          exact ⟨[], hnil ▸ .nil, by simp [hfetched]⟩
      | some p =>
          exact absurd (List.length_eq_zero_iff.mp hn.symm) hout.page_ne_nil
  | @more w w₁ w' n he hne _ ih =>
      obtain ⟨hw₁, hidle₁, x, hout, hn⟩ := eval_processBatch hw hidle he
      cases x with
      | none => exact absurd hn hne
      | some p =>
          obtain ⟨hraw, hfetched, e, later, hpage, -, habove⟩ :=
            hout.page_unread hids
          obtain ⟨pages, hpages, hrest⟩ := ih hw₁ hidle₁ (hraw ▸ hids)
          rw [habove] at hpages
          refine ⟨p.1 :: pages, .cons hpage hpages, ?_⟩
          rw [hrest, hfetched, List.flatten_cons, List.append_assoc]

/-- With distinct ids the log can always be read on. -/
theorem not_stuck (hids : (h.db.raw_events.map (·.id)).Nodup) :
    ¬ Stuck settings h := by
  rintro ⟨scan, err, -, herr⟩
  exact eventsAfter_ne_error hids herr

/-- A worker alone comes to the end of the log. -/
theorem exists_drain : ∀ {m : ℕ} {w : World},
    (w.toHistory.unread settings).length < m → Coherent w → Alone i w →
    NoTx i w → (w.db.raw_events.map (·.id)).Nodup →
    ∃ w', Drain noFailure settings i w w'
  | 0, _, hlt, _, _, _, _ => absurd hlt (Nat.not_lt_zero _)
  | m + 1, w, hlt, hw, halone, hidle, hids => by
      obtain ⟨r, w₁, he⟩ := exists_eval_service false
        (metered_draws.processBatch settings) halone (length_issued_le w)
      cases r with
      | error e =>
          exact absurd (eval_processBatch_error hw hidle he) (not_stuck hids)
      | ok n =>
          obtain ⟨hw₁, hidle₁, x, hout, hn⟩ := eval_processBatch hw hidle he
          cases x with
          | none =>
              cases hn
              exact ⟨w₁, .done he⟩
          | some p =>
              obtain ⟨hraw, -, e, later, hpage, -, habove⟩ := hout.page_unread hids
              have hshrink := hpage.length_above_lt
              rw [← habove] at hshrink
              obtain ⟨w', hd⟩ := exists_drain (m := m) (by omega) hw₁
                (eval_alone halone he) hidle₁ (hraw ▸ hids)
              refine ⟨w', .more he ?_ hd⟩
              rw [hn]
              exact fun hzero => hout.page_ne_nil (List.length_eq_zero_iff.mp hzero)

end Paging

/-- **Paging**: a static log is read to its end, every event once, exactly when
in the order of `created_at` no multiple of the page size falls between events
that share theirs. -/
theorem log_read_once_iff (settings : Settings) (i : ℕ) (db : Db)
    (redis : Redis) (hids : (db.raw_events.map (·.id)).Nodup)
    (hstart : db.consumer_offsets.get? settings.worker_id = none)
    (hlimit : 1 ≤ settings.worker_batch_size) :
    ReadsOnce settings i (World.settled db redis) ↔
      ∀ k, CleanCut RawEvent.created_at db.raw_events
        (k * settings.worker_batch_size) := by
  have hw := coherent_settled redis hids
  have hunread : (World.settled db redis).toHistory.unread settings =
      db.raw_events := by
    simp [History.unread, History.cursor, World.settled, hstart, remaining]
  have hperm : ∀ {ok : Call → Choice → Prop} {w' : World},
      Drain ok settings i (World.settled db redis) w' →
      (w'.fetched.Perm db.raw_events ↔
        ∀ k, CleanCut RawEvent.created_at db.raw_events
          (k * settings.worker_batch_size)) := by
    intro ok w' hd
    obtain ⟨pages, hpages, hfetched⟩ := hd.pages hlimit hw rfl hids
    rw [hunread] at hpages
    rw [hfetched]
    exact hpages.perm_iff
  obtain ⟨w', hd⟩ : ∃ w', Drain noFailure settings i (World.settled db redis) w' :=
    exists_drain (Nat.lt_succ_self _) hw (fun _ _ => rfl) rfl hids
  constructor
  · rintro ⟨-, hall⟩
    have hd' : Drain (fun _ _ => True) settings i (World.settled db redis) w' :=
      hd.weaken fun _ _ _ => trivial
    exact (hperm hd').mp (hall w' hd')
  · exact fun hcuts => ⟨⟨w', hd⟩, fun w' hd => (hperm hd).mpr hcuts⟩

/-- Two events of one transaction and a later one, in pages of two. -/
def pairedLog : Db :=
  { (∅ : Db) with raw_events :=
      [Sample.row (Sample.payment 'a' 250) 1 3,
        Sample.row (Sample.payment 'b' 100) 2 3,
        Sample.row (Sample.payment 'c' 70) 3 4] }

def pagesOf (n : ℕ) : Settings :=
  { Sample.worker "w" with worker_batch_size := n }

theorem log_read_once_iff_paired :
    ReadsOnce (pagesOf 2) 0 (World.settled pairedLog ∅) := by
  refine (log_read_once_iff (pagesOf 2) 0 pairedLog ∅ (by decide) rfl
    (by decide)).mpr fun k a ha => ?_
  have hcounts : ∀ a ∈ pairedLog.raw_events,
      (countBelow RawEvent.created_at pairedLog.raw_events a.created_at = 0 ∧
        countUpto RawEvent.created_at pairedLog.raw_events a.created_at = 2) ∨
      countBelow RawEvent.created_at pairedLog.raw_events a.created_at = 2 ∧
        countUpto RawEvent.created_at pairedLog.raw_events a.created_at = 3 := by
    decide +kernel
  change k * 2 ≤ _ ∨ _ ≤ k * 2
  have := hcounts a ha
  omega

/-- Replay the batches of a solitary worker, each from its choices. -/
def drain? (settings : Settings) (i : ℕ) :
    List (List Choice) → World → Option World
  | [], _ => none
  | chs :: rest, w =>
      match evalWith (M := services) (fun _ _ => true) i chs
        (RollupWorker.processBatch settings) w with
      | some (.ok 0, w') => some w'
      | some (.ok (_ + 1), w') => drain? settings i rest w'
      | _ => none

theorem drain_of_drain? {settings : Settings} {i : ℕ} :
    ∀ {runs : List (List Choice)} {w w' : World},
      drain? settings i runs w = some w' →
      Drain (fun _ _ => True) settings i w w'
  | chs :: rest, w, w', h => by
      rw [drain?] at h
      split at h
      · rename_i he
        cases h
        exact .done (eval_of_evalWith (fun _ _ _ => trivial) he)
      · rename_i he
        exact .more (eval_of_evalWith (fun _ _ _ => trivial) he)
          (Nat.succ_ne_zero _) (drain_of_drain? h)
      · cases h

/-- Two pages of one event, then nothing. -/
def pairedRun : List (List Choice) :=
  let start : List Choice :=
    [.clock (Sample.instant 5), .auto, .rows pairedLog.raw_events]
  let page := start ++ List.replicate 7 .auto ++
    [.clock (Sample.instant 5), .auto]
  [page, page, start ++ [.auto]]

/-- In pages of one, the second event of the transaction is never read. -/
theorem shared_created_at_skipped :
    ¬ ∀ (settings : Settings) (i : ℕ) (db : Db) (redis : Redis),
      (db.raw_events.map (·.id)).Nodup →
      db.consumer_offsets.get? settings.worker_id = none →
      1 ≤ settings.worker_batch_size →
      ReadsOnce settings i (World.settled db redis) := by
  intro hall
  obtain ⟨-, honce⟩ := hall (pagesOf 1) 0 pairedLog ∅ (by decide) rfl (by decide)
  have hrun : (drain? (pagesOf 1) 0 pairedRun (World.settled pairedLog ∅)).map
      (fun w => w.fetched.length) = some 2 := by decide +kernel
  obtain ⟨w', hw', hlen⟩ := Option.map_eq_some_iff.mp hrun
  have hperm := (honce w' (drain_of_drain? hw')).length_eq
  rw [hlen] at hperm
  exact absurd hperm (by decide)

end AnalyticsPipeline
