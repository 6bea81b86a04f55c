import AnalyticsPipeline.Framework.CacheRace
import AnalyticsPipeline.Framework.Monitor
import AnalyticsPipeline.Metatheory.DayTables
import AnalyticsPipeline.Metatheory.RebuildSteps
import AnalyticsPipeline.Metatheory.SerialHistory

/-!
# One rebuild beside one batch

A request for the leaderboard of a month and a batch of the worker, call by call
in any order. A trace records the five steps at which they meet: the reader's
look at the key, its query and its rebuild, the writer's commit and its
increments. The invariant says how far each of the two has come and that the
sorted set is what the trace makes of it.
-/

namespace AnalyticsPipeline

open Framework

/-! ## What a call leaves alone -/

section Alone

variable {i : ℕ} {c : Call} {ch : Choice} {x : c.Res} {w w' : World}

/-- Only a commit changes the tables. -/
theorem World.Effect.db (hc : ∀ answers, c ≠ .commit answers)
    (h : World.Effect i c w w') : w'.db = w.db := by
  cases h with
  | wrote tx s ch y ws _ _ _ _ => rw [setTx_toHistory, observe_db]
  | commit tx answers hcommit _ _ => exact absurd hcommit (hc answers)
  | _ => rfl

/-- A session that has written nothing changes no table. -/
theorem World.Effect.db_of_empty
    (hempty : ∀ tx, w.txs.get? i = some tx → tx.writes = ∅)
    (h : World.Effect i c w w') : w'.db = w.db := by
  cases h with
  | wrote tx s ch y ws _ _ _ _ => rw [setTx_toHistory, observe_db]
  | commit tx answers _ htx _ =>
      show tx.writes.overlay w.db = w.db
      rw [hempty tx htx, Db.empty_overlay]
  | _ => rfl

theorem World.exec_redis (hc : ∀ transaction ops, c ≠ .redisWrite transaction ops)
    (h : World.exec i c ch w = some (x, w')) : w'.redis = w.redis := by
  cases c with
  | redisWrite transaction ops => exact absurd rfl (hc transaction ops)
  | sql s =>
      have h' : w.execSql i s ch = some (x, w') := by
        cases ch <;> exact h
      rcases execSql_eq_some h' with ⟨rfl, -⟩ | ⟨tx, -, -, -, hrun⟩
      · rfl
      · rcases hrun with ⟨e, -, -, rfl⟩ | ⟨y, ws, -, -, rfl⟩
        · rfl
        · rw [setTx_redis, observe_redis]
  | commit answers =>
      cases ch <;> simp only [World.exec, reduceCtorEq] at h
      simp only [Option.some.injEq, Prod.mk.injEq, true_and] at h
      subst h
      unfold execCommit
      split
      · rfl
      · split <;> rfl
  | uuid4 =>
      cases ch <;> simp only [World.exec, reduceCtorEq] at h
      split at h
      · cases h
        rfl
      · cases h
  | begin =>
      cases ch <;> simp only [World.exec, reduceCtorEq] at h
      split at h <;> cases h <;> rfl
  | _ =>
      cases ch <;> simp only [World.exec, reduceCtorEq, Option.some.injEq,
        Prod.mk.injEq] at h
      all_goals exact h.2 ▸ rfl

theorem World.exec_redisWrite {transaction : Bool} {ops : List RedisOp}
    {x : Except RedisError Unit} (hch : noFailure (.redisWrite transaction ops) ch)
    (h : World.exec i (.redisWrite transaction ops) ch w = some (x, w')) :
    x = (w.redis.runAll ops).1 ∧
      w' = { w with redis := (w.redis.runAll ops).2 } := by
  cases ch <;> simp only [World.exec, reduceCtorEq, Option.some.injEq,
    Prod.mk.injEq] at h
  · exact ⟨h.1.symm, h.2.symm⟩
  · exact absurd rfl (noFailure_iff.mp hch _)

end Alone

/-! ## The race -/

/-- Calls answered without failures, and nothing else. -/
def callsOnly : ServicePolicy where
  call := fun _ _ c ch => noFailure c ch
  crash := fun _ _ => False
  spawn := fun _ _ => False
  env := fun _ _ => False

/-- The same, where nobody but session `j` writes to the tables. -/
def besideWriter (j : ℕ) : ServicePolicy :=
  { callsOnly with
    call := fun w k c ch => noFailure c ch ∧
      (k ≠ j → ∀ tx, w.txs.get? k = some tx → tx.writes = ∅) }

/-- Session `i` asks for the leaderboard of the month of `u` while session `j`
processes a batch. -/
structure RebuildRace where
  i : ℕ
  j : ℕ
  distinct : i ≠ j
  reader : Settings
  writer : Settings
  u : DateTime
  start : DateTime
  stop : DateTime
  bounds : MonthBounds u.year u.month start stop
  top_n : Option ℕ
  before : World

namespace RebuildRace

variable (R : RebuildRace)

abbrev period : String := periodKey R.u

abbrev size : ℕ := pageSize R.reader R.top_n

/-- What is stored does not expire at once. -/
def keeps : Bool := R.reader.leaderboard_rebuild_ttl ≠ 0

def request : Service Unit :=
  leaderboardRequest R.reader (some R.period) R.top_n >>= fun _ => pure ()

def batch : Service Unit :=
  RollupWorker.processBatch R.writer >>= fun _ => pure ()

def initial : Config services PyError where
  world := R.before
  session := Function.update
    (Function.update (fun _ => .ret (.ok ())) R.j R.batch) R.i R.request

/-- The step at which a call of a session enters the race, if it does. -/
def step? (k : ℕ) : Call → Option CacheStep
  | .redisExists key =>
      if k = R.i ∧ key = leaderboardKey R.period then some .check else none
  | .sql (.selectLeaderboard _ _ _) => if k = R.i then some .load else none
  | .commit _ => if k = R.j then some .commit else none
  | .redisWrite _ ops =>
      if ops.any fun op => op.key = leaderboardKey R.period then
        if k = R.i then some .store else some .push
      else none
  | _ => none

/-- The trace of the race. -/
def monitor : Monitor services (List CacheStep) :=
  fun g k c _ => g ++ (R.step? k c).toList

/-! ### The batch, up to the end of its session block -/

/-- What a batch has committed. -/
structure Committed (new : List RawEvent) (db : Db) : Prop where
  deltas : ∃ ws, Deltas (fun _ => true) new R.before.db ws ∧
    db = ws.overlay R.before.db
  known : new ⊆ R.before.db.raw_events

/-- Beside the writer the tables stay as they are. -/
theorem db_of_rely {j : ℕ} {S : History → Prop} {w w' : World}
    (hr : Interferes (besideWriter j) S j w w') : w'.db = w.db := by
  refine Rely.lift (R := fun w w' : World => w'.db = w.db) (fun _ => rfl)
    (fun h₁ h₂ => h₂.trans h₁) ?_ hr
  intro w w' _ hs
  match hs with
  | .call hk hpol he => exact (World.exec_effect he).db_of_empty (hpol.2 hk)
  | .crash _ => rfl
  | .env ha _ => exact absurd ha id

theorem stable_db {j : ℕ} {S : History → Prop} (P : Db → Prop) :
    Stable (besideWriter j) S j fun h _ => P h.db := by
  intro w w' hr _ hp
  show P w'.db
  rw [db_of_rely hr]
  exact hp

def hooks : BatchHooks (besideWriter R.j) (fun _ => True) R.j R.writer where
  start := fun h _ => h.db = R.before.db
  cursor := fun _ h _ => h.db = R.before.db
  fetched := fun _ h _ => h.db = R.before.db
  done := fun x h _ => match x with
    | none => h.db = R.before.db
    | some p => R.Committed p.2 h.db
  failed := fun h _ => h.db = R.before.db
  stable_start := stable_db (· = R.before.db)
  stable_cursor := fun _ => stable_db (· = R.before.db)
  stable_fetched := fun _ => stable_db (· = R.before.db)
  stable_done := fun x => by
    cases x with
    | none => exact stable_db (· = R.before.db)
    | some p => exact stable_db (R.Committed p.2)
  stable_failed := stable_db (· = R.before.db)
  offset := fun _ h => h
  fetch := fun _ h _ _ _ _ _ => ⟨trivial, by split <;> exact h⟩
  fetch_error := fun _ h _ _ => h
  commit := fun {w f new tx} _ h _ _ _ hb => by
    refine ⟨trivial, ⟨tx.writes, ?_, ?_⟩, ?_⟩
    · exact h ▸ hb.deltas
    · show tx.writes.overlay w.db = _
      rw [h]
    · obtain ⟨ids, -, rfl⟩ := hb.marks
      intro e he
      exact h ▸ hb.page_subset (List.mem_of_mem_filter he)

/-- What the batch does with the events it has processed. -/
def afterBlock (x : Option (List RawEvent × List RawEvent)) : Service Unit :=
  (match x with
    | none => (pure 0 : Service ℕ)
    | some (events, new) => do
        RollupWorker.publish R.writer new
        pure events.length) >>= fun _ => pure ()

theorem batch_eq : R.batch =
    sessionScope (RollupWorker.batchTransaction R.writer) >>= R.afterBlock := by
  unfold batch RollupWorker.processBatch
  rw [bind_assoc]
  rfl

/-! ### How far the two have come -/

/-- The reader's steps so far. -/
abbrev readings (g : List CacheStep) : List CacheStep := g.filter CacheStep.reads

/-- The writer's steps so far. -/
abbrev writings (g : List CacheStep) : List CacheStep :=
  g.filter fun s => !s.reads

/-- What the query has returned: the ranking as it was then. -/
def Loaded (g : List CacheStep) (db : Db) (rows : List LeaderboardRow) : Prop :=
  ∃ all, rows = all.take R.size ∧
    (Before .commit .load g ∧ db.Ranking R.start R.stop all ∨
      ¬ Before .commit .load g ∧ R.before.db.Ranking R.start R.stop all)

/-- The trace of a reader that has come to a point. -/
def ReadSoFar (g : List CacheStep) (db : Db) (rows : List LeaderboardRow) :
    Reading → Prop
  | .closed | .fresh => readings g = []
  | .missing | .cold => readings g = [.check] ∧ ¬ Before .push .check g
  | .loaded rows' => (rows' = rows ∧ rows ≠ []) ∧
      readings g = [.check, .load] ∧ ¬ Before .push .check g ∧
      R.Loaded g db rows
  | .finished => readings g = [.check] ∧ Before .push .check g ∨
      ¬ Before .push .check g ∧
        (readings g = [.check, .load] ∧ R.Loaded g db [] ∨
          readings g = [.check, .load, .store] ∧ R.Loaded g db rows)

/-- The transaction of the reader, which only reads. -/
def ReaderTx (w : World) : Reading → Prop
  | .closed => w.txs.get? R.i = none
  | .finished => ∀ tx, w.txs.get? R.i = some tx → tx.writes = ∅
  | _ => ∃ t, w.txs.get? R.i = some ⟨t, false, ∅⟩

structure Reader (w : World) (g : List CacheStep) (rows : List LeaderboardRow)
    (s : Reading) (p : Service Unit) : Prop where
  left : Rereads R.reader R.period R.start R.stop R.size s p
  tx : R.ReaderTx w s
  steps : R.ReadSoFar g w.db rows s

/-- The trace of a writer that has the increments of `l` before it. -/
def Pushed (g : List CacheStep) (new : List RawEvent)
    (l : List (String × Dict String ℤ)) : Prop :=
  if confirmedIn R.period new = [] then writings g = [] ∨ writings g = [.commit]
  else if R.period ∈ l.map Prod.fst then writings g = [.commit]
  else writings g = [.commit, .push]

/-- Where the writer is: in its session block, after it with the increments of
`l` before it, or at an end without a batch. -/
inductive Writer (w : World) (g : List CacheStep) (new : List RawEvent) :
    Service Unit → Prop where
  | deciding {c : Call}
      {k : c.Res → Service (Option (List RawEvent × List RawEvent))} {m : ℕ} :
      Wp (besideWriter R.j) (Inv fun _ => True) R.j (.call c k)
        (fun r w => w.txs.get? R.j = none ∧ R.hooks.post r w) w →
      Prog.Within Call.publishes m (.call c k) →
      (m = 1 ∧ writings g = [] ∧ w.db = R.before.db ∨
        m = 0 ∧ writings g = [.commit]) →
      Writer w g new (.call c fun x => k x >>= R.afterBlock)
  | publishing {l : List (String × Dict String ℤ)} {p : Service Unit} :
      Pushes l p → R.Committed new w.db →
      l.Sublist (RollupWorker.periodIncrements new).entries →
      (.commit ∉ g → w.db = R.before.db) → R.Pushed g new l → Writer w g new p
  | nothing {r : Except PyError Unit} : w.db = R.before.db →
      writings g = [] ∨ writings g = [.commit] → Writer w g new (.ret r)

/-- What a trace makes of the sorted set, when the reader has loaded `rows` and
the batch has processed `new`. -/
def cached (rows : List LeaderboardRow) (new : List RawEvent)
    (g : List CacheStep) : Option (Dict String ℤ) :=
  cacheAfter R.keeps (boardOf rows)
    (fun scores => gained (scores.getD ∅) (confirmedIn R.period new)) g

/-- Redis, as the trace has it. -/
structure Stored (r : Redis) (g : List CacheStep) (rows : List LeaderboardRow)
    (new : List RawEvent) : Prop where
  boards : Boards r
  counts : CountsAt rebuildsKey r
  board : r.board R.period = R.cached rows new g

structure Holds (c : Config services PyError) (g : List CacheStep)
    (rows : List LeaderboardRow) (new : List RawEvent) : Prop where
  coherent : Coherent c.world
  stored : R.Stored c.world.redis g rows new
  reader : ∃ s, R.Reader c.world g rows s (c.session R.i)
  writer : R.Writer c.world g new (c.session R.j)
  others : ∀ k, k ≠ R.i → k ≠ R.j → ∃ r, c.session k = .ret r

/-! ### Traces -/

section Traces

variable {R} {g g' : List CacheStep} {db db' : Db}
  {rows rows' : List LeaderboardRow}
  {new new' : List RawEvent} {s : CacheStep} {r r' : Redis} {w w' : World}
  {p : Service Unit} {ch : Choice}

theorem mem_of_readings (hs : s.reads = true) : s ∈ g ↔ s ∈ readings g := by
  rw [List.mem_filter]
  exact (and_iff_left hs).symm

theorem mem_of_writings (hs : s.reads = false) : s ∈ g ↔ s ∈ writings g := by
  rw [List.mem_filter, hs]
  exact (and_iff_left rfl).symm

theorem readings_concat (hs : s.reads = true) :
    readings (g ++ [s]) = readings g ++ [s] := by
  simp [readings, hs]

theorem readings_concat_write (hs : s.reads = false) :
    readings (g ++ [s]) = readings g := by
  simp [readings, hs]

theorem writings_concat (hs : s.reads = false) :
    writings (g ++ [s]) = writings g ++ [s] := by
  simp [writings, hs]

theorem writings_concat_read (hs : s.reads = true) :
    writings (g ++ [s]) = writings g := by
  simp [writings, hs]

theorem Loaded.congr (h : R.Loaded g db rows)
    (hload : Before .commit .load g' ↔ Before .commit .load g)
    (hdb : .commit ∈ g → db' = db) : R.Loaded g' db' rows := by
  obtain ⟨all, hrows, hall⟩ := h
  refine ⟨all, hrows, ?_⟩
  rw [hload]
  refine hall.imp_left fun ⟨hbefore, hranking⟩ => ⟨hbefore, ?_⟩
  rw [hdb hbefore.left_mem]
  exact hranking

theorem ReadSoFar.congr {a : Reading} (h : R.ReadSoFar g db rows a)
    (hreads : readings g' = readings g)
    (hcheck : Before .push .check g' ↔ Before .push .check g)
    (hload : Before .commit .load g' ↔ Before .commit .load g)
    (hdb : .commit ∈ g → db' = db) : R.ReadSoFar g' db' rows a := by
  unfold ReadSoFar at h ⊢
  rw [hreads, hcheck]
  cases a with
  | loaded rows' =>
      obtain ⟨hrows, hsteps, hpush, hloaded⟩ := h
      exact ⟨hrows, hsteps, hpush, hloaded.congr hload hdb⟩
  | finished =>
      refine h.imp_right fun ⟨hpush, hrest⟩ => ⟨hpush, ?_⟩
      exact hrest.imp (fun h => ⟨h.1, h.2.congr hload hdb⟩)
        fun h => ⟨h.1, h.2.congr hload hdb⟩
  | _ => exact h

/-- A step of the writer leaves the reader where it is. -/
theorem ReadSoFar.write {a : Reading} (h : R.ReadSoFar g db rows a)
    {o : Option CacheStep} (ho : ∀ s, o = some s → s.reads = false)
    (hdb : .commit ∈ g → db' = db) :
    R.ReadSoFar (g ++ o.toList) db' rows a := by
  cases o with
  | none =>
      rw [Option.toList_none, List.append_nil]
      exact h.congr rfl Iff.rfl Iff.rfl hdb
  | some s =>
      have hs := ho s rfl
      have hne : ∀ s', s'.reads = true → s' ≠ s := by
        rintro s' hs' rfl
        rw [hs] at hs'
        cases hs'
      exact h.congr (readings_concat_write hs)
        (before_concat_of_ne (hne _ rfl)) (before_concat_of_ne (hne _ rfl)) hdb

/-- Before its commit the tables are what they were. -/
theorem Writer.db_eq (h : R.Writer w g new p) (hcommit : .commit ∉ g) :
    w.db = R.before.db := by
  cases h with
  | deciding _ _ hm =>
      rcases hm with ⟨-, -, hdb⟩ | ⟨-, hsteps⟩
      · exact hdb
      · refine absurd ((mem_of_writings rfl).mpr ?_) hcommit
        rw [hsteps]
        exact List.mem_cons_self
  | publishing _ _ _ hdb _ => exact hdb hcommit
  | nothing hdb _ => exact hdb

theorem cached_congr (hrows : .store ∈ g → rows = rows')
    (hnew : .push ∈ g → new = new') :
    R.cached rows new g = R.cached rows' new' g := by
  refine cacheAfter_congr (fun h => ?_) fun h => ?_
  · rw [hrows h]
  · rw [hnew h]

theorem Stored.congr (h : R.Stored r g rows new)
    (hrows : .store ∈ g → rows = rows') (hnew : .push ∈ g → new = new') :
    R.Stored r g rows' new' :=
  ⟨h.boards, h.counts, h.board.trans (cached_congr hrows hnew)⟩

/-- Keys of other kinds do not matter. -/
theorem Stored.of_kept (h : R.Stored r g rows new)
    (hkeys : ∀ key, key.toList.head? = some 'l' ∨ key.toList.head? = some 'm' →
      r'.get? key = r.get? key) : R.Stored r' g rows new := by
  have hkey : ∀ period, r'.get? (leaderboardKey period) =
      r.get? (leaderboardKey period) := by
    intro period
    refine hkeys _ (.inl ?_)
    rw [toList_leaderboardKey]
    rfl
  refine ⟨fun period entry hget => ?_, fun entry hget => ?_, ?_⟩
  · exact h.boards period entry (hkey period ▸ hget)
  · rw [hkeys rebuildsKey (.inr (by decide))] at hget
    exact h.counts entry hget
  · rw [board_congr (hkey R.period)]
    exact h.board

theorem Stored.concat {s : CacheStep} (hst : R.Stored w.redis g rows new)
    (hpush : s ≠ .push) (hstore : s ≠ .store) :
    R.Stored w.redis (g ++ [s]) rows new := by
  refine ⟨hst.boards, hst.counts, hst.board.trans ?_⟩
  unfold cached
  rw [cacheAfter_concat]
  cases s with
  | push => exact absurd rfl hpush
  | store => exact absurd rfl hstore
  | _ => rfl

theorem any_aside {ops : List RedisOp} (h : ops.all RedisOp.aside = true) :
    (ops.any fun op => op.key = leaderboardKey R.period) = false := by
  refine List.any_eq_false.mpr fun op hop hkey => ?_
  have haside := of_decide_eq_true (List.all_eq_true.mp h op hop)
  rw [of_decide_eq_true hkey, toList_leaderboardKey] at haside
  exact haside.1 rfl

/-- Calls that do not meddle are no steps of the race. -/
theorem step?_of_meddles {c : Call} {commit k : ℕ} (h : c.meddles commit = 0)
    (hcommit : ∀ answers, c = .commit answers → k ≠ R.j) :
    R.step? k c = none := by
  cases c with
  | sql s => cases h
  | redisExists key => cases h
  | commit answers => exact if_neg (hcommit answers rfl)
  | redisWrite transaction ops =>
      have haside : ops.all RedisOp.aside = true := by
        by_contra hno
        simp [Call.meddles, hno] at h
      simp only [step?, any_aside haside, Bool.false_eq_true, if_false]
  | _ => rfl

theorem Stored.of_meddles {c : Call} {x : c.Res} {i commit : ℕ}
    (hst : R.Stored w.redis g rows new) (h : c.meddles commit = 0)
    (hch : noFailure c ch) (he : World.exec i c ch w = some (x, w')) :
    R.Stored w'.redis g rows new := by
  by_cases hwrite : ∃ transaction ops, c = .redisWrite transaction ops
  · obtain ⟨transaction, ops, rfl⟩ := hwrite
    have haside : ops.all RedisOp.aside = true := by
      by_contra hno
      simp [Call.meddles, hno] at h
    obtain ⟨-, rfl⟩ := World.exec_redisWrite hch he
    refine hst.of_kept fun key hkey => runAll_get?_of_ne fun op hop hop' => ?_
    have hop'' := of_decide_eq_true (List.all_eq_true.mp haside op hop)
    rw [hop'] at hop''
    rcases hkey with hkey | hkey
    · exact hop''.1 hkey
    · exact hop''.2 hkey
  · rw [World.exec_redis (fun t ops hc => hwrite ⟨t, ops, hc⟩) he]
    exact hst

end Traces

end RebuildRace

end AnalyticsPipeline
