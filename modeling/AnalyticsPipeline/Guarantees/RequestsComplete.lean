import AnalyticsPipeline.Guarantees.SharedKeyspace
import AnalyticsPipeline.Metatheory.LockStages
import AnalyticsPipeline.Metatheory.SilentSessions

/-!
# Requests complete

Requests for single events wait for each other's keys, requests that read wait
for nothing. Whatever has happened, and whoever is let to move, they never end
up waiting in a circle, and each is over after a bounded number of calls.
-/

namespace AnalyticsPipeline

open Framework
open Prog (Only)

/-- The requests that claim no more than one key. -/
inductive Request : Service Unit → Prop where
  | event (payload : EventIngest) :
      Request (ingestEventRequest payload >>= fun _ => pure ())
  | metrics (settings : Settings) (merchant_id : UUID)
      (start stop : AwareDateTime) :
      Request (metricsRequest settings merchant_id start stop >>= fun _ => pure ())
  | sparkline (settings : Settings) (merchant_id : UUID) (window_minutes : ℤ) :
      Request (sparklineRequest settings merchant_id window_minutes >>=
        fun _ => pure ())
  | leaderboard (settings : Settings) (period : Option String)
      (top_n : Option ℕ) :
      Request (leaderboardRequest settings period top_n >>= fun _ => pure ())
  | history (period : String) (limit : ℕ) :
      Request (leaderboardHistoryRequest period limit >>= fun _ => pure ())

/-- An API process: requests, crashes and evictions, `ok` saying which steps
Redis and the sessions take. -/
def requests (ok : World → ℕ → Call → Choice → Prop) : ServicePolicy where
  call := ok
  crash := fun _ _ => True
  spawn := fun _ p => Request p
  env := fun _ _ => True

section Programs

variable {α : Type} {p : Service Unit}

theorem Request.system (h : Request p) : SystemProgram (fun _ => True) True p := by
  cases h with
  | event payload => exact .service (.ingestEvent payload)
  | metrics settings m start stop => exact .metrics settings m start stop
  | sparkline settings m window => exact .sparkline settings m window
  | leaderboard settings period n => exact .leaderboard settings period n
  | history period limit => exact .history period limit

theorem claiming_reading {body : Service α} {answers : α → Answers}
    (h : Only (Served fun s => s.queries = true) body) :
    Claiming [] (getDb answers body) :=
  claiming_getDb (.of_only (h.mono fun _ hc => hc.lockless))

theorem Request.claiming (h : Request p) : Claiming [] p := by
  have hvoid : ∀ {β : Type} {q : Service β}, Claiming [] q →
      Claiming [] (q >>= fun _ => pure ()) := fun hq => hq.bind fun _ => .ret
  have hquery : ∀ s : Stmt, s.queries = true → s.queries = true := fun _ hs => hs
  cases h with
  | event payload => exact hvoid (claiming_getDb (claiming_ingestEvent payload))
  | metrics settings m start stop =>
      exact hvoid (claiming_reading (only_getMerchantMetrics hquery settings m _ _))
  | sparkline settings m window =>
      exact hvoid (claiming_reading (only_getSparkline hquery settings m window))
  | leaderboard settings period n =>
      exact hvoid (claiming_reading (only_getLeaderboard hquery settings period n))
  | history period limit =>
      exact hvoid (claiming_reading (only_getLeaderboardHistory hquery period limit))

/-! ### How many calls they make -/

/-- The program makes at most `n` calls. -/
abbrev Takes (n : ℕ) (p : Service α) : Prop := Prog.Within (fun _ => 1) n p

theorem takes_execute (s : Stmt) : Takes 1 (execute s) := by
  rw [execute_eq]
  refine Prog.Within.call (n := 0) fun x => ?_
  cases x <;> exact .ret

theorem takes_redisResult {β : Type} {c : Call}
    {f : c.Res → Except RedisError β} :
    Takes 1 (perform c >>= fun x => redisResult (f x)) := by
  rw [perform_bind]
  refine Prog.Within.call (n := 0) fun x => ?_
  cases f x <;> exact .ret

theorem takes_write (transaction : Bool) (ops : List RedisOp) :
    Takes 1 (RedisRepository.write transaction ops) :=
  takes_redisResult (c := .redisWrite transaction ops) (f := id)

theorem takes_one {β : Type} (l : List β) : Takes 0 (one l) := within_one l

/-- The session block and its commit. -/
theorem takes_getDb {n : ℕ} {body : Service α} {answers : α → Answers}
    (h : Takes n body) : Takes (n + 5) (getDb answers body) := by
  rw [getDb, sessionScope, perform_bind]
  refine Prog.Within.call (n := n + 4) fun _ => ?_
  refine Prog.Within.bind (m := n + 3) (n := 1) ?_ fun _ => .call fun _ => .ret
  refine Prog.Within.tryCatch (m := n + 2) (n := 1) ?_ fun _ => .call fun _ => .ret
  refine Prog.Within.tryCatch (m := n + 1) (n := 1) ?_ fun _ => .call fun _ => .ret
  exact h.bind fun _ => Prog.Within.call (n := 0) fun _ => .ret

theorem takes_insertEvent (event : EventIngest) (occurred_at : DateTime) :
    Takes 4 (EventRepository.insertEvent event occurred_at) := by
  rw [EventRepository.insertEvent, perform_bind]
  refine Prog.Within.call (n := 3) fun u => ?_
  refine Prog.Within.bind (m := 1) (n := 2) (takes_execute _) fun claimed => ?_
  split
  · refine Prog.Within.bind (m := 2) (n := 0) ?_ fun _ => .ret
    refine Prog.Within.bind (m := 1) (n := 1) (takes_execute _) fun rows => ?_
    refine Prog.Within.bind (m := 0) (n := 1) (takes_one rows) fun row => ?_
    exact Prog.Within.bind (m := 1) (n := 0) (takes_execute _) takes_one
  · refine Prog.Within.bind (m := 1) (n := 1) (takes_execute _) fun rows => ?_
    exact Prog.Within.bind (m := 0) (n := 1) (takes_one rows) fun _ => .ret

theorem takes_ingestEvent (event : EventIngest) :
    Takes 8 (IngestionService.ingestEvent event) := by
  rw [IngestionService.ingestEvent]
  refine Prog.Within.bind (m := 1) (n := 7)
    (Prog.Within.bind (m := 1) (n := 0) (takes_execute _) fun _ => .ret) fun found => ?_
  split
  · rw [perform_bind]
    refine Prog.Within.call (n := 6) fun occurred_at => ?_
    refine Prog.Within.bind (m := 4) (n := 2) (takes_insertEvent event occurred_at)
      fun p => ?_
    dsimp only
    split
    · exact .ret
    · refine Prog.Within.bind (m := 1) (n := 1) ?_ fun _ => ?_
      · exact Prog.Within.tryCatch (m := 1) (n := 0) (takes_execute _) fun _ => .ret
      · exact Prog.Within.bind (m := 1) (n := 0) (takes_write _ _) fun _ => .ret
  · exact .ret

theorem takes_raising {β : Type} (x : Except PyError β) : Takes 0 (raising x) := by
  cases x <;> exact .ret

theorem takes_latencyMs (t₀ : ℚ) : Takes 1 (QueryService.latencyMs t₀) :=
  Prog.Within.call (n := 0) fun _ => .ret

theorem takes_computedMetrics (settings : Settings) (t₀ : ℚ) (m : UUID)
    (start stop : AwareDateTime) :
    Takes 5 (QueryService.computedMetrics settings t₀ m start stop) := by
  have hrows : ∀ g, Takes 1 (QueryService.queryRows g m start stop) := by
    intro g
    cases g <;> exact takes_execute _
  rw [QueryService.computedMetrics]
  refine Prog.Within.bind (m := 1) (n := 4) (takes_write _ _) fun _ => ?_
  refine Prog.Within.bind (m := 1) (n := 3) (hrows _) fun rows => ?_
  refine Prog.Within.bind (m := 1) (n := 2) ?_ fun rate => ?_
  · exact Prog.Within.bind (m := 1) (n := 0) (takes_execute _) fun _ => .ret
  · refine Prog.Within.bind (m := 1) (n := 1) (takes_latencyMs t₀) fun latency => ?_
    exact Prog.Within.bind (m := 1) (n := 0) (takes_write _ _) fun _ => .ret

theorem takes_getMerchantMetrics (settings : Settings) (m : UUID)
    (start stop : AwareDateTime) :
    Takes 7 (QueryService.getMerchantMetrics settings m start stop) := by
  rw [QueryService.getMerchantMetrics, perform_bind]
  refine Prog.Within.call (n := 6) fun t₀ => ?_
  refine Prog.Within.bind (m := 1) (n := 5) ?_ fun cached => ?_
  · exact takes_redisResult (c := .redisGet _) (f := id)
  · split
    · refine Prog.Within.bind (m := 1) (n := 4) (takes_write _ _) fun _ => ?_
      refine Prog.Within.bind (m := 1) (n := 3) (takes_latencyMs t₀) fun _ => ?_
      exact (takes_raising _).le (by omega)
    · exact takes_computedMetrics settings t₀ m start stop

theorem takes_getSparkline (settings : Settings) (m : UUID) (window : ℤ) :
    Takes 4 (QueryService.getSparkline settings m window) := by
  rw [QueryService.getSparkline]
  refine Prog.Within.bind (m := 1) (n := 3) ?_ fun cached => ?_
  · exact takes_redisResult (c := .redisGet _) (f := id)
  · split
    · refine Prog.Within.bind (m := 1) (n := 2) (takes_write _ _) fun _ => ?_
      exact Prog.Within.bind (m := 0) (n := 2) (takes_raising _) fun _ => .ret
    · refine Prog.Within.bind (m := 1) (n := 2) (takes_write _ _) fun _ => ?_
      refine Prog.Within.bind (m := 1) (n := 1) (takes_execute _) fun rows => ?_
      exact Prog.Within.bind (m := 1) (n := 0) (takes_write _ _) fun _ => .ret

theorem takes_getLeaderboard (settings : Settings) (period : Option String)
    (top_n : Option ℕ) :
    Takes 5 (QueryService.getLeaderboard settings period top_n) := by
  rw [getLeaderboard_eq, perform_bind]
  refine Prog.Within.call (n := 4) fun now => ?_
  split
  · exact .ret
  · refine Prog.Within.bind (m := 4) (n := 0) ?_ fun _ => .ret
    rw [QueryService.leaderboardEntries]
    refine Prog.Within.bind (m := 1) (n := 3) ?_ fun live => ?_
    · exact takes_redisResult (c := .redisExists _) (f := id)
    · split
      · refine Prog.Within.bind (m := 1) (n := 2) ?_ fun raw => ?_
        · exact takes_redisResult (c := .redisRange _ _ _) (f := id)
        · exact Prog.Within.bind (m := 0) (n := 2) (takes_raising _) fun _ => .ret
      · refine Prog.Within.bind (m := 1) (n := 2) (takes_write _ _) fun _ => ?_
        refine Prog.Within.bind (m := 1) (n := 1) (takes_execute _) fun rows => ?_
        split
        · exact .ret
        · exact Prog.Within.bind (m := 1) (n := 0) (takes_write _ _) fun _ => .ret

/-- No request makes more calls than that for a new event. -/
theorem Request.takes (h : Request p) : Takes 13 p := by
  have hvoid : ∀ {β : Type} {n : ℕ} {q : Service β} {answers : β → Answers},
      Takes n q → n ≤ 8 → Takes 13 (getDb answers q >>= fun _ => pure ()) := by
    intro β n q answers hq hn
    refine Prog.Within.bind (m := 13) (n := 0) ?_ fun _ => .ret
    exact (takes_getDb hq).le (by omega)
  cases h with
  | event payload => exact hvoid (takes_ingestEvent payload) (by omega)
  | metrics settings m start stop =>
      exact hvoid (takes_getMerchantMetrics settings m start stop) (by omega)
  | sparkline settings m window =>
      exact hvoid (takes_getSparkline settings m window) (by omega)
  | leaderboard settings period n =>
      exact hvoid (takes_getLeaderboard settings period n) (by omega)
  | history period limit =>
      refine hvoid (n := 0) ?_ (by omega)
      rw [QueryService.getLeaderboardHistory]
      exact .ret

end Programs

/-! ## The process -/

section Process

variable {ok : World → ℕ → Call → Choice → Prop} {c c' : Config services PyError}

/-- Every session is at a stage of its request, and leaves no transaction. -/
def UnderWay (ok : World → ℕ → Call → Choice → Prop)
    (c : Config services PyError) : Prop :=
  Good (requests ok) (Inv fun _ => True) NoTx c ∧
    ∀ i, Placed i c.world (c.session i)

theorem placed_ret {i : ℕ} {w : World} {r : Except PyError Unit} :
    Placed i w (.ret r) :=
  ⟨[], fun _ hu => absurd hu List.not_mem_nil, .inl .ret⟩

theorem sound_requests (ok : World → ℕ → Call → Choice → Prop) :
    Sound (requests ok) (Inv fun _ => True) NoTx :=
  sound_system (P := fun _ => True) (fun _ _ h => Request.system h)
    (fun _ _ => trivial) fun _ _ _ => trivial

theorem UnderWay.noTx (h : UnderWay ok c) {i : ℕ} {r : Except PyError Unit}
    (hr : c.session i = .ret r) : NoTx i c.world := by
  have hi := h.1.2 i
  rw [hr] at hi
  exact hi c.world .refl h.1.1

theorem underWay_idle (merchants : List Merchant) :
    UnderWay ok (Config.idle (World.start merchants)) := by
  refine ⟨good_idle (sound_requests ok) ⟨coherent_start merchants, trivial⟩ ?_, ?_⟩
  · exact fun _ => rfl
  · exact fun _ => placed_ret

/-- **One step** of any session leaves every session at a stage. -/
theorem UnderWay.next {l : Label services PyError} (h : UnderWay ok c)
    (ha : (requests ok).allows c l) (hn : c.next? l = some c') :
    UnderWay ok c' := by
  refine ⟨h.1.next (sound_requests ok) ha hn, fun j => ?_⟩
  have hj := h.2 j
  cases l with
  | call i ch =>
      simp only [Config.next?] at hn
      split at hn
      · cases hn
      · rename_i d k hp
        obtain ⟨⟨x, w'⟩, he, rfl⟩ := Option.map_eq_some_iff.mp hn
        by_cases hji : j = i
        · subst hji
          rw [hp] at hj
          simp only [Function.update_self]
          exact hj.next he
        · have heffect := World.exec_effect he
          simp only [Function.update_of_ne hji]
          exact hj.stay (heffect.tx_of_ne hji) (issued_of_effect heffect)
  | crash i =>
      cases hn
      by_cases hji : j = i
      · subst hji
        simp only [Function.update_self]
        exact placed_ret
      · simp only [Function.update_of_ne hji]
        refine hj.stay ?_ id
        show (c.world.dropTx i).txs.get? j = _
        rw [World.get?_dropTx, if_neg hji]
  | spawn i p =>
      simp only [Config.next?] at hn
      split at hn
      · rename_i r hr
        cases hn
        by_cases hji : j = i
        · subst hji
          simp only [Function.update_self]
          refine ⟨[], fun _ hu => absurd hu List.not_mem_nil,
            .inr ⟨Request.claiming ha, fun tx htx => ?_⟩⟩
          rw [h.noTx hr] at htx
          cases htx
        · simp only [Function.update_of_ne hji]
          exact hj
      · cases hn
  | env e =>
      obtain ⟨w', he, rfl⟩ := Option.map_eq_some_iff.mp hn
      have hframe := handle_frame j he
      exact hj.stay hframe.tx fun hu => by rw [hframe.issued]; exact hu

theorem underWay_of_reach {merchants : List Merchant}
    (hc : Reach (requests ok) (Config.idle (World.start merchants)) c) :
    UnderWay ok c := by
  induction hc with
  | refl => exact underWay_idle merchants
  | step l _ ha hn ih => exact ih.next ha hn

/-- **No circle of waiting**: of unfinished sessions, one can move. -/
theorem UnderWay.moves (hok : ∀ w i d ch, noFailure d ch → ok w i d ch)
    (h : UnderWay ok c) {i : ℕ} {d : Call} {k : d.Res → Service Unit}
    (hp : c.session i = .call d k)
    (hsupply : c.world.issued.entries.length < 2 ^ 128) :
    c.Moves (requests ok) := by
  -- a session whose call waits for nothing
  have hfree : ∀ {j : ℕ} {d : Call} {k : d.Res → Service Unit},
      c.session j = .call d k →
      (∀ s, d = .sql s → c.world.blocked j s.locks = false) →
      c.Moves (requests ok) := by
    intro j d k hp hunblocked
    have hdraws : d.draws ≤ 1 := by cases d <;> simp [Call.draws]
    obtain ⟨ch, x, w', hch, he⟩ := exists_exec false d hunblocked (by omega)
    refine ⟨j, ch, ⟨w', Function.update c.session j (k x)⟩, ?_, ?_⟩
    · simp only [Policy.allows, hp]
      exact hok _ _ _ _ hch
    · simp only [Config.next?, hp]
      exact Option.map_eq_some_iff.mpr ⟨(x, w'), he, rfl⟩
  by_cases hblocked : ∀ s, d = .sql s → c.world.blocked i s.locks = false
  · exact hfree hp hblocked
  · push Not at hblocked
    obtain ⟨s, rfl, hblocked⟩ := hblocked
    -- it waits for session `j`, which holds a lock and so waits for none
    have hholder : ∃ j tx, c.world.txs.get? j = some tx ∧ tx.writes.locks ≠ [] := by
      by_contra hno
      push Not at hno
      apply hblocked
      rw [World.not_blocked_iff]
      intro j tx htx _ l _ hl
      rw [hno j tx htx] at hl
      cases hl
    obtain ⟨j, tx, htx, hheld⟩ := hholder
    rcases hj : c.session j with r | ⟨d, k⟩
    · rw [h.noTx hj] at htx
      cases htx
    · apply hfree hj
      rintro s rfl
      have hplaced := h.2 j
      rw [hj] at hplaced
      exact hplaced.free_of_holding h.1.1.1 htx hheld

/-- What the sessions of `s` have left, and identifiers for it. -/
def Left (ok : World → ℕ → Call → Choice → Prop) (s : Finset ℕ) (n : ℕ)
    (c : Config services PyError) : Prop :=
  UnderWay ok c ∧ ∃ fuel, c.Fuelled s fuel ∧ n = ∑ j ∈ s, fuel j ∧
    c.world.issued.entries.length + n ≤ 2 ^ 128

theorem Left.next {s : Finset ℕ} {n i : ℕ} {ch : Choice} (h : Left ok s n c)
    (ha : (requests ok).allows c (.call i ch))
    (hn : c.next? (.call i ch) = some c') : ∃ m, n = m + 1 ∧ Left ok s m c' := by
  obtain ⟨hway, fuel, hfuel, rfl, hsupply⟩ := h
  obtain ⟨fuel', hfuel', hsum⟩ := hfuel.next hn
  refine ⟨_, hsum, hway.next ha hn, fuel', hfuel', rfl, ?_⟩
  have hissued : c'.world.issued.entries.length ≤
      c.world.issued.entries.length + 1 := by
    simp only [Config.next?] at hn
    split at hn
    · cases hn
    · rename_i d k hp
      obtain ⟨⟨x, w'⟩, he, rfl⟩ := Option.map_eq_some_iff.mp hn
      have hdraws : d.draws ≤ 1 := by cases d <;> simp [Call.draws]
      have hlength := exec_issued he
      dsimp only
      omega
  omega

theorem Left.moves (hok : ∀ w i d ch, noFailure d ch → ok w i d ch)
    {s : Finset ℕ} {n : ℕ} (h : Left ok s n c) : c.Done ∨ c.Moves (requests ok) := by
  obtain ⟨hway, fuel, hfuel, rfl, hsupply⟩ := h
  by_cases hdone : c.Done
  · exact .inl hdone
  · right
    simp only [Config.Done, not_forall] at hdone
    obtain ⟨i, hi⟩ := hdone
    rcases hp : c.session i with r | ⟨d, k⟩
    · exact absurd ⟨r, hp⟩ hi
    · have hpos := hfuel.pos hp
      exact hway.moves hok hp (by omega)

/-- **Requests complete**: from every state of every run of requests for single
events and of reads, with crashes, evictions and whatever failures, the requests
under way make at most thirteen calls each, whoever is let to move. Until they
have all returned some session can move, so that they never wait for each other in
a circle, and they can all be brought to their end. -/
theorem requests_complete {merchants : List Merchant}
    (hok : ∀ w i d ch, noFailure d ch → ok w i d ch)
    (hc : Reach (requests ok) (Config.idle (World.start merchants)) c)
    {s : Finset ℕ} (hs : ∀ i, i ∉ s → ∃ r, c.session i = .ret r)
    (hsupply : c.world.issued.entries.length + 13 * s.card ≤ 2 ^ 128) :
    (∀ callers c', Calls (requests ok) c callers c' →
      (∀ i, callers.count i ≤ 13) ∧ callers.length ≤ 13 * s.card ∧
        (c'.Done ∨ c'.Moves (requests ok))) ∧
    ∃ callers c', Calls (requests ok) c callers c' ∧ c'.Done := by
  have htakes : ∀ i, Takes 13 (c.session i) := fun i =>
    hc.within (fun _ _ => Request.takes) i
  have hleft : Left ok s (13 * s.card) c := by
    refine ⟨underWay_of_reach hc, fun _ => 13, ⟨hs, htakes⟩, ?_, hsupply⟩
    simp [Nat.mul_comm]
  refine ⟨fun callers c' hcalls => ?_, exists_done Left.next (Left.moves hok) hleft⟩
  obtain ⟨k, hk, hleft'⟩ := hcalls.spends Left.next hleft
  refine ⟨fun i => ?_, by omega, hleft'.moves hok⟩
  obtain ⟨m, hm, -⟩ := hcalls.count (htakes i)
  omega

end Process

/-- Two requests with one key. -/
def contending : Config services PyError where
  world := World.start Sample.merchants
  session := Function.update (Function.update (fun _ => .ret (.ok ())) 0
    (ingestEventRequest (Sample.payment 'a' 250) >>= fun _ => pure ())) 1
    (ingestEventRequest (Sample.payment 'a' 100) >>= fun _ => pure ())

theorem requests_complete_contending : ∃ callers c',
    Calls (requests fun _ _ d ch => noFailure d ch) contending callers c' ∧
      c'.Done := by
  have hc : Reach (requests fun _ _ d ch => noFailure d ch)
      (Config.idle (World.start Sample.merchants)) contending := by
    refine .step (.spawn 1 _) (.step (.spawn 0 _) .refl ?_ rfl) ?_ rfl
    · exact Request.event (Sample.payment 'a' 250)
    · exact Request.event (Sample.payment 'a' 100)
  have hrest : ∀ i, i ∉ ({0, 1} : Finset ℕ) →
      ∃ r, contending.session i = .ret r := by
    intro i hi
    simp only [Finset.mem_insert, Finset.mem_singleton, not_or] at hi
    refine ⟨.ok (), ?_⟩
    simp only [contending, Function.update_of_ne hi.2, Function.update_of_ne hi.1]
  exact (requests_complete (fun _ _ _ _ h => h) hc hrest (by decide)).2

end AnalyticsPipeline
