import AnalyticsPipeline.Guarantees.PaymentMonths
import Mathlib.Data.Fintype.EquivFin

/-!
# Readers of one leaderboard

The first reader of a leaderboard that is not in Redis stores as many rows as it
asked for. Later readers take what is stored for the whole: one that asks for
more gets too few.
-/

namespace AnalyticsPipeline

open Framework

/-- Requests one after another with nothing else going on, their limits and
their responses. -/
inductive Reads (settings : Settings) (period : String) :
    World → List (ℕ × LeaderboardResponse) → Prop where
  | nil {w : World} : Reads settings period w []
  | cons {w w' : World} {i n : ℕ} {a : LeaderboardResponse}
      {l : List (ℕ × LeaderboardResponse)} : 1 ≤ n ∧ n ≤ 100 →
      w.txs.get? i = none →
      Eval (M := services) noFailure i
        (leaderboardRequest settings (some period) (some n)) w (.ok a) w' →
      Reads settings period w' l → Reads settings period w ((n, a) :: l)

def LeaderboardEntry.standing (entry : LeaderboardEntry) : ℕ × UUID × ℤ :=
  (entry.rank, entry.merchant_id, entry.volume_cents)

/-- The response has the first `n` entries of a ranking of all merchants. -/
def FirstOf (db : Db) (start stop : DateTime) (n : ℕ) (a : LeaderboardResponse) :
    Prop :=
  ∃ rows, db.Ranking start stop rows ∧ a.entries.map LeaderboardEntry.standing =
    (QueryService.rollupEntries (rows.take n)).map LeaderboardEntry.standing

/-- A score can hold each of the `n` greatest volumes. -/
def ExactTop (db : Db) (start stop : DateTime) (n : ℕ) : Prop :=
  ∀ rows, db.Ranking start stop rows → ∀ row ∈ rows.take n,
    roundDouble row.volume_cents = row.volume_cents

section Rows

variable {db : Db} {start stop : DateTime} {rows : List LeaderboardRow} {n k : ℕ}
  {a : LeaderboardResponse}

theorem pageSize_some {settings : Settings} (hn : 1 ≤ n) :
    pageSize settings (some n) = n := by
  have hfilter : (some n).filter (fun n => decide (n ≠ 0)) = some n :=
    Option.filter_eq_some_iff.mpr ⟨rfl, decide_eq_true (by omega)⟩
  simp only [pageSize, hfilter]

theorem Db.Ranking.nodup_take (h : db.Ranking start stop rows) (n : ℕ) :
    ((rows.take n).map (·.merchant_id)).Nodup :=
  h.nodup.sublist ((List.take_sublist n rows).map _)

theorem servedEntries_standing (hexact : ∀ row ∈ rows,
    roundDouble row.volume_cents = row.volume_cents) :
    (servedEntries rows).map LeaderboardEntry.standing =
      (QueryService.rollupEntries rows).map LeaderboardEntry.standing := by
  rw [servedEntries, QueryService.rollupEntries, List.map_map, List.map_map]
  refine List.map_congr_left fun p hp => ?_
  have hrow : p.1 ∈ rows := List.fst_mem_of_mem_zipIdx hp
  simp only [Function.comp_apply, LeaderboardEntry.standing, hexact p.1 hrow]

/-- Enough rows were stored. -/
theorem firstOf_served (h : db.Ranking start stop rows)
    (hexact : ∀ row ∈ rows.take n,
      roundDouble row.volume_cents = row.volume_cents)
    (hle : k ≤ n ∨ db.rankedCount start stop ≤ n)
    (ha : a.entries = servedEntries ((servedRows (rows.take n)).take k)) :
    FirstOf db start stop k a := by
  obtain ⟨rows', hrows', htake⟩ := (ranking_iff.mp h).exists_take_eq
    (m := k) (servedRows_ranking hexact) (by rwa [List.length_map])
  refine ⟨rows', ranking_iff.mpr hrows', ?_⟩
  rw [ha, servedEntries_standing fun row hrow => hexact row
    ((servedRows_perm _).subset (List.mem_of_mem_take hrow)), htake]

/-- Too few rows were stored. -/
theorem not_firstOf_served {top : List LeaderboardRow} (htop : top.length ≤ n)
    (hk : n < k) (hn : n < db.rankedCount start stop)
    (ha : a.entries = servedEntries ((servedRows top).take k)) :
    ¬ FirstOf db start stop k a := by
  rintro ⟨rows, hrows, heq⟩
  have hlength := congrArg List.length heq
  rw [ha] at hlength
  simp only [servedEntries, QueryService.rollupEntries, List.length_map,
    List.length_zipIdx, List.length_take, (servedRows_perm top).length_eq,
    hrows.length] at hlength
  change n < (db.rankedMerchants start stop).length at hn
  omega

/-- When all that was stored is what the ranking begins with, no volume was
rounded. -/
theorem exact_of_firstOf (h : db.Ranking start stop rows) (hkn : n ≤ k)
    (ha : a.entries = servedEntries ((servedRows (rows.take n)).take k))
    (hfirst : FirstOf db start stop k a) :
    ∀ row ∈ rows.take n, roundDouble row.volume_cents = row.volume_cents := by
  obtain ⟨rows', hrows', heq⟩ := hfirst
  intro row hrow
  have hall : (servedRows (rows.take n)).take k = servedRows (rows.take n) := by
    refine List.take_of_length_le ?_
    rw [(servedRows_perm _).length_eq, List.length_take]
    omega
  have hvolumes := congrArg (List.map Prod.snd) heq
  rw [ha, hall, List.map_map, List.map_map] at hvolumes
  have hmem : (row.merchant_id, roundDouble row.volume_cents) ∈
      (rows'.take k).map LeaderboardRow.volume := by
    rw [← rollupEntries_volume]
    refine hvolumes ▸ ?_
    change _ ∈ (servedEntries (servedRows (rows.take n))).map
      LeaderboardEntry.volume
    rw [servedEntries_rounded]
    exact List.mem_map_of_mem
      (f := fun row : LeaderboardRow =>
        (row.merchant_id, roundDouble row.volume_cents))
      ((servedRows_perm _).symm.subset hrow)
  obtain ⟨row', hrow', hpair⟩ := List.mem_map.mp hmem
  obtain ⟨m, -, rfl⟩ := List.mem_map.mp
    (hrows'.perm.subset (List.mem_of_mem_take hrow'))
  obtain ⟨m', -, rfl⟩ := List.mem_map.mp
    (h.perm.subset (List.mem_of_mem_take hrow))
  obtain ⟨hid, hvolume⟩ := Prod.mk.inj hpair
  have hm : m = m' := hid
  subst hm
  exact hvolume.symm

/-- The volumes of one ranking tell those of all. -/
theorem exactTop_of_exact (h : db.Ranking start stop rows)
    (hexact : ∀ row ∈ rows.take n,
      roundDouble row.volume_cents = row.volume_cents) :
    ExactTop db start stop n := by
  intro rows' hrows' row hrow
  have hvolumes := (ranking_iff.mp hrows').scores_eq (ranking_iff.mp h)
  have hmem : row.volume_cents ∈ (rows.take n).map (·.volume_cents) := by
    rw [List.map_take, ← hvolumes, ← List.map_take]
    exact List.mem_map_of_mem hrow
  obtain ⟨row', hrow', heq⟩ := List.mem_map.mp hmem
  rw [← heq]
  exact hexact row' hrow'

end Rows

/-! ## Runs of requests -/

section Reads

variable {settings : Settings} {period : String} {start stop : DateTime}
  {w : World} {l : List (ℕ × LeaderboardResponse)} {db : Db}

/-- Nothing is stored when there is nothing to rank or the time to live is
zero, so every request is answered from the day rows. -/
theorem Reads.cold (hbounds : PeriodBounds period start stop)
    (hnothing : settings.leaderboard_rebuild_ttl = 0 ∨
      db.rankedCount start stop = 0)
    (hl : Reads settings period w l) (hdb : w.db = db)
    (hcold : w.redis.get? (leaderboardKey period) = none) :
    ∀ p ∈ l, FirstOf db start stop p.1 p.2 := by
  obtain ⟨⟨year, month⟩, hparse, hmonth⟩ := Option.bind_eq_some_iff.mp hbounds
  induction hl with
  | nil => exact List.forall_mem_nil _
  | @cons w w' i n a l hn hidle he _ ih =>
      obtain ⟨hdb', -, -, rows, hrows, hentries, hrebuilt⟩ :=
        eval_leaderboard_cold hparse (periodBounds_eq_some_iff.mp hmonth) hidle
          hcold he
      rw [pageSize_some hn.1] at hentries hrebuilt
      rw [hdb] at hrows
      refine List.forall_mem_cons.mpr ⟨⟨rows, hrows, ?_⟩,
        ih (hdb'.trans hdb) ?_⟩
      · rw [(Prod.mk.inj hentries).1]
      · rw [hrebuilt.key, if_pos]
        rcases hnothing with httl | hzero
        · exact .inr httl
        · have hnil : rows = [] := by
            rw [← List.length_eq_zero_iff, hrows.length]
            exact hzero
          exact .inl (by rw [hnil, List.take_nil])

/-- What is stored is read back, and stays. -/
theorem Reads.hot {top : List LeaderboardRow}
    (hbounds : PeriodBounds period start stop)
    (hnd : (top.map (·.merchant_id)).Nodup) (hl : Reads settings period w l)
    (hhot : w.redis.board period = some (boardOf top)) :
    ∀ p ∈ l, p.2.entries = servedEntries ((servedRows top).take p.1) := by
  obtain ⟨⟨year, month⟩, hparse, hmonth⟩ := Option.bind_eq_some_iff.mp hbounds
  induction hl with
  | nil => exact List.forall_mem_nil _
  | @cons w w' i n a l hn hidle he _ ih =>
      have hsize := @pageSize_some _ settings hn.1
      obtain ⟨-, -, -, hredis, hx⟩ := eval_leaderboard_hot hparse
        (periodBounds_eq_some_iff.mp hmonth) hidle (by omega) hhot he
      rw [hsize, hotAnswer_boardOf hnd] at hx
      exact List.forall_mem_cons.mpr ⟨(Prod.mk.inj (Except.ok.inj hx)).1,
        ih (hredis ▸ hhot)⟩

theorem exists_session (w : World) : ∃ i, w.txs.get? i = none := by
  obtain ⟨i, hi⟩ := Infinite.exists_notMem_finset w.txs.keys.toFinset
  exact ⟨i, Dict.get?_eq_none_iff.mpr fun hmem => hi (List.mem_toFinset.mpr hmem)⟩

theorem exists_read_hot {top : List LeaderboardRow} {n : ℕ}
    (hbounds : PeriodBounds period start stop)
    (hnd : (top.map (·.merchant_id)).Nodup) (hn : 1 ≤ n ∧ n ≤ 100)
    (hhot : w.redis.board period = some (boardOf top)) :
    ∃ a, Reads settings period w [(n, a)] := by
  obtain ⟨⟨year, month⟩, hparse, hmonth⟩ := Option.bind_eq_some_iff.mp hbounds
  obtain ⟨i, hidle⟩ := exists_session w
  obtain ⟨x, w', he⟩ := exists_eval_waitless (i := i) false
    (within_leaderboardRequest settings (some period) (some n)) w
  have hsize := @pageSize_some _ settings hn.1
  obtain ⟨-, -, -, -, hx⟩ := eval_leaderboard_hot hparse
    (periodBounds_eq_some_iff.mp hmonth) hidle (by omega) hhot he
  rw [hotAnswer_boardOf hnd] at hx
  cases x with
  | ok a => exact ⟨a, .cons hn hidle he .nil⟩
  | error e => cases hx

theorem Reads.limits (hl : Reads settings period w l) :
    ∀ p ∈ l, 1 ≤ p.1 ∧ p.1 ≤ 100 := by
  induction hl with
  | nil => exact List.forall_mem_nil _
  | cons hn _ _ _ ih => exact List.forall_mem_cons.mpr ⟨hn, ih⟩

/-- A first request, which others may follow. -/
theorem exists_read_cold {n : ℕ} (hbounds : PeriodBounds period start stop)
    (hn : 1 ≤ n ∧ n ≤ 100)
    (hcold : w.redis.get? (leaderboardKey period) = none)
    (hcounts : CountsAt rebuildsKey w.redis) :
    ∃ a w' rows, (∀ l, Reads settings period w' l →
        Reads settings period w ((n, a) :: l)) ∧
      w.db.Ranking start stop rows ∧
      Rebuilt settings period (rows.take n) w.redis w'.redis := by
  obtain ⟨⟨year, month⟩, hparse, hmonth⟩ := Option.bind_eq_some_iff.mp hbounds
  obtain ⟨i, hidle⟩ := exists_session w
  obtain ⟨a, w', he⟩ := @exists_eval_leaderboard_cold _ _
    settings _ (some n) _ _ _ _ hparse (periodBounds_eq_some_iff.mp hmonth) hidle hcold
    hcounts
  obtain ⟨-, -, -, rows, hrows, -, hrebuilt⟩ := eval_leaderboard_cold hparse
    (periodBounds_eq_some_iff.mp hmonth) hidle hcold he
  rw [pageSize_some hn.1] at hrebuilt
  exact ⟨a, w', rows, fun l hl => .cons hn hidle he hl, hrows, hrebuilt⟩

/-- The first of some requests. -/
theorem Reads.first {n : ℕ} {a : LeaderboardResponse}
    (hbounds : PeriodBounds period start stop)
    (hl : Reads settings period w ((n, a) :: l))
    (hcold : w.redis.get? (leaderboardKey period) = none) :
    ∃ w' rows, Reads settings period w' l ∧ w'.db = w.db ∧
      w.db.Ranking start stop rows ∧
      a.entries = QueryService.rollupEntries (rows.take n) ∧
      Rebuilt settings period (rows.take n) w.redis w'.redis := by
  obtain ⟨⟨year, month⟩, hparse, hmonth⟩ := Option.bind_eq_some_iff.mp hbounds
  cases hl with
  | @cons _ w' i _ _ _ hn hidle he hl =>
      obtain ⟨hdb', -, -, rows, hrows, hentries, hrebuilt⟩ :=
        eval_leaderboard_cold hparse (periodBounds_eq_some_iff.mp hmonth) hidle
          hcold he
      rw [pageSize_some hn.1] at hentries hrebuilt
      exact ⟨w', rows, hl, hdb', hrows, (Prod.mk.inj hentries).1, hrebuilt⟩

/-- The sorted set after the first request. -/
theorem Rebuilt.board {rows : List LeaderboardRow} {r r' : Redis} {n : ℕ}
    (h : Rebuilt settings period (rows.take n) r r')
    (hrows : db.Ranking start stop rows) (hn : 1 ≤ n)
    (httl : settings.leaderboard_rebuild_ttl ≠ 0)
    (hsome : db.rankedCount start stop ≠ 0) :
    r'.board period = some (boardOf (rows.take n)) := by
  have hne : rows.take n ≠ [] := by
    intro hnil
    have hlength := congrArg List.length hnil
    rw [List.length_take, hrows.length, List.length_nil] at hlength
    change (db.rankedMerchants start stop).length ≠ 0 at hsome
    omega
  have hkey := h.key
  rw [if_neg (by simp [hne, httl])] at hkey
  rw [Redis.board, hkey]

/-- The limits of later requests decide, while scores hold the volumes. -/
theorem Reads.firstOf_iff {n : ℕ} {a : LeaderboardResponse}
    (hbounds : PeriodBounds period start stop)
    (hcold : w.redis.get? (leaderboardKey period) = none) (hn : 1 ≤ n)
    (hl : Reads settings period w ((n, a) :: l))
    (hexact : ExactTop w.db start stop n) :
    (∀ p ∈ (n, a) :: l, FirstOf w.db start stop p.1 p.2) ↔
      settings.leaderboard_rebuild_ttl = 0 ∨
        ∀ p ∈ l, p.1 ≤ n ∨ w.db.rankedCount start stop ≤ n := by
  by_cases httl : settings.leaderboard_rebuild_ttl = 0
  · exact iff_of_true (hl.cold hbounds (.inl httl) rfl hcold) (.inl httl)
  by_cases hzero : w.db.rankedCount start stop = 0
  · exact iff_of_true (hl.cold hbounds (.inr hzero) rfl hcold)
      (.inr fun p _ => .inr (by omega))
  obtain ⟨w', rows, hl', hdb, hrows, hentries, hrebuilt⟩ :=
    hl.first hbounds hcold
  have hserved := hl'.hot hbounds (hrows.nodup_take n)
    (hrebuilt.board hrows hn httl hzero)
  rw [List.forall_mem_cons]
  constructor
  · rintro ⟨-, hall⟩
    refine .inr fun p hp => ?_
    by_contra hno
    rw [not_or, not_le, not_le] at hno
    exact not_firstOf_served (List.length_take_le n rows) hno.1 hno.2
      (hserved p hp) (hall p hp)
  · intro hall
    refine ⟨⟨rows, hrows, by rw [hentries]⟩, fun p hp => ?_⟩
    exact firstOf_served hrows (hexact rows hrows)
      (hall.resolve_left httl p hp) (hserved p hp)

/-- A second request for as many entries as there may be shows what the first
one has stored. -/
theorem needed_of_firstOf {n : ℕ} (hbounds : PeriodBounds period start stop)
    (hcold : w.redis.get? (leaderboardKey period) = none)
    (hcounts : CountsAt rebuildsKey w.redis)
    (httl : settings.leaderboard_rebuild_ttl ≠ 0) (hn : 1 ≤ n ∧ n ≤ 100)
    (hall : ∀ a l, Reads settings period w ((n, a) :: l) →
      ∀ p ∈ (n, a) :: l, FirstOf w.db start stop p.1 p.2) :
    (w.db.rankedCount start stop ≤ n ∨ n = 100) ∧
      ExactTop w.db start stop n := by
  obtain ⟨a, w', rows, hextend, hrows, hrebuilt⟩ := exists_read_cold
    hbounds hn hcold hcounts
  by_cases hzero : w.db.rankedCount start stop = 0
  · have hnil : rows = [] := by
      rw [← List.length_eq_zero_iff, hrows.length]
      exact hzero
    refine ⟨.inl (by omega), exactTop_of_exact hrows ?_⟩
    rw [hnil, List.take_nil]
    exact List.forall_mem_nil _
  · have hboard := hrebuilt.board hrows hn.1 httl hzero
    obtain ⟨a', hl⟩ := @exists_read_hot settings _ _ _ _ _ 100 hbounds
      (hrows.nodup_take n) (by decide) hboard
    have hserved := hl.hot hbounds (hrows.nodup_take n) hboard _
      List.mem_cons_self
    have hfirst := hall a _ (hextend _ hl) (100, a') (by simp)
    refine ⟨?_, exactTop_of_exact hrows
      (exact_of_firstOf hrows hn.2 hserved hfirst)⟩
    by_contra hno
    rw [not_or, not_le] at hno
    exact not_firstOf_served (List.length_take_le n rows) (by omega) hno.1
      hserved hfirst

end Reads

/-- **Answers do not depend on earlier readers** in whatever requests follow a
first one with limit `n`, if and only if none is answered, nothing is stored, or
`n` takes in all merchants or all limits there are and a score holds each of the
volumes stored. In one run of requests whose stored volumes scores can hold, if
and only if nothing is stored or every later limit is at most the first, unless
the first takes in all merchants. -/
theorem readers_independent_iff (settings : Settings) {period : String}
    {start stop : DateTime} (hbounds : PeriodBounds period start stop) (w : World)
    (hcold : w.redis.get? (leaderboardKey period) = none) :
    (∀ n, 1 ≤ n ∧ n ≤ 100 →
      ((∀ a l, Reads settings period w ((n, a) :: l) →
        ∀ p ∈ (n, a) :: l, FirstOf w.db start stop p.1 p.2) ↔
      ¬ CountsAt rebuildsKey w.redis ∨ settings.leaderboard_rebuild_ttl = 0 ∨
        (w.db.rankedCount start stop ≤ n ∨ n = 100) ∧
          ExactTop w.db start stop n)) ∧
    ∀ n a l, Reads settings period w ((n, a) :: l) →
      ExactTop w.db start stop n →
      ((∀ p ∈ (n, a) :: l, FirstOf w.db start stop p.1 p.2) ↔
        settings.leaderboard_rebuild_ttl = 0 ∨
          ∀ p ∈ l, p.1 ≤ n ∨ w.db.rankedCount start stop ≤ n) := by
  refine ⟨fun n hn => ⟨fun hall => ?_, fun hwhen a l hl => ?_⟩,
    fun n a l hl hexact => ?_⟩
  · by_cases hcounts : CountsAt rebuildsKey w.redis
    · by_cases httl : settings.leaderboard_rebuild_ttl = 0
      · exact .inr (.inl httl)
      · exact .inr (.inr (needed_of_firstOf hbounds hcold hcounts httl hn hall))
    · exact .inl hcounts
  · obtain ⟨w', rows, hl', -, -, -, hrebuilt⟩ := hl.first hbounds hcold
    rcases hwhen with hcounts | httl | ⟨hlimit, hexact⟩
    · exact absurd hrebuilt.counted hcounts
    · exact hl.cold hbounds (.inl httl) rfl hcold
    · refine (hl.firstOf_iff hbounds hcold hn.1 hexact).mpr (.inr fun p hp => ?_)
      rcases hlimit with hall | hmost
      · exact .inr hall
      · exact .inl (hmost ▸ (hl'.limits p hp).2)
  · exact hl.firstOf_iff hbounds hcold (hl.limits _ List.mem_cons_self).1 hexact

/-! ## Two merchants -/

theorem may_range : 1 ≤ 5 ∧ 5 ≤ 12 := by decide

theorem first_of_may_range : 1 ≤ 1 ∧ 1 ≤ daysInMonth 2024 5 := by decide

def firstOfMay : DateTime :=
  { firstOfJune with
    month := 5, month_range := may_range, day_range := first_of_may_range }

/-- The day rows of two merchants. -/
def twoMerchants : World :=
  let table : RollupTable :=
    ((∅ : RollupTable).set ⟨7, (Sample.instant 0).truncDay, .paymentConfirmed⟩
      ⟨1, 250, some 250, some 250⟩).set
        ⟨8, (Sample.instant 0).truncDay, .paymentConfirmed⟩
        ⟨1, 100, some 100, some 100⟩
  { World.start [⟨7, "Acme"⟩, ⟨8, "Brew"⟩] with
    db := { (∅ : Db) with
      merchants := [⟨7, "Acme"⟩, ⟨8, "Brew"⟩]
      rollup := fun g => if g = .day then table else ∅ } }

theorem periodBounds_may : PeriodBounds "2024-05" firstOfMay firstOfJune := by
  rw [PeriodBounds]
  decide

theorem readers_independent_iff_two :
    PeriodBounds "2024-05" firstOfMay firstOfJune ∧
    ∀ a l, Reads {} "2024-05" twoMerchants ((2, a) :: l) →
      ∀ p ∈ (2, a) :: l,
        FirstOf twoMerchants.db firstOfMay firstOfJune p.1 p.2 := by
  refine ⟨periodBounds_may, ((readers_independent_iff {} periodBounds_may
    twoMerchants rfl).1 2 (by decide)).mpr (.inr (.inr ⟨.inl ?_, ?_⟩))⟩
  · decide
  · have hexact : ∀ row ∈ (twoMerchants.db.rankedMerchants firstOfMay
        firstOfJune).map (twoMerchants.db.rowOf firstOfMay firstOfJune),
        roundDouble row.volume_cents = row.volume_cents := by decide
    intro rows hrows row hrow
    exact hexact row (hrows.perm.subset (List.mem_of_mem_take hrow))

/-- **After a request for one entry** a request for two is answered with one. -/
theorem second_reader_cut_short : ∃ a a',
    Reads {} "2024-05" twoMerchants [(1, a), (2, a')] ∧ a'.entries.length = 1 ∧
      twoMerchants.db.rankedCount firstOfMay firstOfJune = 2 ∧
      ¬ FirstOf twoMerchants.db firstOfMay firstOfJune 2 a' := by
  have hcount : twoMerchants.db.rankedCount firstOfMay firstOfJune = 2 := by
    decide
  obtain ⟨a, w', rows, hextend, hrows, hrebuilt⟩ := @exists_read_cold {}
    _ _ _ twoMerchants 1 periodBounds_may (by decide) rfl
    (fun _ hget => nomatch hget)
  have hboard := hrebuilt.board hrows (le_refl 1) (by decide) (by decide)
  obtain ⟨a', hl⟩ := @exists_read_hot {} _ _ _ _ _ 2 periodBounds_may
    (hrows.nodup_take 1) (by decide) hboard
  have hserved := hl.hot periodBounds_may (hrows.nodup_take 1) hboard _
    List.mem_cons_self
  refine ⟨a, a', hextend _ hl, ?_, hcount, not_firstOf_served
    (List.length_take_le 1 rows) (by decide) (by decide) hserved⟩
  have hlength : rows.length = 2 := hrows.length.trans hcount
  rw [hserved]
  simp only [servedEntries, List.length_map, List.length_zipIdx,
    List.length_take, (servedRows_perm _).length_eq, hlength]
  decide

end AnalyticsPipeline
