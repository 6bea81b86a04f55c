import AnalyticsPipeline.Guarantees.ExactlyOnce

/-!
# Idempotency keys

Whatever the interleaving of ingest requests, the deduplication table and the
event table hold the same keys and identifiers, one event for each key, and of
all the committed requests that submitted a key exactly one was told that it was
new.
-/

namespace AnalyticsPipeline

open Framework Relation

/-- Request `n`, in the order of the commits, said this about a key. -/
def History.Said (h : History) (n : ℕ) (key : String)
    (response : EventIngestResponse) : Prop :=
  ∃ answers, h.answered[n]? = some answers ∧ (key, response) ∈ answers

/-- Request `n` took the key for new. -/
def History.SaidNew (h : History) (key : String) (n : ℕ) : Prop :=
  ∃ response, h.Said n key response ∧ response.duplicate = false

structure Acknowledged (h : History) : Prop where
  named : ∀ {n key response}, h.Said n key response →
    ∃ r ∈ h.db.raw_events, r.idempotency_key = key ∧
      response = r.response response.duplicate
  once : ∀ r ∈ h.db.raw_events, ∃! n, h.SaidNew r.idempotency_key n

namespace Acknowledged

variable {h : History}

theorem said_install {ws : Db} {answers : Answers} {n : ℕ} {key : String}
    {response : EventIngestResponse} :
    (h.install ws answers).Said n key response ↔
      h.Said n key response ∨
        n = h.answered.length ∧ (key, response) ∈ answers := by
  simp only [History.Said, History.install, List.getElem?_append,
    List.getElem?_singleton]
  rcases lt_trichotomy n h.answered.length with hn | hn | hn
  · simp [hn, hn.ne]
  · subst hn
    simp
  · have hnone : h.answered[n]? = none := List.getElem?_eq_none hn.le
    have h₁ : ¬ n < h.answered.length := hn.not_gt
    have h₂ : ¬ n - h.answered.length = 0 := by omega
    simp [h₁, h₂, hn.ne']

theorem start (merchants : List Merchant) :
    Acknowledged (History.start merchants) :=
  ⟨fun ⟨_, hn, _⟩ => by simp [History.start] at hn, by simp [History.start]⟩

/-- A commit that adds no event and answers nothing. -/
theorem silent {ws : Db} (hack : Acknowledged h) (hraw : ws.raw_events = []) :
    Acknowledged (h.install ws []) := by
  have hsame : (h.install ws []).db.raw_events = h.db.raw_events := by
    simp [History.install, hraw]
  have hsaid : ∀ n key response, (h.install ws []).Said n key response ↔
      h.Said n key response := by
    intro n key response
    rw [said_install]
    simp
  refine ⟨fun hs => hsame ▸ hack.named ((hsaid _ _ _).mp hs), fun r hr => ?_⟩
  obtain ⟨n, ⟨response, hs, hnew⟩, honly⟩ := hack.once r (hsame ▸ hr)
  refine ⟨n, ⟨response, (hsaid _ _ _).mpr hs, hnew⟩, ?_⟩
  rintro n' ⟨response', hs', hnew'⟩
  exact honly n' ⟨response', (hsaid _ _ _).mp hs', hnew'⟩

theorem ingest {now : DateTime} {ws : Db} {answers : Answers}
    (hd : Deduplicated h.db) (hack : Acknowledged h)
    (hi : IngestTx h now ws answers) :
    Acknowledged (h.install ws answers) := by
  have hdisjoint : ∀ r ∈ h.db.raw_events, ∀ r' ∈ ws.raw_events,
      r.idempotency_key ≠ r'.idempotency_key := by
    intro r hr r' hr' heq
    refine hi.events.fresh_keys r'.claim
      (hi.events.deduplicated.claim_mem hr') ?_
    exact List.mem_map.mpr ⟨r.claim, hd.claim_mem hr, heq⟩
  refine ⟨?_, ?_⟩
  · intro n key response hs
    rcases said_install.mp hs with hs | ⟨-, hmem⟩
    · obtain ⟨r, hr, hk, hresp⟩ := hack.named hs
      exact ⟨r, List.mem_append_left _ hr, hk, hresp⟩
    · obtain ⟨r, hk, hresp, hr⟩ := hi.answered _ hmem
      refine ⟨r, ?_, hk, hresp⟩
      split at hr
      · exact List.mem_append_left _ hr
      · exact List.mem_append_right _ hr
  · intro r hr
    rcases List.mem_append.mp hr with hr | hr
    · obtain ⟨n, ⟨response, hs, hnew⟩, honly⟩ := hack.once r hr
      refine ⟨n, ⟨response, said_install.mpr (.inl hs), hnew⟩, ?_⟩
      rintro n' ⟨response', hs', hnew'⟩
      rcases said_install.mp hs' with hs' | ⟨-, hmem⟩
      · exact honly n' ⟨response', hs', hnew'⟩
      · obtain ⟨r', hk, -, hr'⟩ := hi.answered _ hmem
        rw [if_neg (by simp [hnew'])] at hr'
        exact absurd hk.symm (hdisjoint r hr r' hr')
    · obtain ⟨p, hp, hk, hnew⟩ := hi.acknowledged r hr
      refine ⟨h.answered.length, ⟨p.2, said_install.mpr (.inr ⟨rfl, ?_⟩), hnew⟩,
        ?_⟩
      · rw [← hk]
        exact hp
      · rintro n' ⟨response', hs', -⟩
        rcases said_install.mp hs' with hs' | ⟨hn', -⟩
        · obtain ⟨r', hr', hk', -⟩ := hack.named hs'
          exact absurd hk' (hdisjoint r' hr' r hr)
        · exact hn'

end Acknowledged

theorem Serial.acknowledged
    {allowed : Settings → History → List RawEvent → Prop} {h h' : History}
    (hd : Deduplicated h.db) (hack : Acknowledged h)
    (hs : Serial allowed h h') : Acknowledged h' := by
  induction hs with
  | refl => exact hack
  | @tail h₁ _ hs hstep ih =>
      cases hstep with
      | ingest hi => exact ih.ingest (Serial.deduplicated hd hs) hi
      | batch _ hb => exact ih.silent hb.appends.2.1
      | fetch _ _ => exact ⟨ih.named, ih.once⟩
      | deleteOffset c => exact ⟨ih.named, ih.once⟩

/-- **Idempotency keys**: the two tables agree, keys and identifiers determine
each other, and for each key one committed request was told that it is new, all
the others that it is a duplicate of the same event. -/
theorem idempotency_keys_unique (merchants : List Merchant)
    {c : Config services PyError}
    (hc : Reach anyConsumers (Config.idle (World.start merchants)) c) :
    (∀ key u, ⟨key, u⟩ ∈ c.world.db.event_idempotency ↔
      ∃ r ∈ c.world.db.raw_events, r.idempotency_key = key ∧ r.id = u) ∧
    (∀ x ∈ c.world.db.event_idempotency, ∀ y ∈ c.world.db.event_idempotency,
      x.idempotency_key = y.idempotency_key ↔ x.event_id = y.event_id) ∧
    (∀ r ∈ c.world.db.raw_events,
      ∃! n, c.world.SaidNew r.idempotency_key n) ∧
    (∀ r ∈ c.world.db.raw_events, ∀ n response,
      c.world.Said n r.idempotency_key response → response.event_id = r.id ∧
        (¬ c.world.SaidNew r.idempotency_key n →
          response.duplicate = true)) := by
  have hs : Serial (fun _ _ _ => True) (History.start merchants)
      c.world.toHistory :=
    (reach_serial (fun _ _ hp => hp) (fun _ _ _ _ => trivial) hc).2
  have hd := Serial.deduplicated (deduplicated_start merchants) hs
  have hack := Serial.acknowledged (deduplicated_start merchants)
    (.start merchants) hs
  refine ⟨?_, ?_, hack.once, ?_⟩
  · intro key u
    rw [hd.claims]
    simp only [RawEvent.claim, EventIdempotency.mk.injEq]
  · intro x hx y hy
    obtain ⟨r, hr, rfl⟩ := (hd.claims x).mp hx
    obtain ⟨r', hr', rfl⟩ := (hd.claims y).mp hy
    constructor
    · exact fun hk => congrArg RawValues.id
        (congrArg RawEvent.toRawValues (hd.eq_of_key hr hr' hk))
    · exact fun hid => congrArg RawValues.idempotency_key
        (congrArg RawEvent.toRawValues (hd.eq_of_id hr hr' hid))
  · intro r hr n response hsaid
    obtain ⟨r', hr', hk, hresp⟩ := hack.named hsaid
    obtain rfl := hd.eq_of_key hr' hr hk
    refine ⟨by rw [hresp]; rfl, fun hnot => ?_⟩
    by_contra hdup
    exact hnot ⟨response, hsaid, Bool.not_eq_true _ ▸ hdup⟩

/-- Two requests with one key: the second draws its identifier while the first
holds the key, and claims the key when the first has committed. -/
def contendedRun : Sample.Labels :=
  let e := Sample.payment 'a' 250
  let begin (i : ℕ) (id : UUID) (minute : ℕ) : Sample.Labels :=
    [.spawn i (ingestEventRequest e >>= fun _ => pure ()),
      .call i (.clock (Sample.instant minute)), .call i .auto,
      .call i (.clock (Sample.instant minute)), .call i (.uuid id)]
  begin 0 1 3 ++ [.call 0 .auto] ++ begin 1 2 4 ++
    List.replicate 5 (.call 0 .auto) ++ List.replicate 5 (.call 1 .auto)

theorem idempotency_keys_unique_contended : ∃ c : Config services PyError,
    Reach anyConsumers (Config.idle (World.start Sample.merchants)) c ∧
    c.world.answered = [
      [("a", (Sample.row (Sample.payment 'a' 250) 1 3).response false)],
      [("a", (Sample.row (Sample.payment 'a' 250) 1 3).response true)]] ∧
    ∃! n, c.world.SaidNew "a" n := by
  have hrun : ((Config.idle (World.start Sample.merchants)).replay?
      (fun _ _ _ _ => true) contendedRun).map
        (fun c => (c.world.answered, c.world.db.raw_events)) =
      some ([[("a", (Sample.row (Sample.payment 'a' 250) 1 3).response false)],
        [("a", (Sample.row (Sample.payment 'a' 250) 1 3).response true)]],
        [Sample.row (Sample.payment 'a' 250) 1 3]) := by decide +kernel
  obtain ⟨c, hc, hstate⟩ := Option.map_eq_some_iff.mp hrun
  obtain ⟨hanswered, hraw⟩ := Prod.mk.inj hstate
  have hreach : Reach anyConsumers
      (Config.idle (World.start Sample.merchants)) c := by
    refine reach_of_replay? (fun _ _ _ _ _ => trivial) ?_ hc
    have hspawn : ∀ i, anyConsumers.spawn i
        (ingestEventRequest (Sample.payment 'a' 250) >>= fun _ => pure ()) :=
      fun _ => .ingestEvent _
    simp only [contendedRun, List.forall_mem_append, List.forall_mem_cons,
      List.forall_mem_replicate, Policy.admits, hspawn, List.not_mem_nil,
      or_true,
      false_imp_iff, implies_true, and_true]
  have hmem : Sample.row (Sample.payment 'a' 250) 1 3 ∈ c.world.db.raw_events :=
    hraw ▸ List.mem_singleton.mpr rfl
  exact ⟨c, hreach, hanswered,
    (idempotency_keys_unique _ hreach).2.2.1 _ hmem⟩

end AnalyticsPipeline
