import AnalyticsPipeline.Framework.Amidst

/-!
# The calls of a program

`Only P` bounds the calls a program can make, whatever it is answered. What such
calls keep holds in every interleaving of such programs, and the rely calculus
may count on the others making no other calls.
-/

namespace Framework

variable {Call : Type} {Res : Call → Type} {ε α β : Type}

namespace Prog

/-- Every call `p` can come to is a `P`. -/
inductive Only (P : Call → Prop) : Prog Res ε α → Prop where
  | ret {r : Except ε α} : Only P (.ret r)
  | call {c : Call} {k : Res c → Prog Res ε α} : P c → (∀ x, Only P (k x)) →
      Only P (.call c k)

namespace Only

variable {P P' : Call → Prop} {p : Prog Res ε α}

theorem of_call {c : Call} {k : Res c → Prog Res ε α}
    (h : Only P (.call c k)) : P c ∧ ∀ x, Only P (k x) := by
  cases h with
  | call hc hk => exact ⟨hc, hk⟩

theorem mono (hP : ∀ c, P c → P' c) (h : Only P p) : Only P' p := by
  induction h with
  | ret => exact .ret
  | call hc _ ih => exact .call (hP _ hc) ih

theorem bind {f : α → Prog Res ε β} (hp : Only P p) (hf : ∀ a, Only P (f a)) :
    Only P (p >>= f) := by
  induction hp with
  | @ret r =>
      cases r with
      | ok a => exact hf a
      | error e => exact .ret
  | call hc _ ih => exact .call hc ih

theorem tryCatch {handler : ε → Prog Res ε α} (hp : Only P p)
    (hh : ∀ e, Only P (handler e)) : Only P (tryCatch p handler) := by
  induction hp with
  | @ret r =>
      cases r with
      | ok a => exact .ret
      | error e => exact hh e
  | call hc _ ih => exact .call hc ih

end Only

/-- `p` makes only calls of the kind and, as long as `A` allows their answers,
returns as `Q` says. -/
inductive Meets (P : Call → Prop) (A : (c : Call) → Res c → Prop)
    (Q : Except ε α → Prop) : Prog Res ε α → Prop where
  | ret {r : Except ε α} : Q r → Meets P A Q (.ret r)
  | call {c : Call} {k : Res c → Prog Res ε α} : P c →
      (∀ x, A c x → Meets P A Q (k x)) → Meets P A Q (.call c k)

namespace Meets

variable {P : Call → Prop} {A : (c : Call) → Res c → Prop}
  {Q : Except ε α → Prop} {p : Prog Res ε α}

theorem mono {Q' : Except ε α → Prop} (hQ : ∀ r, Q r → Q' r)
    (h : Meets P A Q p) : Meets P A Q' p := by
  induction h with
  | ret hr => exact .ret (hQ _ hr)
  | call hc _ ih => exact .call hc ih

/-- Fewer answers, fewer ways to go on. -/
theorem restrict {A' : (c : Call) → Res c → Prop}
    (hA : ∀ c x, A' c x → A c x) (h : Meets P A Q p) : Meets P A' Q p := by
  induction h with
  | ret hr => exact .ret hr
  | call hc _ ih => exact .call hc fun x hx => ih x (hA _ x hx)

theorem bind {Q' : Except ε β → Prop} {f : α → Prog Res ε β}
    (hp : Meets P A Q p) (hok : ∀ a, Q (.ok a) → Meets P A Q' (f a))
    (herr : ∀ e, Q (.error e) → Q' (.error e)) : Meets P A Q' (p >>= f) := by
  induction hp with
  | @ret r hr =>
      cases r with
      | ok a => exact hok a hr
      | error e => exact .ret (herr e hr)
  | call hc _ ih => exact .call hc ih

theorem tryCatch {Q' : Except ε α → Prop} {handler : ε → Prog Res ε α}
    (hp : Meets P A Q p) (hok : ∀ a, Q (.ok a) → Q' (.ok a))
    (herr : ∀ e, Q (.error e) → Meets P A Q' (handler e)) :
    Meets P A Q' (tryCatch p handler) := by
  induction hp with
  | @ret r hr =>
      cases r with
      | ok a => exact .ret (hok a hr)
      | error e => exact herr e hr
  | call hc _ ih => exact .call hc ih

end Meets

end Prog

open Prog

variable {M : Machine Res}

/-- What a program does if it is answered well, it does in every interleaving in
which it is. `J` is what its own calls rely on. -/
theorem Prog.Meets.wp {pol : Policy M ε} {Inv J : M.World → Prop} {i : ℕ}
    {P : Call → Prop} {A : (c : Call) → Res c → Prop} {Q : Except ε α → Prop}
    {p : Prog Res ε α}
    (hown : ∀ {c ch x w w'}, P c → Inv w → J w → pol.call w i c ch →
      M.exec i c ch w = some (x, w') → A c x ∧ Inv w' ∧ J w')
    (hother : ∀ {w w'}, OtherStep pol i w w' → J w → J w')
    (h : Meets P A Q p) {w : M.World} (hJ : J w) :
    Wp pol Inv i p (fun r w' => Q r ∧ J w') w := by
  have hrely : ∀ {w w'}, Rely pol Inv i w w' → J w → J w' := fun hr hw =>
    hr.preserves (fun _ _ _ _ hs => hother hs) hw
  induction h generalizing w with
  | ret hr => exact fun w' hr' _ => ⟨hr, hrely hr' hJ⟩
  | call hc _ ih =>
      intro w' hr hw' ch x w'' ha he
      obtain ⟨hx, hw'', hJ''⟩ := hown hc hw' (hrely hr hJ) ha he
      exact ⟨hw'', ih x hx hJ''⟩

/-- What each of its calls keeps, a program keeps. -/
theorem Prog.Only.wp {pol : Policy M ε} {Inv J : M.World → Prop} {i : ℕ}
    {P : Call → Prop} {p : Prog Res ε α}
    (hown : ∀ {c ch x w w'}, P c → Inv w → J w → pol.call w i c ch →
      M.exec i c ch w = some (x, w') → Inv w' ∧ J w')
    (hother : ∀ {w w'}, OtherStep pol i w w' → J w → J w')
    (h : Only P p) {w : M.World} (hJ : J w) :
    Wp pol Inv i p (fun _ w' => J w') w := by
  have hrely : ∀ {w w'}, Rely pol Inv i w w' → J w → J w' := fun hr hw =>
    hr.preserves (fun _ _ _ _ hs => hother hs) hw
  induction h generalizing w with
  | ret => exact fun w' hr' _ => hrely hr' hJ
  | call hc _ ih =>
      intro w' hr hw' ch x w'' ha he
      obtain ⟨hw'', hJ''⟩ := hown hc hw' (hrely hr hJ) ha he
      exact ⟨hw'', ih x hJ''⟩

/-- The policy's programs make only calls of one kind, and these keep `R`, as do
its crashes and its environment. -/
structure Kept (pol : Policy M ε) (P : Call → Prop) (R : M.World → Prop) :
    Prop where
  spawn : ∀ {i p}, pol.spawn i p → Only P p
  call : ∀ {i c ch x w w'}, P c → pol.call w i c ch → R w →
    M.exec i c ch w = some (x, w') → R w'
  crash : ∀ {i w}, R w → R (M.crash i w)
  env : ∀ {e w w'}, pol.env w e → R w → M.env e w = some w' → R w'

section Kept

variable {pol : Policy M ε} {P : Call → Prop} {R : M.World → Prop}
  {c c' : Config M ε}

theorem only_update {session : ℕ → Prog Res ε Unit} {p : Prog Res ε Unit}
    {i j : ℕ} (hold : Only P (session j)) (hp : Only P p) :
    Only P (Function.update session i p j) := by
  rw [Function.update_apply]
  split
  · exact hp
  · exact hold

/-- One step, of whichever session. -/
theorem Kept.next (hk : Kept pol P R) {l : Label M ε} (hw : R c.world)
    (hall : ∀ i, Only P (c.session i)) (ha : pol.allows c l)
    (hn : c.next? l = some c') : R c'.world ∧ ∀ i, Only P (c'.session i) := by
  cases l with
  | call i ch =>
      simp only [Config.next?] at hn
      simp only [Policy.allows] at ha
      have hi := hall i
      cases hp : c.session i with
      | ret r => simp [hp] at hn
      | call s k =>
          rw [hp] at hn ha hi
          obtain ⟨⟨x, w'⟩, he, rfl⟩ := Option.map_eq_some_iff.mp hn
          obtain ⟨hs, hrest⟩ := hi.of_call
          exact ⟨hk.call hs ha hw he, fun j => only_update (hall j) (hrest x)⟩
  | crash i =>
      cases hn
      exact ⟨hk.crash hw, fun j => only_update (hall j) .ret⟩
  | spawn i p =>
      simp only [Config.next?] at hn
      split at hn
      · cases hn
        exact ⟨hw, fun j => only_update (hall j) (hk.spawn ha)⟩
      · cases hn
  | env e =>
      obtain ⟨w', he, rfl⟩ := Option.map_eq_some_iff.mp hn
      exact ⟨hk.env ha hw he, hall⟩

/-- **What the calls keep, every run keeps.** -/
theorem Kept.reach (hk : Kept pol P R) {c₀ : Config M ε} (hw : R c₀.world)
    (hall : ∀ i, Only P (c₀.session i)) (hc : Reach pol c₀ c) :
    R c.world ∧ ∀ i, Only P (c.session i) := by
  induction hc with
  | refl => exact ⟨hw, hall⟩
  | step l _ ha hn ih => exact hk.next ih.1 ih.2 ha hn

theorem Kept.reach_idle (hk : Kept pol P R) {w : M.World} (hw : R w)
    (hc : Reach pol (Config.idle w) c) :
    R c.world ∧ ∀ i, Only P (c.session i) :=
  hk.reach hw (fun _ => .ret) hc

/-- The policy whose sessions, besides, make only calls of the kind. -/
def Policy.only (pol : Policy M ε) (P : Call → Prop) : Policy M ε :=
  { pol with call := fun w i c ch => P c ∧ pol.call w i c ch }

/-- What the others do is a step of the rely calculus, or nothing. -/
theorem Kept.other (hk : Kept pol P R) {i : ℕ} {l : Label M ε}
    (hl : l.actor ≠ some i) (ha : pol.allows c l) (hn : c.next? l = some c')
    (hw : R c.world) (hothers : ∀ j, j ≠ i → Only P (c.session j)) :
    R c'.world ∧ (∀ j, j ≠ i → Only P (c'.session j)) ∧
      (c'.world = c.world ∨ OtherStep (pol.only P) i c.world c'.world) := by
  cases l with
  | call j ch =>
      have hj : j ≠ i := fun heq => hl (congrArg some heq)
      simp only [Config.next?] at hn
      simp only [Policy.allows] at ha
      have hothers' := hothers j hj
      cases hp' : c.session j with
      | ret r => simp [hp'] at hn
      | call s k =>
          rw [hp'] at hn ha hothers'
          obtain ⟨⟨x, w'⟩, he, rfl⟩ := Option.map_eq_some_iff.mp hn
          obtain ⟨hs, hrest⟩ := hothers'.of_call
          exact ⟨hk.call hs ha hw he,
            fun j' hj' => only_update (hothers j' hj') (hrest x),
            .inr (.call hj ⟨hs, ha⟩ he)⟩
  | crash j =>
      have hj : j ≠ i := fun heq => hl (congrArg some heq)
      cases hn
      exact ⟨hk.crash hw, fun j' hj' => only_update (hothers j' hj') .ret,
        .inr (.crash hj)⟩
  | spawn j q =>
      simp only [Config.next?] at hn
      split at hn
      · cases hn
        exact ⟨hw, fun j' hj' => only_update (hothers j' hj') (hk.spawn ha),
          .inl rfl⟩
      · cases hn
  | env e =>
      obtain ⟨w', he, rfl⟩ := Option.map_eq_some_iff.mp hn
      exact ⟨hk.env ha hw he, hothers, .inr (.env ha he)⟩

/-- The policy that says, besides, what calls there are and where they find the
world. -/
def Policy.keeping (pol : Policy M ε) (P : Call → Prop) (R : M.World → Prop) :
    Policy M ε :=
  { pol with call := fun w i c ch => P c ∧ R w ∧ pol.call w i c ch }

theorem Kept.allows_keeping {l : Label M ε} (hw : R c.world)
    (hactor : ∀ i, l.actor = some i → Only P (c.session i))
    (ha : pol.allows c l) : (pol.keeping P R).allows c l := by
  cases l with
  | call i ch =>
      have hi := hactor i rfl
      simp only [Policy.allows] at ha ⊢
      cases hp : c.session i with
      | ret r => trivial
      | call s k =>
          rw [hp] at ha hi
          exact ⟨hi.of_call.1, hw, ha⟩
  | crash i => exact ha
  | spawn i p => exact ha
  | env e => exact ha

/-- A run shows what its calls keep. -/
theorem Kept.reach_keeping (hk : Kept pol P R) {w : M.World} (hw : R w)
    (hc : Reach pol (Config.idle w) c) :
    Reach (pol.keeping P R) (Config.idle w) c := by
  refine (Reach.strengthen (K := fun c : Config M ε =>
    R c.world ∧ ∀ i, Only P (c.session i)) ⟨hw, fun _ => .ret⟩ ?_ hc).1
  intro c l c' hK ha hn
  exact ⟨Kept.allows_keeping hK.1 (fun i _ => hK.2 i) ha, hk.next hK.1 hK.2 ha hn⟩

/-- So does a program among others. -/
theorem Kept.amidst_keeping {i : ℕ} {p : Prog Res ε α} {r : Except ε α}
    (hk : Kept pol P R) (hrun : Amidst pol i p c r c') (hw : R c.world)
    (hothers : ∀ j, j ≠ i → Only P (c.session j)) (hp : Only P p) :
    Amidst (pol.keeping P R) i p c r c' := by
  induction hrun with
  | ret => exact .ret
  | @call s k ch x w c c' r ha he _ ih =>
      obtain ⟨hs, hrest⟩ := hp.of_call
      exact .call ⟨hs, hw, ha⟩ he (ih (hk.call hs ha hw he) hothers (hrest x))
  | @other p l c c₁ c' r hl ha hn _ ih =>
      obtain ⟨hw', hothers', -⟩ := hk.other hl ha hn hw hothers
      refine .other hl (Kept.allows_keeping hw (fun j hj => hothers j ?_) ha) hn
        (ih hw' hothers' hp)
      rintro rfl
      exact hl hj

/-- **Answers along the way.** A program among others that make only calls of one
kind is answered out of the worlds the run passes through. -/
theorem Prog.Meets.passage {J : M.World → Prop} {P' : Call → Prop}
    {Ans : M.World → (c : Call) → Res c → Prop} {Q : Except ε α → Prop} {i : ℕ}
    {p : Prog Res ε α} {ws : List M.World} {r : Except ε α}
    (hk : Kept pol P R) (hle : ∀ s, P' s → P s)
    (hown : ∀ {s ch x w w'}, P' s → R w → J w → M.exec i s ch w = some (x, w') →
      Ans w s x ∧ J w')
    (hother : ∀ {w w'}, OtherStep (pol.only P) i w w' → J w → J w')
    (hrun : Passage pol i p c ws r c') (hw : R c.world) (hJ : J c.world)
    (hothers : ∀ j, j ≠ i → Only P (c.session j))
    (hmeets : Meets P' (fun s x => ∃ w ∈ ws, Ans w s x) Q p) : Q r := by
  -- with fewer worlds to be answered out of, there are fewer answers to meet
  have hfewer : ∀ {w : M.World} {ws : List M.World} {p : Prog Res ε α},
      Meets P' (fun s x => ∃ v ∈ w :: ws, Ans v s x) Q p →
        Meets P' (fun s x => ∃ v ∈ ws, Ans v s x) Q p := fun h =>
    h.restrict fun _ _ ⟨v, hv, hx⟩ => ⟨v, List.mem_cons_of_mem _ hv, hx⟩
  induction hrun with
  | ret =>
      cases hmeets with
      | ret hr => exact hr
  | @call s k ch x w ws c c' r ha he _ ih =>
      cases hmeets with
      | call hs hrest =>
          obtain ⟨hx, hJ'⟩ := hown hs hw hJ he
          exact ih (hk.call (hle s hs) ha hw he) hJ' hothers
            (hfewer (hrest x ⟨c.world, List.mem_cons_self, hx⟩))
  | @other p l ws c c₁ c' r hl ha hn _ ih =>
      obtain ⟨hw', hothers', hmove⟩ := hk.other hl ha hn hw hothers
      have hJ' : J c₁.world := by
        rcases hmove with hsame | hstep
        · rw [hsame]
          exact hJ
        · exact hother hstep hJ
      exact ih hw' hJ' hothers' (hfewer hmeets)

/-- **An order of the worlds**: where every step moves the world up, those that
the run passes through lie between the first and the last. -/
theorem Kept.between {G : M.World → M.World → Prop} {i : ℕ} {p : Prog Res ε α}
    {ws : List M.World} {r : Except ε α} (hk : Kept pol P R)
    (hrefl : ∀ w, G w w) (htrans : ∀ {u v w}, G u v → G v w → G u w)
    (hown : ∀ {s ch x w w'}, P s → R w → M.exec i s ch w = some (x, w') → G w w')
    (hother : ∀ {w w'}, R w → OtherStep (pol.only P) i w w' → G w w')
    (hrun : Passage pol i p c ws r c') (hw : R c.world)
    (hothers : ∀ j, j ≠ i → Only P (c.session j)) (hp : Only P p) :
    G c.world c'.world ∧ ∀ w ∈ ws, G c.world w ∧ G w c'.world := by
  induction hrun with
  | ret =>
      refine ⟨hrefl _, fun w hw => ?_⟩
      obtain rfl := List.mem_singleton.mp hw
      exact ⟨hrefl _, hrefl _⟩
  | @call s k ch x w ws c c' r ha he _ ih =>
      obtain ⟨hs, hrest⟩ := hp.of_call
      have hG := hown hs hw he
      obtain ⟨hG', hws⟩ := ih (hk.call hs ha hw he) hothers (hrest x)
      refine ⟨htrans hG hG', fun v hv => ?_⟩
      rcases List.mem_cons.mp hv with rfl | hv
      · exact ⟨hrefl _, htrans hG hG'⟩
      · exact ⟨htrans hG (hws v hv).1, (hws v hv).2⟩
  | @other p l ws c c₁ c' r hl ha hn _ ih =>
      obtain ⟨hw', hothers', hmove⟩ := hk.other hl ha hn hw hothers
      have hG : G c.world c₁.world := by
        rcases hmove with hsame | hstep
        · rw [hsame]
          exact hrefl _
        · exact hother hw hstep
      obtain ⟨hG', hws⟩ := ih hw' hothers' hp
      refine ⟨htrans hG hG', fun v hv => ?_⟩
      rcases List.mem_cons.mp hv with rfl | hv
      · exact ⟨hrefl _, htrans hG hG'⟩
      · exact ⟨htrans hG (hws v hv).1, (hws v hv).2⟩

end Kept

end Framework
