import AnalyticsPipeline.Framework.Program
import Mathlib.Logic.Relation
import Mathlib.Data.Nat.Notation

/-!
# Sessions interleaved call by call

A `Machine` gives every call a meaning on a shared world. Sessions run programs
against it; one step of the system lets one session perform its next call, so
two sessions may be interleaved between any two calls. What the world decides by
itself (a clock reading, a fresh identifier, an error, the order in which rows
are delivered) is the step's `Choice`.

The proof rule is a rely calculus. `Wp` runs a program call by call and lets
every *other* session act in between, as often as it likes, through states that
satisfy the invariant; `reach_wp` is its soundness for every interleaving.
-/

namespace Framework

open Relation

variable {Call : Type} {Res : Call → Type} {ε α β : Type}

structure Machine (Res : Call → Type) where
  World : Type
  Choice : Type
  Event : Type
  /-- `none`: the call cannot be answered now, or not with this choice. -/
  exec : ℕ → (c : Call) → Choice → World → Option (Res c × World)
  crash : ℕ → World → World
  env : Event → World → Option World

structure Config (M : Machine Res) (ε : Type) where
  world : M.World
  session : ℕ → Prog Res ε Unit

inductive Label (M : Machine Res) (ε : Type) where
  | call (i : ℕ) (ch : M.Choice)
  | crash (i : ℕ)
  | spawn (i : ℕ) (p : Prog Res ε Unit)
  | env (e : M.Event)

/-- The session that takes the step. -/
def Label.actor {M : Machine Res} : Label M ε → Option ℕ
  | .call i _ | .crash i | .spawn i _ => some i
  | .env _ => none

/-- The steps a run may take. -/
structure Policy (M : Machine Res) (ε : Type) where
  call : M.World → ℕ → Call → M.Choice → Prop
  crash : M.World → ℕ → Prop
  spawn : ℕ → Prog Res ε Unit → Prop
  env : M.World → M.Event → Prop

variable {M : Machine Res}

namespace Config

def next? (c : Config M ε) : Label M ε → Option (Config M ε)
  | .call i ch =>
      match c.session i with
      | .ret _ => none
      | .call s k =>
          (M.exec i s ch c.world).map fun r =>
            ⟨r.2, Function.update c.session i (k r.1)⟩
  | .crash i =>
      some ⟨M.crash i c.world, Function.update c.session i (.ret (.ok ()))⟩
  | .spawn i p =>
      match c.session i with
      | .ret _ => some ⟨c.world, Function.update c.session i p⟩
      | .call _ _ => none
  | .env e => (M.env e c.world).map fun w => ⟨w, c.session⟩

def lets (ok : M.World → ℕ → Call → M.Choice → Bool) (c : Config M ε) :
    Label M ε → Bool
  | .call i ch =>
      match c.session i with
      | .ret _ => true
      | .call s _ => ok c.world i s ch
  | _ => true

/-- Replay a list of labels, as long as `ok` lets the calls through. -/
def replay? (ok : M.World → ℕ → Call → M.Choice → Bool) (c : Config M ε) :
    List (Label M ε) → Option (Config M ε)
  | [] => some c
  | l :: ls =>
      if c.lets ok l then (c.next? l).bind fun c' => c'.replay? ok ls else none

def idle (w : M.World) : Config M ε := ⟨w, fun _ => .ret (.ok ())⟩

end Config

def Policy.allows (pol : Policy M ε) (c : Config M ε) : Label M ε → Prop
  | .call i ch =>
      match c.session i with
      | .ret _ => True
      | .call s _ => pol.call c.world i s ch
  | .crash i => pol.crash c.world i
  | .spawn i p => pol.spawn i p
  | .env e => pol.env c.world e

/-- The configurations of the runs from `c₀` whose steps all meet `pol`. -/
inductive Reach (pol : Policy M ε) (c₀ : Config M ε) : Config M ε → Prop where
  | refl : Reach pol c₀ c₀
  | step {c c' : Config M ε} (l : Label M ε) : Reach pol c₀ c →
      pol.allows c l → c.next? l = some c' → Reach pol c₀ c'

theorem Reach.trans {pol : Policy M ε} {c₀ c₁ c₂ : Config M ε}
    (h₁ : Reach pol c₀ c₁) (h₂ : Reach pol c₁ c₂) : Reach pol c₀ c₂ := by
  induction h₂ with
  | refl => exact h₁
  | step l _ ha hn ih => exact .step l ih ha hn

/-- Fewer conditions on the steps, more runs. -/
theorem Reach.mono {pol pol' : Policy M ε} {c₀ c : Config M ε}
    (hle : ∀ c l, pol.allows c l → pol'.allows c l) (h : Reach pol c₀ c) :
    Reach pol' c₀ c := by
  induction h with
  | refl => exact .refl
  | step l _ ha hn ih => exact .step l ih (hle _ _ ha) hn

/-- What holds along a run may be added to the conditions on its steps. -/
theorem Reach.strengthen {pol pol' : Policy M ε} {K : Config M ε → Prop}
    {c₀ c : Config M ε} (h₀ : K c₀)
    (hstep : ∀ c l c', K c → pol.allows c l → c.next? l = some c' →
      pol'.allows c l ∧ K c') (h : Reach pol c₀ c) : Reach pol' c₀ c ∧ K c := by
  induction h with
  | refl => exact ⟨.refl, h₀⟩
  | step l _ ha hn ih =>
      obtain ⟨hreach, hk⟩ := ih
      obtain ⟨ha', hk'⟩ := hstep _ _ _ hk ha hn
      exact ⟨.step l hreach ha' hn, hk'⟩

/-- The policy takes the step whatever the world; calls are left to the
replay. -/
def Policy.admits (pol : Policy M ε) : Label M ε → Prop
  | .call _ _ => True
  | .crash i => ∀ w, pol.crash w i
  | .spawn i p => pol.spawn i p
  | .env e => ∀ w, pol.env w e

theorem Policy.allows_of_admits {pol : Policy M ε}
    {ok : M.World → ℕ → Call → M.Choice → Bool}
    (hok : ∀ w i s ch, ok w i s ch = true → pol.call w i s ch)
    {c : Config M ε} {l : Label M ε} (hl : pol.admits l)
    (hlets : c.lets ok l = true) : pol.allows c l := by
  cases l with
  | call i ch =>
      simp only [Config.lets] at hlets
      simp only [Policy.allows]
      cases hp : c.session i with
      | ret r => trivial
      | call s k =>
          rw [hp] at hlets
          exact hok _ _ _ _ hlets
  | crash i => exact hl c.world
  | spawn i p => exact hl
  | env e => exact hl c.world

/-- A replayed run is a run of the system. -/
theorem reach_of_replay? {pol : Policy M ε}
    {ok : M.World → ℕ → Call → M.Choice → Bool}
    (hok : ∀ w i s ch, ok w i s ch = true → pol.call w i s ch) :
    ∀ {ls : List (Label M ε)} {c c' : Config M ε},
      (∀ l ∈ ls, pol.admits l) → c.replay? ok ls = some c' → Reach pol c c'
  | [], c, c', _, h => by
      simp only [Config.replay?, Option.some.injEq] at h
      exact h ▸ .refl
  | l :: ls, c, c', hls, h => by
      simp only [Config.replay?] at h
      split at h
      · rename_i hlets
        obtain ⟨c₁, h₁, h₂⟩ := Option.bind_eq_some_iff.mp h
        have hl := Policy.allows_of_admits hok (hls l List.mem_cons_self) hlets
        exact (Reach.step l .refl hl h₁).trans
          (reach_of_replay? hok (fun l' hl' => hls l' (.tail l hl')) h₂)
      · cases h

/-! ## The rely calculus -/

section Rely

variable (pol : Policy M ε) (Inv : M.World → Prop)

/-- One step of the world that session `i` does not take. -/
inductive OtherStep (i : ℕ) : M.World → M.World → Prop where
  | call {w w' : M.World} {j : ℕ} {c : Call} {ch : M.Choice} {x : Res c} :
      j ≠ i → pol.call w j c ch → M.exec j c ch w = some (x, w') →
      OtherStep i w w'
  | crash {w : M.World} {j : ℕ} : j ≠ i → OtherStep i w (M.crash j w)
  | env {w w' : M.World} {e : M.Event} :
      pol.env w e → M.env e w = some w' → OtherStep i w w'

/-- What may happen between two calls of session `i`. -/
def Rely (i : ℕ) : M.World → M.World → Prop :=
  ReflTransGen fun w w' => Inv w ∧ OtherStep pol i w w' ∧ Inv w'

/-- From `w`, under every interference, session `i` running `p` keeps the
invariant and returns only in states that satisfy `Q`. -/
def Wp (i : ℕ) : Prog Res ε α → (Except ε α → M.World → Prop) → M.World → Prop
  | .ret r, Q, w => ∀ w', Rely pol Inv i w w' → Inv w' → Q r w'
  | .call c k, Q, w =>
      ∀ w', Rely pol Inv i w w' → Inv w' →
        ∀ ch x w'', pol.call w' i c ch → M.exec i c ch w' = some (x, w'') →
          Inv w'' ∧ Wp i (k x) Q w''

variable {pol Inv} {i : ℕ}

theorem Wp.rely {Q : Except ε α → M.World → Prop} {w w' : M.World}
    {p : Prog Res ε α} (h : Wp pol Inv i p Q w) (hr : Rely pol Inv i w w') :
    Wp pol Inv i p Q w' := by
  cases p with
  | ret r => exact fun w'' hr' => h w'' (hr.trans hr')
  | call c k => exact fun w'' hr' => h w'' (hr.trans hr')

theorem Wp.mono {Q Q' : Except ε α → M.World → Prop}
    (hQ : ∀ r w, Inv w → Q r w → Q' r w) {p : Prog Res ε α} {w : M.World}
    (h : Wp pol Inv i p Q w) : Wp pol Inv i p Q' w := by
  induction p generalizing w with
  | ret r => exact fun w' hr hi => hQ r w' hi (h w' hr hi)
  | call c k ih =>
      intro w' hr hi ch x w'' hp he
      obtain ⟨hi', hk⟩ := h w' hr hi ch x w'' hp he
      exact ⟨hi', ih x hk⟩

theorem Wp.and {Q Q' : Except ε α → M.World → Prop} {p : Prog Res ε α}
    {w : M.World} (h : Wp pol Inv i p Q w) (h' : Wp pol Inv i p Q' w) :
    Wp pol Inv i p (fun r w => Q r w ∧ Q' r w) w := by
  induction p generalizing w with
  | ret r => exact fun w' hr hi => ⟨h w' hr hi, h' w' hr hi⟩
  | call c k ih =>
      intro w' hr hi ch x w'' hp he
      obtain ⟨hi', hk⟩ := h w' hr hi ch x w'' hp he
      exact ⟨hi', ih x hk (h' w' hr hi ch x w'' hp he).2⟩

/-- The postcondition holds not only at the return but ever after, until the
session moves again. -/
theorem Wp.stable {Q : Except ε α → M.World → Prop} {p : Prog Res ε α}
    {w : M.World} (h : Wp pol Inv i p Q w) :
    Wp pol Inv i p
      (fun r w => ∀ w', Rely pol Inv i w w' → Inv w' → Q r w') w := by
  induction p generalizing w with
  | ret r => exact fun w' hr _ w'' hr' hi => h w'' (hr.trans hr') hi
  | call c k ih =>
      intro w' hr hi ch x w'' hp he
      obtain ⟨hi', hk⟩ := h w' hr hi ch x w'' hp he
      exact ⟨hi', ih x hk⟩

theorem Wp.bind {Q : Except ε β → M.World → Prop} {p : Prog Res ε α}
    {f : α → Prog Res ε β} {w : M.World}
    (h : Wp pol Inv i p (fun r w => match r with
      | .ok a => Wp pol Inv i (f a) Q w
      | .error e => Wp pol Inv i (.ret (.error e) : Prog Res ε β) Q w) w)
    (hw : Inv w) : Wp pol Inv i (p >>= f) Q w := by
  induction p generalizing w with
  | ret r =>
      cases r with
      | ok a => exact h w .refl hw
      | error e => exact h w .refl hw
  | call c k ih =>
      intro w' hr hi ch x w'' hp he
      obtain ⟨hi', hk⟩ := h w' hr hi ch x w'' hp he
      exact ⟨hi', ih x hk hi'⟩

theorem Wp.tryCatch {Q : Except ε α → M.World → Prop} {p : Prog Res ε α}
    {handler : ε → Prog Res ε α} {w : M.World}
    (h : Wp pol Inv i p (fun r w => match r with
      | .ok a => Wp pol Inv i (.ret (.ok a) : Prog Res ε α) Q w
      | .error e => Wp pol Inv i (handler e) Q w) w)
    (hw : Inv w) : Wp pol Inv i (tryCatch p handler) Q w := by
  induction p generalizing w with
  | ret r =>
      cases r with
      | ok a => exact h w .refl hw
      | error e => exact h w .refl hw
  | call c k ih =>
      intro w' hr hi ch x w'' hp he
      obtain ⟨hi', hk⟩ := h w' hr hi ch x w'' hp he
      exact ⟨hi', ih x hk hi'⟩

/-- A fact that one foreign step preserves survives all interference. -/
theorem Rely.preserves {P : M.World → Prop}
    (hP : ∀ w w', Inv w → Inv w' → OtherStep pol i w w' → P w → P w')
    {w w' : M.World} (hr : Rely pol Inv i w w') (h : P w) : P w' := by
  induction hr with
  | refl => exact h
  | tail _ hs ih => exact hP _ _ hs.1 hs.2.2 hs.2.1 ih

/-- A relation that foreign steps respect bounds all interference. -/
theorem Rely.lift {R : M.World → M.World → Prop} (hrefl : ∀ w, R w w)
    (htrans : ∀ {u v w}, R u v → R v w → R u w)
    (hstep : ∀ {w w'}, Inv w → OtherStep pol i w w' → R w w')
    {w w' : M.World} (hr : Rely pol Inv i w w') : R w w' := by
  induction hr with
  | refl => exact hrefl w
  | tail _ hs ih => exact htrans ih (hstep hs.1 hs.2.1)

theorem Rely.of_step {w w' : M.World} (hw : Inv w) (hw' : Inv w')
    (h : OtherStep pol i w w') : Rely pol Inv i w w' :=
  .single ⟨hw, h, hw'⟩

/-- Fewer steps of the others, less interference. -/
theorem Rely.restrict {pol' : Policy M ε}
    (hcall : ∀ w j c ch, pol'.call w j c ch → pol.call w j c ch)
    (henv : ∀ w e, pol'.env w e → pol.env w e) {w w' : M.World}
    (h : Rely pol' Inv i w w') : Rely pol Inv i w w' := by
  induction h with
  | refl => exact .refl
  | tail _ hs ih =>
      refine ih.tail ⟨hs.1, ?_, hs.2.2⟩
      cases hs.2.1 with
      | call hj ha he => exact .call hj (hcall _ _ _ _ ha) he
      | crash hj => exact .crash hj
      | env ha he => exact .env (henv _ _ ha) he

theorem Wp.restrict {pol' : Policy M ε}
    (hcall : ∀ w j c ch, pol'.call w j c ch → pol.call w j c ch)
    (henv : ∀ w e, pol'.env w e → pol.env w e)
    {Q : Except ε α → M.World → Prop} {p : Prog Res ε α} {w : M.World}
    (h : Wp pol Inv i p Q w) : Wp pol' Inv i p Q w := by
  induction p generalizing w with
  | ret r => exact fun w' hr hi => h w' (hr.restrict hcall henv) hi
  | call c k ih =>
      intro w' hr hi ch x w'' hp he
      obtain ⟨hi', hk⟩ := h w' (hr.restrict hcall henv) hi ch x w''
        (hcall _ _ _ _ hp) he
      exact ⟨hi', ih x hk⟩

/-- A property that no step loses may stand beside the invariant. -/
theorem Wp.beside {E : M.World → Prop}
    (hE : ∀ {c ch x w w'}, pol.call w i c ch → M.exec i c ch w = some (x, w') →
      E w → E w') {Q : Except ε α → M.World → Prop} {p : Prog Res ε α} {w : M.World}
    (h : Wp pol Inv i p Q w) : Wp pol (fun w => Inv w ∧ E w) i p Q w := by
  have hrely : ∀ {w w'}, Rely pol (fun w => Inv w ∧ E w) i w w' →
      Rely pol Inv i w w' := by
    intro w w' hr
    induction hr with
    | refl => exact .refl
    | tail _ hs ih => exact ih.tail ⟨hs.1.1, hs.2.1, hs.2.2.1⟩
  induction p generalizing w with
  | ret r => exact fun w' hr hi => h w' (hrely hr) hi.1
  | call c k ih =>
      intro w' hr hi ch x w'' hp he
      obtain ⟨hi', hk⟩ := h w' (hrely hr) hi.1 ch x w'' hp he
      exact ⟨⟨hi', hE hp he hi.2⟩, ih x hk⟩

end Rely

/-! ## Soundness over every interleaving -/

/-- What has to be shown about a policy's programs, crashes and environment
steps for the invariant to hold in every reachable world. `Idle i` is the state
between two programs of session `i`. -/
structure Sound (pol : Policy M ε) (Inv : M.World → Prop)
    (Idle : ℕ → M.World → Prop) : Prop where
  idle_stable : ∀ {i w w'}, Inv w → Inv w' → OtherStep pol i w w' →
    Idle i w → Idle i w'
  crash : ∀ {i w}, Inv w → Inv (M.crash i w) ∧ Idle i (M.crash i w)
  env : ∀ {e w w'}, Inv w → pol.env w e → M.env e w = some w' → Inv w'
  spawn : ∀ {i p w}, pol.spawn i p → Inv w → Idle i w →
    Wp pol Inv i p (fun _ => Idle i) w

section Soundness

variable {pol : Policy M ε} {Inv : M.World → Prop} {Idle : ℕ → M.World → Prop}

theorem Sound.beside {E : M.World → Prop} (hs : Sound pol Inv Idle)
    (hE : ∀ {i c ch x w w'}, pol.call w i c ch →
      M.exec i c ch w = some (x, w') → E w → E w')
    (hcrash : ∀ {i w}, E w → E (M.crash i w))
    (henv : ∀ {e w w'}, M.env e w = some w' → E w → E w') :
    Sound pol (fun w => Inv w ∧ E w) Idle where
  idle_stable := fun hw hw' hstep => hs.idle_stable hw.1 hw'.1 hstep
  crash := fun hw => ⟨⟨(hs.crash hw.1).1, hcrash hw.2⟩, (hs.crash hw.1).2⟩
  env := fun hw ha he => ⟨hs.env hw.1 ha he, henv he hw.2⟩
  spawn := fun hp hw hidle => (hs.spawn hp hw.1 hidle).beside hE

/-- The shape of the induction: every session is where its own `Wp` says. -/
def Good (pol : Policy M ε) (Inv : M.World → Prop)
    (Idle : ℕ → M.World → Prop) (c : Config M ε) : Prop :=
  Inv c.world ∧ ∀ i, Wp pol Inv i (c.session i) (fun _ => Idle i) c.world

/-- One step keeps the invariant and the `Wp` of the session that takes it; for
all others it is interference. -/
theorem Sound.next (hs : Sound pol Inv Idle) {c c' : Config M ε}
    {l : Label M ε} (hw : Inv c.world)
    (hl : ∀ i, l.actor = some i →
      Wp pol Inv i (c.session i) (fun _ => Idle i) c.world)
    (ha : pol.allows c l) (hn : c.next? l = some c') :
    Inv c'.world ∧
      (∀ i, l.actor = some i →
        Wp pol Inv i (c'.session i) (fun _ => Idle i) c'.world) ∧
      ∀ j, l.actor ≠ some j → c'.session j = c.session j ∧
        Rely pol Inv j c.world c'.world := by
  have hother : ∀ {i j : ℕ} {l : Label M ε}, l.actor = some i →
      l.actor ≠ some j → j ≠ i := by
    rintro i j l hi hj rfl
    exact hj hi
  cases l with
  | call i ch =>
      have hi := hl i rfl
      simp only [Config.next?] at hn
      simp only [Policy.allows] at ha
      cases hp : c.session i with
      | ret r => simp [hp] at hn
      | call s k =>
          rw [hp] at hn ha hi
          obtain ⟨⟨x, w'⟩, he, rfl⟩ := Option.map_eq_some_iff.mp hn
          obtain ⟨hw', hk⟩ := hi c.world .refl hw ch x w' ha he
          -- the session that moved, then the others
          refine ⟨hw', ?_, fun j hj => ?_⟩
          · rintro _ ⟨⟩
            simpa using hk
          · have hne := hother rfl hj
            exact ⟨Function.update_of_ne hne _ _,
              .of_step hw hw' (.call (Ne.symm hne) ha he)⟩
  | crash i =>
      simp only [Config.next?, Option.some.injEq] at hn
      subst hn
      obtain ⟨hw', hidle⟩ := hs.crash (i := i) hw
      refine ⟨hw', ?_, fun j hj => ?_⟩
      · rintro _ ⟨⟩
        dsimp only
        rw [Function.update_self]
        intro w'' hr _
        exact hr.preserves (fun _ _ h h' => hs.idle_stable h h') hidle
      · have hne := hother rfl hj
        exact ⟨Function.update_of_ne hne _ _,
          .of_step hw hw' (.crash (Ne.symm hne))⟩
  | spawn i p =>
      have hi := hl i rfl
      simp only [Config.next?] at hn
      cases hp : c.session i with
      | call s k => simp [hp] at hn
      | ret r =>
          rw [hp] at hn hi
          simp only [Option.some.injEq] at hn
          subst hn
          refine ⟨hw, ?_, fun j hj =>
            ⟨Function.update_of_ne (hother rfl hj) _ _, .refl⟩⟩
          rintro _ ⟨⟩
          dsimp only
          rw [Function.update_self]
          exact hs.spawn ha hw (hi c.world .refl hw)
  | env e =>
      obtain ⟨w', he, rfl⟩ := Option.map_eq_some_iff.mp hn
      have hw' := hs.env hw ha he
      exact ⟨hw', fun _ hi => (nomatch hi), fun j _ =>
        ⟨rfl, .of_step hw hw' (.env ha he)⟩⟩

theorem Good.next (hs : Sound pol Inv Idle) {c c' : Config M ε}
    {l : Label M ε} (hg : Good pol Inv Idle c) (ha : pol.allows c l)
    (hn : c.next? l = some c') : Good pol Inv Idle c' := by
  obtain ⟨hw, hacts, hrest⟩ := hs.next hg.1 (fun i _ => hg.2 i) ha hn
  refine ⟨hw, fun j => ?_⟩
  by_cases hj : l.actor = some j
  · exact hacts j hj
  · obtain ⟨hsame, hrely⟩ := hrest j hj
    rw [hsame]
    exact (hg.2 j).rely hrely

/-- **Soundness**: in every interleaving of sound programs the invariant holds,
and every session is still within its `Wp`. -/
theorem reach_wp (hs : Sound pol Inv Idle) {c₀ c : Config M ε}
    (h₀ : Good pol Inv Idle c₀) (h : Reach pol c₀ c) :
    Good pol Inv Idle c := by
  induction h with
  | refl => exact h₀
  | step l _ ha hn ih => exact ih.next hs ha hn

theorem good_idle (hs : Sound pol Inv Idle) {w : M.World} (hw : Inv w)
    (hidle : ∀ i, Idle i w) : Good pol Inv Idle (Config.idle w) :=
  ⟨hw, fun i _ hr _ =>
    hr.preserves (fun _ _ h h' => hs.idle_stable h h') (hidle i)⟩

end Soundness

end Framework
