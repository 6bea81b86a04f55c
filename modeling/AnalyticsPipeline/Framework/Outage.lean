import AnalyticsPipeline.Framework.Solitary

/-!
# Outages

A service that is down answers without doing anything. A program run beside it
is the program in which its calls have been replaced by the answers (`cut`), run
beside what is left.
-/

namespace Framework

variable {Call : Type} {Res : Call → Type} {ε α β : Type}
  (answer : (c : Call) → Option (Res c))

namespace Prog

/-- The calls that have an answer are not made. -/
def cut : Prog Res ε α → Prog Res ε α
  | .ret r => .ret r
  | .call c k =>
      match answer c with
      | some x => (k x).cut
      | none => .call c fun x => (k x).cut

variable {answer}

theorem cut_call_some {c : Call} {x : Res c} (h : answer c = some x)
    (k : Res c → Prog Res ε α) : (Prog.call c k).cut answer = (k x).cut answer := by
  rw [cut, h]

theorem cut_call_none {c : Call} (h : answer c = none)
    (k : Res c → Prog Res ε α) :
    (Prog.call c k).cut answer = .call c fun x => (k x).cut answer := by
  rw [cut, h]

/-- Calls that are not made cost nothing. -/
theorem Within.cut {cost : Call → ℕ} {n : ℕ} {p : Prog Res ε α}
    (h : Prog.Within cost n p) : Prog.Within cost n (p.cut answer) := by
  induction h with
  | ret => exact .ret
  | @call n c k _ ih =>
      cases hc : answer c with
      | some x =>
          rw [cut_call_some hc]
          exact (ih x).weaken _
      | none =>
          rw [cut_call_none hc]
          exact .call ih

end Prog

/-! ## Runs beside a service that is down -/

section Runs

variable {M : Machine Res} {ok out : Call → M.Choice → Prop} {i : ℕ}

variable {answer}

end Runs

end Framework
