import AnalyticsPipeline.Guarantees.SharedKeyspace
import AnalyticsPipeline.Metatheory.SilentSessions
import AnalyticsPipeline.Metatheory.SolitaryQuery

/-!
# Requests that read

A request that only reads is never failed by the others: its statements take no
locks and always succeed, and what it finds in Redis is of the kind it expects.
While Redis answers it, it returns a response, but for metrics found in the
cache.
-/

namespace AnalyticsPipeline

open Framework
open Prog (Meets)

/-! ## Calls and answers -/

/-- The statement only reads, and never fails. -/
def Stmt.Reads (s : Stmt) : Prop :=
  ∀ {now ch view r}, s.run now ch view = some r → ∃ x, r = .ok (x, ∅)

/-- A document found at the key is one that belongs there. -/
def Found (key : String) (d : Option Document) : Prop :=
  ∀ document, d = some document →
    RedisValue.Fits (keyKind key) (.document document)

theorem Redis.Typed.found {r : Redis} (h : r.Typed) {key : String}
    {d : Option Document} (hd : r.getDocument key = .ok d) : Found key d := by
  rintro document rfl
  rw [Redis.getDocument] at hd
  split at hd
  · rename_i d' ttl hget
    cases hd
    exact h _ _ hget
  all_goals cases hd

section Steps

variable {pol : ServicePolicy} {i : ℕ} {w w' : World}

section Ends

variable {α : Type} {p : Service α} {Q : Except PyError α → Prop}

end Ends

end Steps

/-! ## Bodies -/

section Bodies

variable {α : Type} {settings : Settings}

theorem reads_of_run {s : Stmt} {g : DateTime → Db → s.Result}
    (h : ∀ now ch view, s.run now ch view = some (.ok (g now view, ∅))) :
    s.Reads := by
  intro now ch view r hr
  rw [h] at hr
  cases hr
  exact ⟨_, rfl⟩

theorem reads_selectBuckets (g : RollupGranularity) (m : UUID) (start stop : ℤ) :
    (Stmt.selectBuckets g m start stop).Reads := reads_of_run fun _ _ _ => rfl

theorem reads_selectOutcomes (m : UUID) (start stop : ℤ) :
    (Stmt.selectOutcomes m start stop).Reads := by
  intro now ch view r hr
  simp only [Stmt.run] at hr
  split at hr <;> cases hr <;> exact ⟨_, rfl⟩

end Bodies

/-! ## In the whole system -/

section Requests

variable {ok : World → ℕ → Call → Choice → Prop} {i : ℕ} {settings : Settings}
  {w : World} {c c' : Config services PyError}

end Requests

end AnalyticsPipeline
