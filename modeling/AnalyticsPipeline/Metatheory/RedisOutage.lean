import AnalyticsPipeline.Framework.Outage
import AnalyticsPipeline.Metatheory.LeaderboardReads
import AnalyticsPipeline.Metatheory.SolitaryIngestBatch

/-!
# Redis unavailable

Every Redis call raises before a command is sent, and everything else is well.
The ingestion requests are then the ones whose counter raises (`Records`), and
the queries raise at their first look into the cache.
-/

namespace AnalyticsPipeline

open Framework

/-! ## The outage -/

section Cut

variable {α β : Type}

end Cut

/-! ## Requests during an outage -/

section Requests

variable {i : ℕ} {h : History} {r : Redis} {d : Dict UUID ℕ} {w : World}
  {e : EventIngest} {payload : BatchEventIngest} {α : Type}

end Requests

end AnalyticsPipeline
