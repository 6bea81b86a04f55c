import AnalyticsPipeline.Guarantees.Durability
import AnalyticsPipeline.Model.Migrations

/-!
# Deduplication across the migration

After the upgrade the table of idempotency keys is empty while `raw_events` has
rows, so a stored key is no duplicate of anything. Deduplication survives only
where no stored key can be submitted.
-/

namespace AnalyticsPipeline

open Framework

/-! ## What the migration should preserve -/

/-- A service that has just been started on the upgraded tables. -/
structure Upgraded (old : InitialDb) (w : World) : Prop where
  db : w.db = Migrations.upgrade old
  idle : ∀ j, w.txs.get? j = none
  issued : ∀ row ∈ old.raw_events, w.issued.get? row.id ≠ none

section Upgraded

variable {old : InitialDb} {w : World} {i : ℕ} {fails : Bool}

theorem Upgraded.serving (h : Upgraded old w) : Serving w where
  idle := h.idle
  keyed := by
    rw [Db.Keyed, h.db]
    exact old.pk_raw_events
  issued := by
    rw [h.db]
    exact h.issued

/-- No key is claimed. -/
theorem Upgraded.claimedKeys (h : Upgraded old w) : w.db.claimedKeys = [] := by
  rw [Db.claimedKeys, h.db]
  rfl

end Upgraded

namespace Sample

/-- Revision 0001 with one event, stored under the key. -/
def oneEvent (key : String) (htext : textColumn key = .ok key) : InitialDb where
  merchants := merchants
  raw_events := [⟨⟨1, .paymentInitiated, 7, 250, "EUR", key, instant 3, none,
    none⟩, instant 3⟩]
  rollup := fun _ => ∅
  consumer_offsets := ∅
  leaderboard_snapshots := ∅
  columns := by
    intro row hrow
    obtain rfl := List.mem_singleton.mp hrow
    simp only [RawValues.supplied, RawValues.stored, htext]
    rfl
  pk_raw_events := List.nodup_singleton _
  uq_raw_events_idempotency_key := List.nodup_singleton _

def upgraded (old : InitialDb) : World :=
  { World.start [] with
    db := Migrations.upgrade old
    issued := (∅ : Dict UUID ℕ).set 1 0 }

theorem upgraded_oneEvent (key : String) (htext : textColumn key = .ok key) :
    Upgraded (oneEvent key htext) (upgraded (oneEvent key htext)) where
  db := rfl
  idle := fun _ => rfl
  issued := by
    intro row hrow
    obtain rfl := List.mem_singleton.mp hrow
    simp [upgraded]

end Sample

end AnalyticsPipeline
