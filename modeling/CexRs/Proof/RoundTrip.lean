import CexRs.Proof.LockCoverage
import CexRs.Proof.Recovery
import CexRs.SnapshotJson

/-!
# Snapshots come back

A state that is saved as JSON is loaded as it was, however the database reorders the members of its
objects.
-/

namespace CexRs

open FixedWidth OrderedMap JsonFormat

def Config.overJson (cfg : Config) : Config := { cfg with codec := jsonCodec }

/-- A row of the table comes back with its id and, up to the order of members, its value. -/
def RowShuffles (row row' : StreamId × Json) : Prop := row'.1 = row.1 ∧ Shuffles row.2 row'.2

/-- What a loaded book has in common with the saved one: levels in increasing order of their prices as
numbers, and the same queue at every price. -/
structure SameLevels (ob ob' : Orderbook) : Prop where
  increasing : ∀ side, (ob'.levels side).toList.Pairwise fun a b => a.1 < b.1
  queues : ∀ side price, ob'.queueAt side price = ob.queueAt side price

theorem sameLevels_refl (ob : Orderbook) : SameLevels ob ob := by
  refine ⟨fun side => ?_, fun _ _ => rfl⟩
  apply (toList_pairwise (ob.levels side)).imp
  intro a b hlt
  exact Nat.compare_eq_lt.mp hlt

/-- **Snapshot round trip.** Whatever is in the tables, if a state is saved and the table then hands its
rows back with the members of their objects in any order, at any depth, the state that is loaded is the
one that was saved, with its levels in numeric order and its queues as they were. -/
theorem snapshot_round_trip (cfg : Config) (sys sys' : System Json) (answers : LiveAnswers)
    (hinserts : answers.inserts = true) (lastId : StreamId) (s : EngineState)
    (hstored : List.Forall₂ RowShuffles (saveSnapshot cfg.overJson sys answers lastId s) sys'.snapshots) :
    ∃ s', loadLatestSnapshot cfg.overJson sys' true = some (lastId, s') ∧ s' = s ∧
      ∀ asset, SameLevels (s.book asset) (s'.book asset) := by
  have hfirst : ∃ rows, saveSnapshot cfg.overJson sys answers lastId s
      = (lastId, stateJson.encode s) :: rows := by
    unfold saveSnapshot
    rw [if_pos hinserts]
    dsimp only
    split
    · exact ⟨_, rfl⟩
    · exact ⟨_, rfl⟩
  obtain ⟨rows, hrows⟩ := hfirst
  rw [hrows] at hstored
  cases hsnapshots : sys'.snapshots with
  | nil =>
      rw [hsnapshots] at hstored
      cases hstored
  | cons row rest =>
      rw [hsnapshots] at hstored
      cases hstored with
      | cons hrow _ =>
          obtain ⟨hid, hvalue⟩ := hrow
          have hloaded := stateJson.decode_shuffled hvalue
          refine ⟨s, ?_, rfl, fun asset => sameLevels_refl _⟩
          change (sys'.snapshots.head?.bind fun (id, value) =>
            (stateJson.decode value).map fun s => (id, s)) = some (lastId, s)
          rw [hsnapshots]
          simp [hloaded, hid]

/-- Bids at 100 and at 9, whose keys in decimal sort the other way round. -/
def twoPrices : List Msg :=
  [.onramp ⟨1, 5000, "q", "a"⟩, .order ⟨1, "SOL", "bid", .limit, 100, 10, none, .gtc, "q", "b"⟩,
    .order ⟨1, "SOL", "bid", .limit, 9, 10, none, .gtc, "q", "c"⟩]

theorem snapshot_round_trip_twoPrices :
    ∃ s outputs s', run (u64 false) .noSlippage (.new ⟨10, 20⟩) twoPrices = .ok (s, outputs) ∧
      (s.book .sol).bids.toList.map Prod.fst = [9, 100] ∧
      loadLatestSnapshot onrampConfig.overJson
        ⟨[], [], [(StreamId.zero, reversed (stateJson.encode s))], none, []⟩ true = some (.zero, s') ∧
      s' = s := by
  obtain ⟨⟨s, outputs⟩, hrun, htest⟩ := exists_of_returns
    (run (u64 false) .noSlippage (.new ⟨10, 20⟩) twoPrices)
    (fun r => decide ((r.1.book .sol).bids.toList.map Prod.fst = [9, 100])) (by decide +kernel)
  obtain ⟨s', hloaded, hsame, _⟩ := snapshot_round_trip onrampConfig (.init Json)
    ⟨[], [], [(StreamId.zero, reversed (stateJson.encode s))], none, []⟩
    ⟨true, true, true, true⟩ rfl .zero s
    (.cons ⟨rfl, shuffles_reversed _⟩ .nil)
  exact ⟨s, outputs, s', hrun, of_decide_eq_true htest, hloaded, hsame⟩

end CexRs
