import CexRs.Engine

/-!
# Stored states

The serialized form of `EngineState` in `engine_snapshots` (`state.rs`, `snapshot.rs`): a JSON object with
one member a field, of which those with a `serde` default may be missing. How maps and books look inside it
is left open.
-/

namespace CexRs

/-- A JSON object that deserializes as an `EngineState`. -/
structure StateJson where
  usdBalance : Std.ExtTreeMap Nat Balance
  stockBalance : Std.ExtTreeMap Nat (Std.ExtTreeMap String Balance)
  solOrderbook : Orderbook
  btcOrderbook : Option Orderbook
  ethOrderbook : Option Orderbook
  nextOrderId : Option Nat
  feeSchedule : Option FeeSchedule

def defaultBtcOrderbook : Orderbook := Orderbook.new "BTC-USDT"

def defaultEthOrderbook : Orderbook := Orderbook.new "ETH-USDT"

def defaultNextOrderId : Nat := 1

/-- The derived `Default`. -/
def FeeSchedule.default : FeeSchedule := ⟨0, 0⟩

namespace EngineState

def serialize (s : EngineState) : StateJson where
  usdBalance := s.usdBalance
  stockBalance := s.stockBalance
  solOrderbook := s.solOrderbook
  btcOrderbook := some s.btcOrderbook
  ethOrderbook := some s.ethOrderbook
  nextOrderId := some s.nextOrderId
  feeSchedule := some s.feeSchedule

def deserialize (value : StateJson) : EngineState where
  usdBalance := value.usdBalance
  stockBalance := value.stockBalance
  solOrderbook := value.solOrderbook
  btcOrderbook := value.btcOrderbook.getD defaultBtcOrderbook
  ethOrderbook := value.ethOrderbook.getD defaultEthOrderbook
  nextOrderId := value.nextOrderId.getD defaultNextOrderId
  feeSchedule := value.feeSchedule.getD .default

theorem deserialize_serialize (s : EngineState) : deserialize s.serialize = s := rfl

end EngineState

def stateCodec : SnapshotCodec where
  Json := StateJson
  toValue := EngineState.serialize
  fromValue := fun value => some (EngineState.deserialize value)

end CexRs
