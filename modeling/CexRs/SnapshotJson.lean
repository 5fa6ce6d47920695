import CexRs.Lib.Json
import CexRs.Snapshot

/-!
# The JSON of a state

What `serde` derives for `EngineState` and the types in it (`state.rs`, `orderbook/book.rs`,
`orderbook/types.rs`, `balance.rs`, `execution.rs`), over JSON values: a struct is an object with one member
a field, a map an object with one member an entry, whose key is written in decimal, a `VecDeque` an array,
and a unit variant its name. The numbers of a state are words, so their range is not checked again, and
the positional form of a struct, as an array, is left out.
-/

namespace CexRs

open JsonFormat

def balanceJson : Codec Balance where
  encode b := .obj [("available", number.encode b.available), ("locked", number.encode b.locked)]
  decode
    | .obj ms => do
        let available ← required number "available" ms
        let locked ← required number "locked" ms
        return { available, locked }
    | _ => none
  decode_shuffled := by
    intro b v h
    obtain ⟨ms, rfl, hread⟩ := obj_shuffled h (by simp)
    simp [hread number (show ("available", number.encode b.available) ∈ _ by simp),
      hread number (show ("locked", number.encode b.locked) ∈ _ by simp)]

def feeScheduleJson : Codec FeeSchedule where
  encode fees := .obj [("maker_fee_bps", number.encode fees.makerFeeBps),
    ("taker_fee_bps", number.encode fees.takerFeeBps)]
  decode
    | .obj ms => do
        let makerFeeBps ← required number "maker_fee_bps" ms
        let takerFeeBps ← required number "taker_fee_bps" ms
        return { makerFeeBps, takerFeeBps }
    | _ => none
  decode_shuffled := by
    intro fees v h
    obtain ⟨ms, rfl, hread⟩ := obj_shuffled h (by simp)
    simp [hread number (show ("maker_fee_bps", number.encode fees.makerFeeBps) ∈ _ by simp),
      hread number (show ("taker_fee_bps", number.encode fees.takerFeeBps) ∈ _ by simp)]

def sideJson : Codec Side where
  encode
    | .bid => .str "Bid"
    | .ask => .str "Ask"
  decode
    | .str "Bid" => some .bid
    | .str "Ask" => some .ask
    | _ => none
  decode_shuffled := by
    intro side v h
    cases side <;> cases h <;> rfl

def orderJson : Codec Order where
  encode o := .obj [("order_id", number.encode o.orderId), ("user_id", number.encode o.userId),
    ("side", sideJson.encode o.side), ("price", number.encode o.price),
    ("remaining_qty", number.encode o.remainingQty)]
  decode
    | .obj ms => do
        let orderId ← required number "order_id" ms
        let userId ← required number "user_id" ms
        let side ← required sideJson "side" ms
        let price ← required number "price" ms
        let remainingQty ← required number "remaining_qty" ms
        return { orderId, userId, side, price, remainingQty }
    | _ => none
  decode_shuffled := by
    intro o v h
    obtain ⟨ms, rfl, hread⟩ := obj_shuffled h (by simp)
    simp [hread number (show ("order_id", number.encode o.orderId) ∈ _ by simp),
      hread number (show ("user_id", number.encode o.userId) ∈ _ by simp),
      hread sideJson (show ("side", sideJson.encode o.side) ∈ _ by simp),
      hread number (show ("price", number.encode o.price) ∈ _ by simp),
      hread number (show ("remaining_qty", number.encode o.remainingQty) ∈ _ by simp)]

def priceLevelJson : Codec PriceLevel where
  encode level := .obj [("orders", (array number).encode level.orders)]
  decode
    | .obj ms => do
        let orders ← required (array number) "orders" ms
        return { orders }
    | _ => none
  decode_shuffled := by
    intro level v h
    obtain ⟨ms, rfl, hread⟩ := obj_shuffled h (by simp)
    simp [hread (array number) (show ("orders", (array number).encode level.orders) ∈ _ by simp)]

def levelsJson : Codec Levels := mapping decimalKey priceLevelJson

def ordersJson : Codec (Std.ExtTreeMap Nat Order) := mapping decimalKey orderJson

def orderbookJson : Codec Orderbook where
  encode ob := .obj [("symbol", string.encode ob.symbol),
    ("next_order_id", number.encode ob.nextOrderId), ("bids", levelsJson.encode ob.bids),
    ("asks", levelsJson.encode ob.asks), ("orders", ordersJson.encode ob.orders)]
  decode
    | .obj ms => do
        let symbol ← required string "symbol" ms
        let nextOrderId ← required number "next_order_id" ms
        let bids ← required levelsJson "bids" ms
        let asks ← required levelsJson "asks" ms
        let orders ← required ordersJson "orders" ms
        return { symbol, nextOrderId, bids, asks, orders }
    | _ => none
  decode_shuffled := by
    intro ob v h
    obtain ⟨ms, rfl, hread⟩ := obj_shuffled h (by simp)
    simp [hread string (show ("symbol", string.encode ob.symbol) ∈ _ by simp),
      hread number (show ("next_order_id", number.encode ob.nextOrderId) ∈ _ by simp),
      hread levelsJson (show ("bids", levelsJson.encode ob.bids) ∈ _ by simp),
      hread levelsJson (show ("asks", levelsJson.encode ob.asks) ∈ _ by simp),
      hread ordersJson (show ("orders", ordersJson.encode ob.orders) ∈ _ by simp)]

def usdBalanceJson : Codec (Std.ExtTreeMap Nat Balance) := mapping decimalKey balanceJson

def stockBalanceJson : Codec (Std.ExtTreeMap Nat (Std.ExtTreeMap String Balance)) :=
  mapping decimalKey (mapping stringKey balanceJson)

/-- The members of a stored state; those with a `serde` default may be missing. -/
def StateJson.ofMembers (ms : Members) : Option StateJson := do
  let usdBalance ← required usdBalanceJson "usd_balance" ms
  let stockBalance ← required stockBalanceJson "stock_balance" ms
  let solOrderbook ← required orderbookJson "sol_orderbook" ms
  let btcOrderbook ← optional orderbookJson "btc_orderbook" ms
  let ethOrderbook ← optional orderbookJson "eth_orderbook" ms
  let nextOrderId ← optional number "next_order_id" ms
  let feeSchedule ← optional feeScheduleJson "fee_schedule" ms
  return { usdBalance, stockBalance, solOrderbook, btcOrderbook, ethOrderbook, nextOrderId, feeSchedule }

def stateJson : Codec EngineState where
  encode s := .obj [("usd_balance", usdBalanceJson.encode s.usdBalance),
    ("stock_balance", stockBalanceJson.encode s.stockBalance),
    ("sol_orderbook", orderbookJson.encode s.solOrderbook),
    ("btc_orderbook", orderbookJson.encode s.btcOrderbook),
    ("eth_orderbook", orderbookJson.encode s.ethOrderbook),
    ("next_order_id", number.encode s.nextOrderId),
    ("fee_schedule", feeScheduleJson.encode s.feeSchedule)]
  decode
    | .obj ms => (StateJson.ofMembers ms).map EngineState.deserialize
    | _ => none
  decode_shuffled := by
    intro s v h
    obtain ⟨ms, rfl, hread⟩ := obj_shuffled h (by simp)
    have hmembers : StateJson.ofMembers ms = some s.serialize := by
      simp [StateJson.ofMembers, EngineState.serialize,
        hread usdBalanceJson (show ("usd_balance", usdBalanceJson.encode s.usdBalance) ∈ _ by simp),
        hread stockBalanceJson (show ("stock_balance", stockBalanceJson.encode s.stockBalance) ∈ _ by simp),
        hread orderbookJson (show ("sol_orderbook", orderbookJson.encode s.solOrderbook) ∈ _ by simp),
        hread orderbookJson (show ("btc_orderbook", orderbookJson.encode s.btcOrderbook) ∈ _ by simp),
        hread orderbookJson (show ("eth_orderbook", orderbookJson.encode s.ethOrderbook) ∈ _ by simp),
        hread number (show ("next_order_id", number.encode s.nextOrderId) ∈ _ by simp),
        hread feeScheduleJson (show ("fee_schedule", feeScheduleJson.encode s.feeSchedule) ∈ _ by simp)]
    dsimp only
    rw [hmembers, Option.map_some, EngineState.deserialize_serialize]

/-- `save_snapshot` and `load_latest_snapshot` on JSON values. -/
def jsonCodec : SnapshotCodec where
  Json := Json
  toValue := stateJson.encode
  fromValue := stateJson.decode

end CexRs
