import CexRs.Types

/-!
# The persisted ledger

The tables of the gateway's database and the statements by which the execution worker fills them,
`ledger/worker.rs`. A `BIGINT` column is an integer in the range of `i64`; timestamps and row numbers,
which nothing reads back, are left out.
-/

namespace CexRs

open FixedWidth

/-- `as i64` on a `u64`: two's complement. -/
def asI64 (n : Nat) : Int := if 2 ^ 63 ≤ n ∧ n < 2 ^ 64 then n - 2 ^ 64 else n

/-- Negation of an `i64`; only the least one has no negative. -/
def negI64 (A : Arith) (x : Int) : Except Fault Int :=
  if x = -2 ^ 63 then (if A.checks then .error .overflow else .ok x) else .ok (-x)

/-! ### Tables -/

structure OrderRow where
  id : Int
  userId : Int
  market : String
  side : String
  price : Int
  originalQty : Int
  remainingQty : Int
  status : String
  deriving DecidableEq, Repr

structure TradeRow where
  makerOrderId : Int
  takerOrderId : Int
  buyerId : Int
  sellerId : Int
  market : String
  price : Int
  qty : Int
  quoteAmount : Int
  deriving DecidableEq, Repr

inductive BalanceType where
  | available
  | locked
  | clearing
  deriving DecidableEq, Repr

structure LedgerEntry where
  userId : Int
  currency : String
  amount : Int
  balanceType : BalanceType
  operationType : String
  referenceId : String
  deriving DecidableEq, Repr

structure Tables where
  orders : Std.ExtTreeMap Int OrderRow
  trades : List TradeRow
  ledgerEntries : List LedgerEntry

def Tables.empty : Tables := ⟨∅, [], []⟩

/-! ### Statements -/

inductive Statement where
  -- `INSERT INTO orders … ON CONFLICT (id) DO UPDATE SET remaining_qty, status`
  | upsertOrder (row : OrderRow)
  | insertTrade (row : TradeRow)
  -- `UPDATE orders SET remaining_qty, status WHERE id`
  | updateOrder (id : Int) (remainingQty : Int) (status : String)
  | insertEntries (entries : List LedgerEntry)
  deriving DecidableEq, Repr

def Statement.execute (db : Tables) : Statement → Tables
  | .upsertOrder row =>
      let row := match db.orders[row.id]? with
        | none => row
        | some old => { old with remainingQty := row.remainingQty, status := row.status }
      { db with orders := db.orders.insert row.id row }
  | .insertTrade row => { db with trades := db.trades ++ [row] }
  | .updateOrder id remainingQty status =>
      match db.orders[id]? with
      | none => db
      | some old => { db with orders := db.orders.insert id { old with remainingQty, status } }
  | .insertEntries entries => { db with ledgerEntries := db.ledgerEntries ++ entries }

/-- `market.split('_').next()`, which is never absent. -/
def baseCurrency (market : String) : String :=
  String.ofList (market.toList.takeWhile (· ≠ '_'))

/-- The statements for one event, in the order in which they are issued. The reference of a funding
ends in a random UUID. -/
def statements (A : Arith) (uuid : String) : ExecutionEvent → Except Fault (List Statement)
  | .orderCreated orderId userId market side price originalQty remainingQty status =>
      return [.upsertOrder
        { id := asI64 orderId, userId := asI64 userId, market, side, price := asI64 price,
          originalQty := asI64 originalQty, remainingQty := asI64 remainingQty, status }]
  | .tradeExecuted makerOrderId takerOrderId buyerId sellerId market price qty quoteAmount
      makerRemainingQty _ buyerFee sellerFee => do
      let makerStatus := if makerRemainingQty = 0 then "filled" else "partially_filled"
      let tradeRef := toString makerOrderId ++ "-" ++ toString takerOrderId
      let base := baseCurrency market
      let buyerUsdDeduction := asI64 (← A.add quoteAmount buyerFee)
      let buyerUsd ← negI64 A buyerUsdDeduction
      -- `quote_amount.saturating_sub(seller_fee)`
      let sellerUsdCredit := asI64 (quoteAmount - sellerFee)
      let sellerBase ← negI64 A (asI64 qty)
      let totalFee := asI64 (← A.add buyerFee sellerFee)
      let feeEntries :=
        if 0 < totalFee then
          [.insertEntries [⟨0, "USD", totalFee, .available, "fee_collection", tradeRef⟩]]
        else []
      return [.insertTrade
          { makerOrderId := asI64 makerOrderId, takerOrderId := asI64 takerOrderId,
            buyerId := asI64 buyerId, sellerId := asI64 sellerId, market, price := asI64 price,
            qty := asI64 qty, quoteAmount := asI64 quoteAmount },
        .updateOrder (asI64 makerOrderId) (asI64 makerRemainingQty) makerStatus,
        .insertEntries
          [⟨asI64 buyerId, "USD", buyerUsd, .locked, "trade_fill", tradeRef⟩,
            ⟨asI64 buyerId, base, asI64 qty, .available, "trade_fill", tradeRef⟩],
        .insertEntries
          [⟨asI64 sellerId, "USD", sellerUsdCredit, .available, "trade_fill", tradeRef⟩,
            ⟨asI64 sellerId, base, sellerBase, .locked, "trade_fill", tradeRef⟩]] ++ feeEntries
  | .orderCancelled orderId _ remainingQty =>
      return [.updateOrder (asI64 orderId) (asI64 remainingQty) "cancelled"]
  | .fundingExecuted userId currency amount operationType => do
      let fundingRef := operationType ++ "_" ++ uuid
      let clearing ← negI64 A (asI64 amount)
      return [.insertEntries
        [⟨asI64 userId, currency, asI64 amount, .available, operationType, fundingRef⟩,
          ⟨0, currency, clearing, .clearing, operationType, fundingRef⟩]]
  | .depthUpdated _ _ _ => return []

/-- Apply the events of a list in order, each of its statements once; the UUIDs are drawn by position. -/
def applyEvents (A : Arith) (db : Tables) : List (String × ExecutionEvent) → Except Fault Tables
  | [] => return db
  | (uuid, event) :: rest => do
      let sts ← statements A uuid event
      applyEvents A (sts.foldl Statement.execute db) rest

end CexRs
