import CexRs.Handlers
import CexRs.Ledger

/-!
# Order lookup

`get_order` of `routes/orders.rs`: the database is asked first, and the engine if it has no row. The
times of a record are left out, and so are queries and calls that fail. The trades of an order come in
the order in which they were inserted.
-/

namespace CexRs

/-- A record has the columns of its row. -/
abbrev OrderRecord := OrderRow

inductive OrderResponse where
  | found (order : OrderRecord) (trades : List TradeRow)
  -- 404, "Order not found"
  | notFound
  deriving DecidableEq, Repr

/-- The reply to a query, from what the engine publishes for it. -/
def EngineState.sendAndWait (s : EngineState) (msg : OrderStatusQueryMsg) : Option Reply :=
  (handleGetOrderStatus s msg).findSome? fun
    | .reply _ payload => some payload
    | .execution _ => none

section Route

variable (db : Tables) (sendAndWait : OrderStatusQueryMsg → Option Reply) (queueId identifier : String)
  (auth orderId : Nat)

def getOrder : OrderResponse :=
  match db.orders[asI64 orderId]? with
  | some order =>
      if order.userId ≠ asI64 auth then .notFound
      else
        .found order (db.trades.filter fun trade =>
          trade.makerOrderId = asI64 orderId ∨ trade.takerOrderId = asI64 orderId)
  | none =>
      match sendAndWait { userId := auth, orderId, queueId, identifier } with
      | some (.orderStatus _ (some o) status _) =>
          .found
            { id := asI64 o.orderId, userId := asI64 o.userId, market := "SOL_USD", side := o.side,
              price := asI64 o.price, originalQty := asI64 o.remainingQty,
              remainingQty := asI64 o.remainingQty, status := status.getD "open" } []
      | _ => .notFound

end Route

end CexRs
