import CexRs.Types

/-!
# The WebSocket listener

`ws/listener.rs`: what the gateway sends to its clients for each event that it reads from the
executions stream. The time that a public trade carries is read from the clock and is a parameter here,
and the metrics that the listener counts along the way are left out.
-/

namespace CexRs

inductive WsServerMsg where
  | trade (market : String) (makerOrderId takerOrderId price qty quoteAmount : Nat) (timestamp : Int)
  | depth (market : String) (bids asks : List (Nat × Nat))
  | orderUpdate (orderId : Nat) (market side : String) (price remainingQty : Nat) (status : String)
  deriving DecidableEq, Repr

/-- `broadcast_topic` sends to the subscribers of a topic, `send_private` to the sessions of a user. -/
inductive Recipient where
  | topic (name : String)
  | user (userId : Nat)
  deriving DecidableEq, Repr

def fillStatus (remainingQty : Nat) : String :=
  if remainingQty = 0 then "filled" else "partially_filled"

/-- The body of the loop of `run_listener`, in the order in which it sends. -/
def forward (casing : Casing) (timestamp : Int) : ExecutionEvent → List (Recipient × WsServerMsg)
  | .tradeExecuted makerOrderId takerOrderId buyerId sellerId market price qty quoteAmount
      makerRemainingQty takerRemainingQty _ _ =>
      [(.topic ("trades:" ++ casing.uppercase market),
          .trade market makerOrderId takerOrderId price qty quoteAmount timestamp),
        (.user buyerId, .orderUpdate takerOrderId market "bid" price takerRemainingQty
          (fillStatus takerRemainingQty)),
        (.user sellerId, .orderUpdate makerOrderId market "ask" price makerRemainingQty
          (fillStatus makerRemainingQty))]
  | .orderCreated orderId userId market side price _ remainingQty status =>
      [(.user userId, .orderUpdate orderId market side price remainingQty status)]
  | .orderCancelled orderId userId remainingQty =>
      [(.user userId, .orderUpdate orderId "UNKNOWN" "unknown" 0 remainingQty "cancelled")]
  | .fundingExecuted _ _ _ _ => []
  | .depthUpdated market bids asks =>
      [(.topic ("depth:" ++ casing.uppercase market), .depth market bids asks)]

end CexRs
