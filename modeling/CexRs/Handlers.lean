import CexRs.State

/-!
# Message handlers

`handlers/`. A handler returns the new state and what it publishes, in order. What it leaves to `f64`
and to `str` is a parameter.
-/

namespace CexRs

open FixedWidth

/-- The case mappings, and the worst price that an order's slippage allows off the best opposite one. -/
structure Builtins extends Casing where
  slippage : OrderMsg → Nat → Option Nat

def Builtins.noSlippage : Builtins := ⟨.ascii, fun _ _ => none⟩

inductive Msg where
  | signup (msg : SignupMsg)
  | onramp (msg : OnrampMsg)
  | deposit (msg : DepositMsg)
  | balance (msg : BalanceQueryMsg)
  | order (msg : OrderMsg)
  | cancel (msg : CancelMsg)
  | orderbook (msg : OrderbookQueryMsg)
  | openOrders (msg : OpenOrdersQueryMsg)
  | orderStatus (msg : OrderStatusQueryMsg)
  | reset (msg : ResetMsg)

def replyTo (queueId : String) (payload : Reply) : Output :=
  .reply ("response-queue" ++ queueId) payload

def replyError (queueId identifier error : String) (statusCode : Nat) : Output :=
  replyTo queueId (.order identifier none none (some error) (some statusCode))

def replyCancelError (queueId identifier error : String) : Output :=
  replyTo queueId (.cancel identifier none none none (some error))

/-! ### Accounts -/

section Account

variable (A : Arith) (s : EngineState)

def balanceReply (queueId identifier : String) (user : Nat) : Output :=
  replyTo queueId (.balance identifier (s.usd user) (s.stockBalance[user]?.getD ∅))

def handleSignup (msg : SignupMsg) : EngineState × List Output :=
  let s := { s with
    usdBalance := s.usdBalance.insert msg.userId (s.usd msg.userId)
    stockBalance := s.stockBalance.insert msg.userId (s.stockBalance[msg.userId]?.getD ∅) }
  (s, [balanceReply s msg.queueId msg.identifier msg.userId])

def handleOnramp (msg : OnrampMsg) : Except Fault (EngineState × List Output) := do
  let s ← s.usdMut msg.userId (Balance.credit A msg.qty)
  return (s, [.execution (.fundingExecuted msg.userId "USD" msg.qty "onramp"),
    balanceReply s msg.queueId msg.identifier msg.userId])

def handleDeposit (casing : Casing) (msg : DepositMsg) : Except Fault (EngineState × List Output) := do
  -- the symbol is the key as it stands, without lower-casing
  let s ← s.stockMut msg.userId msg.symbol (Balance.credit A msg.qty)
  return (s, [.execution (.fundingExecuted msg.userId (casing.uppercase msg.symbol) msg.qty "deposit"),
    balanceReply s msg.queueId msg.identifier msg.userId])

def handleBalance (msg : BalanceQueryMsg) : List Output :=
  [balanceReply s msg.queueId msg.identifier msg.userId]

end Account

/-! ### Orders -/

section Order

variable (A : Arith) (s : EngineState)

def buyerFee (fees : FeeSchedule) (takerSide : Side) (value : Nat) : Except Fault Nat :=
  match takerSide with
  | .bid => fees.calcTakerFee A value
  | .ask => fees.calcMakerFee A value

def sellerFee (fees : FeeSchedule) (takerSide : Side) (value : Nat) : Except Fault Nat :=
  match takerSide with
  | .bid => fees.calcMakerFee A value
  | .ask => fees.calcTakerFee A value

/-- Settle one fill: the buyer pays from locked USD, the seller gives from the locked asset, and both
fees go to user 0. Returns the buyer's and the seller's fee. -/
def applyFill (asset : Asset) (trade : Trade) : Except Fault (EngineState × Nat × Nat) := do
  let value ← A.mul trade.price trade.qty
  let buyerFee ← buyerFee A s.feeSchedule trade.takerSide value
  let sellerFee ← sellerFee A s.feeSchedule trade.takerSide value
  let debit ← A.add value buyerFee
  let s ← s.usdMut trade.buyer (Balance.spend A debit)
  let s ← s.assetMut trade.buyer asset (Balance.credit A trade.qty)
  let s ← s.assetMut trade.seller asset (Balance.spend A trade.qty)
  -- `value.saturating_sub(seller_fee)`
  let s ← s.usdMut trade.seller (Balance.credit A (value - sellerFee))
  let totalFee ← A.add buyerFee sellerFee
  let s ← if 0 < totalFee then s.usdMut 0 (Balance.credit A totalFee) else pure s
  return (s, buyerFee, sellerFee)

/-- The variables of the loops over the match results. -/
structure Settlement where
  state : EngineState
  filledQty : Nat
  -- what the buyer has paid so far; only kept for a bid
  spent : Nat
  resting : Option OrderAccepted
  events : List ExecutionEvent

/-- The body of the loops over the match results: settle a trade and emit its event, or note the
order that was left to rest. -/
def settleResult (asset : Asset) (side : Side) (acc : Settlement) :
    MatchResult → Except Fault Settlement
  | .orderAccepted accepted => return { acc with resting := some accepted }
  | .trade trade => do
      let (state, buyerFee, sellerFee) ← applyFill A acc.state asset trade
      let filledQty ← A.add acc.filledQty trade.qty
      let quoteAmount ← A.mul trade.price trade.qty
      let spent ← if side = .bid then do A.add acc.spent (← A.add quoteAmount buyerFee)
        else pure acc.spent
      -- read from the book after the whole match has run
      let makerRemainingQty :=
        (((state.book asset).getOrder trade.makerOrderId).map Order.remainingQty).getD 0
      let event := .tradeExecuted trade.makerOrderId trade.takerOrderId trade.buyer trade.seller
        asset.market trade.price trade.qty quoteAmount makerRemainingQty 0 buyerFee sellerFee
      return { acc with state, filledQty, spent, events := acc.events ++ [event] }

def settleResults (asset : Asset) (side : Side) (results : List MatchResult) :
    Except Fault Settlement :=
  results.foldlM (settleResult A asset side)
    { state := s, filledQty := 0, spent := 0, resting := none, events := [] }

/-- What an order leaves behind once it has passed the balance check: the amount taken upfront, the
amount given back at the end, and the outcome of the match. -/
structure Placement where
  asset : Asset
  state : EngineState
  lock : Nat
  refund : Nat
  settlement : Settlement

inductive Verdict where
  | refused (state : EngineState) (reply : Output)
  | placed (placement : Placement)

def expectResults {α : Type} : Except OrderbookError α → Except Fault α
  | .ok a => .ok a
  | .error _ => .error .panic

def unfilledReply (msg : OrderMsg) : Output :=
  replyTo msg.queueId (.order msg.identifier none (some "unfilled") none none)

/-- Move the order's funds from available to locked, or refuse. -/
def lockUsd (user : Nat) (amount : Nat) : Except Fault (EngineState × Bool) := do
  let s ← s.usdMut user pure
  if (s.usd user).available < amount then return (s, false)
  return (← s.usdMut user (Balance.lock A amount), true)

def lockAsset (user : Nat) (asset : Asset) (amount : Nat) :
    Except Fault (EngineState × Bool) := do
  let s ← s.assetMut user asset pure
  if (s.asset user asset).available < amount then return (s, false)
  return (← s.assetMut user asset (Balance.lock A amount), true)

def insufficient (s : EngineState) (msg : OrderMsg) (currency : String) : Verdict :=
  .refused s (replyError msg.queueId msg.identifier ("Insufficient " ++ currency) 400)

/-- Give back part of what an order locked, if there is anything to give back. -/
def refundUsd (user : Nat) (amount : Nat) : Except Fault EngineState :=
  if 0 < amount then s.usdMut user (Balance.unlock A amount) else pure s

def refundAsset (user : Nat) (asset : Asset) (amount : Nat) : Except Fault EngineState :=
  if 0 < amount then s.assetMut user asset (Balance.unlock A amount) else pure s

/-- What stays locked for the remainder of a bid. -/
def neededLocked (fees : FeeSchedule) : Option OrderAccepted → Except Fault Nat
  | none => pure 0
  | some accepted => do
      let restingCost ← A.mul accepted.price accepted.remainingQty
      A.add restingCost (← fees.calcMakerFee A restingCost)

/-- The end of the limit branch: a bid gets back what it locked in excess, an ask that does not rest
what it has left unsold. -/
def reconcile (msg : OrderMsg) (asset : Asset) (side : Side) (qty : Nat) (totalLock : Nat)
    (settled : Settlement) : Except Fault Placement :=
  match side with
  | .bid => do
      let needed ← neededLocked A settled.state.feeSchedule settled.resting
      let excess := totalLock - settled.spent - needed
      let state ← refundUsd A settled.state msg.userId excess
      return { asset, state, lock := totalLock, refund := excess, settlement := settled }
  | .ask => do
      let unfilledQty ← A.sub qty settled.filledQty
      let refund := if msg.timeInForce ≠ .gtc then unfilledQty else 0
      let state ← refundAsset A settled.state msg.userId asset refund
      return { asset, state, lock := qty, refund, settlement := settled }

/-- The limit branch after the funds are locked. -/
def placeLimit (msg : OrderMsg) (asset : Asset) (side : Side) (price : Nat) (qty : Nat)
    (totalLock : Nat) : Except Fault Placement := do
  let (orderId, s) ← s.drawOrderId A
  let (book, results) ← (s.book asset).addOrderWithId A orderId msg.userId side price qty
    msg.timeInForce
  let results ← expectResults results
  let settled ← settleResults A (s.setBook asset book) asset side results
  reconcile A msg asset side qty totalLock settled

def handleLimit (msg : OrderMsg) (asset : Asset) (side : Side) (qty : Nat) :
    Except Fault Verdict := do
  if msg.price.toInt ≤ 0 then
    return .refused s (replyError msg.queueId msg.identifier
      "price must be positive for limit orders" 400)
  let price := msg.price.toInt.toNat
  let cost ← A.mul price qty
  let feeRate := max s.feeSchedule.takerFeeBps s.feeSchedule.makerFeeBps
  let feeReserve := (← A.mul cost feeRate) / 10000
  let totalLock ← A.add cost feeReserve
  match side with
  | .bid =>
      let (s, enough) ← lockUsd A s msg.userId totalLock
      if enough = false then return insufficient s msg "USD"
      return .placed (← placeLimit A s msg asset side price qty totalLock)
  | .ask =>
      let (s, enough) ← lockAsset A s msg.userId asset qty
      if enough = false then return insufficient s msg asset.upper
      return .placed (← placeLimit A s msg asset side price qty totalLock)

/-- A market order is bounded by its own price if it carries one, else by the slippage off the best
opposite price. -/
def worstPrice (builtins : Builtins) (msg : OrderMsg) (best : Option Nat) : Option Nat :=
  if 0 < msg.price.toInt then some msg.price.toInt.toNat else best.bind (builtins.slippage msg)

/-- The market branches after the funds are locked. -/
def placeMarket (msg : OrderMsg) (asset : Asset) (side : Side) (qty : Nat)
    (worst : Option Nat) : Except Fault Settlement := do
  let (orderId, s) ← s.drawOrderId A
  let (book, results) ← (s.book asset).executeMarketOrderWithId A orderId msg.userId side qty
    worst
  let results ← expectResults results
  settleResults A (s.setBook asset book) asset side results

/-- The quantity a market sell counts on: all of it, unless it is fill-or-kill and has to be found in
the book first. -/
def fillableForSell (ob : Orderbook) (timeInForce : TimeInForce) (qty : Nat) (worst : Option Nat) :
    Except Fault Nat :=
  if timeInForce = .fok then ob.fillableQtyForMarketSell A qty worst else pure qty

def handleMarketSell (builtins : Builtins) (msg : OrderMsg) (asset : Asset) (qty : Nat) :
    Except Fault Verdict := do
  let ob := s.book asset
  let worst := worstPrice builtins msg ob.bestBid
  let fillable ← fillableForSell A ob msg.timeInForce qty worst
  if fillable < qty then return .refused s (unfilledReply msg)
  let (s, enough) ← lockAsset A s msg.userId asset qty
  if enough = false then return insufficient s msg asset.upper
  let settled ← placeMarket A s msg asset .ask qty worst
  let unfilledQty ← A.sub qty settled.filledQty
  let state ← refundAsset A settled.state msg.userId asset unfilledQty
  return .placed { asset, state, lock := qty, refund := unfilledQty, settlement := settled }

def handleMarketBuy (builtins : Builtins) (msg : OrderMsg) (asset : Asset) (qty : Nat) :
    Except Fault Verdict := do
  let ob := s.book asset
  let worst := worstPrice builtins msg ob.bestAsk
  let (requiredUsd, fillableQty) ← ob.quoteCostForMarketBuy A qty worst
  if msg.timeInForce = .fok ∧ fillableQty < qty then return .refused s (unfilledReply msg)
  if fillableQty = 0 then
    return .refused s (replyError msg.queueId msg.identifier
      "No ask liquidity available within slippage limit" 400)
  let feeReserve ← s.feeSchedule.calcTakerFee A requiredUsd
  let totalRequired ← A.add requiredUsd feeReserve
  let (s, enough) ← lockUsd A s msg.userId totalRequired
  if enough = false then return insufficient s msg "USD"
  let settled ← placeMarket A s msg asset .bid qty worst
  let refund := totalRequired - settled.spent
  let state ← refundUsd A settled.state msg.userId refund
  return .placed { asset, state, lock := totalRequired, refund, settlement := settled }

def Side.ofString? : String → Option Side
  | "bid" => some .bid
  | "ask" => some .ask
  | _ => none

def judgeOrder (builtins : Builtins) (msg : OrderMsg) : Except Fault Verdict :=
  let refuse (error : String) : Verdict :=
    .refused s (replyError msg.queueId msg.identifier error 400)
  match Asset.ofString? msg.asset with
  | none => return refuse "Supported assets are SOL, BTC, ETH"
  | some asset =>
      match Side.ofString? msg.side with
      | none => return refuse "side must be bid or ask"
      | some side =>
          if msg.qty.toInt ≤ 0 then return refuse "qty must be a positive number"
          else
            let qty := msg.qty.toInt.toNat
            match msg.orderType, side with
            | .limit, side => handleLimit A s msg asset side qty
            | .market, .ask => handleMarketSell A s builtins msg asset qty
            | .market, .bid => handleMarketBuy A s builtins msg asset qty

def orderStatus (qty : Nat) (settled : Settlement) : String :=
  if settled.resting.isSome then "open"
  else if settled.filledQty = qty then "filled"
  else if 0 < settled.filledQty then "partially_filled"
  else "unfilled"

def depthEvent (asset : Asset) : Except Fault Output := do
  let snapshot ← (s.book asset).getState A
  let pairs (levels : List LevelSnapshot) := (levels.take 25).map fun l => (l.price, l.qty)
  return .execution (.depthUpdated asset.market (pairs snapshot.bids) (pairs snapshot.asks))

def createdEvents (msg : OrderMsg) (p : Placement) : List Output :=
  match p.settlement.resting with
  | none => []
  | some accepted => [.execution (.orderCreated accepted.orderId accepted.userId p.asset.market
      msg.side accepted.price msg.qty.toInt.toNat accepted.remainingQty "open")]

def placedReply (msg : OrderMsg) (p : Placement) : Output :=
  replyTo msg.queueId (.order msg.identifier (p.settlement.resting.map OrderAccepted.orderId)
    (some (orderStatus msg.qty.toInt.toNat p.settlement)) none none)

def handleOrder (builtins : Builtins) (msg : OrderMsg) :
    Except Fault (EngineState × List Output) := do
  match ← judgeOrder A s builtins msg with
  | .refused state reply => return (state, [reply])
  | .placed p =>
      let depth ← depthEvent A p.state p.asset
      return (p.state, p.settlement.events.map .execution ++ createdEvents msg p
        ++ [placedReply msg p, depth])

/-- The books are tried in turn; the first that holds the order for this user gives it up. -/
def cancelInBooks (orderId : Nat) (userId : Nat) :
    List Asset → Except Fault (Option (EngineState × OrderCancelled × Asset))
  | [] => return none
  | asset :: assets => do
      match ← (s.book asset).cancelOrder orderId userId with
      | .ok (ob, cancelled) => return some (s.setBook asset ob, cancelled, asset)
      | .error _ => cancelInBooks orderId userId assets

def refundCancelled (asset : Asset) (cancelled : OrderCancelled) : Except Fault EngineState :=
  match cancelled.side with
  | .bid => do
      let cost ← A.mul cancelled.price cancelled.remainingQty
      let refund ← A.add cost (← s.feeSchedule.calcMakerFee A cost)
      s.usdMut cancelled.userId (Balance.unlock A refund)
  | .ask => s.assetMut cancelled.userId asset (Balance.unlock A cancelled.remainingQty)

def handleCancel (msg : CancelMsg) : Except Fault (EngineState × List Output) := do
  match ← cancelInBooks s msg.orderId msg.userId Asset.all with
  | none =>
      let existsOtherUser := Asset.all.any fun asset =>
        ((s.book asset).getOrder msg.orderId).isSome
      let error := if existsOtherUser then "Not order owner" else "Open order not found"
      return (s, [replyCancelError msg.queueId msg.identifier error])
  | some (s, cancelled, asset) =>
      let s ← refundCancelled A s asset cancelled
      let depth ← depthEvent A s asset
      return (s, [.execution (.orderCancelled cancelled.orderId cancelled.userId
          cancelled.remainingQty), depth,
        replyTo msg.queueId (.cancel msg.identifier (some cancelled.orderId)
          (some cancelled.remainingQty) (some "Order cancelled") none)])

def sideName : Side → String
  | .bid => "bid"
  | .ask => "ask"

def handleGetOpenOrders (msg : OpenOrdersQueryMsg) : List Output :=
  let orders := Asset.all.flatMap fun asset =>
    ((s.book asset).getUserOrders msg.userId).map fun o =>
      { orderId := o.orderId, userId := o.userId, side := sideName o.side, price := o.price,
        remainingQty := o.remainingQty, market := asset.market }
  [replyTo msg.queueId (.openOrders msg.identifier orders)]

def handleGetOrderStatus (msg : OrderStatusQueryMsg) : List Output :=
  let found := Asset.all.findSome? fun asset =>
    ((s.book asset).getOrder msg.orderId).map fun o => (o, asset.market)
  let reply := match found.filter fun (order, _) => order.userId = msg.userId with
    | some (o, market) =>
        let info : OpenOrderInfo :=
          { orderId := o.orderId, userId := o.userId, side := sideName o.side, price := o.price,
            remainingQty := o.remainingQty, market }
        .orderStatus msg.identifier (some info) (some "open") none
    | none => .orderStatus msg.identifier none none (some "Order not found in open book")
  [replyTo msg.queueId reply]

end Order

/-! ### Market data and reset -/

def handleGetOrderbook (A : Arith) (s : EngineState) (msg : OrderbookQueryMsg) :
    Except Fault (List Output) := do
  match s.getOrderbook msg.asset with
  | none => return [replyTo msg.queueId (.orderbook msg.identifier [] [])]
  | some ob =>
      let snapshot ← ob.getState A
      return [replyTo msg.queueId (.orderbook msg.identifier snapshot.bids snapshot.asks)]

def handleReset (s : EngineState) (msg : ResetMsg) : EngineState × List Output :=
  (s.reset, [replyTo msg.queueId (.generic msg.identifier "Reset successful")])

/-! ### Runs -/

def executions (outputs : List Output) : List ExecutionEvent :=
  outputs.filterMap fun
    | .execution event => some event
    | .reply _ _ => none

section Run

variable (A : Arith) (builtins : Builtins)

def handle (s : EngineState) : Msg → Except Fault (EngineState × List Output)
  | .signup msg => return handleSignup s msg
  | .onramp msg => handleOnramp A s msg
  | .deposit msg => handleDeposit A s builtins.toCasing msg
  | .balance msg => return (s, handleBalance s msg)
  | .order msg => handleOrder A s builtins msg
  | .cancel msg => handleCancel A s msg
  | .orderbook msg => return (s, ← handleGetOrderbook A s msg)
  | .openOrders msg => return (s, handleGetOpenOrders s msg)
  | .orderStatus msg => return (s, handleGetOrderStatus s msg)
  | .reset msg => return handleReset s msg

def run (s : EngineState) : List Msg → Except Fault (EngineState × List Output)
  | [] => return (s, [])
  | msg :: msgs => do
      let (s, first) ← handle A builtins s msg
      let (s, rest) ← run s msgs
      return (s, first ++ rest)

end Run

end CexRs
