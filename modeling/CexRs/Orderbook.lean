import CexRs.Types

/-!
# The order book

`orderbook/book.rs`. A `BTreeMap` and a `HashMap` are both ordered maps here; a `VecDeque` is a list,
front first. A failed `expect` is the fault `panic`, and the matching loops carry a bound on their
passes that they cannot reach while they still make progress, so that running out of it (`diverge`)
is a loop that would not end.
-/

namespace CexRs

open FixedWidth

structure PriceLevel where
  orders : List Nat
  deriving DecidableEq, Repr

abbrev Levels := Std.ExtTreeMap Nat PriceLevel

structure Orderbook where
  symbol : String
  nextOrderId : Nat
  bids : Levels
  asks : Levels
  orders : Std.ExtTreeMap Nat Order

structure Taker where
  orderId : Nat
  userId : Nat
  side : Side

/-- The variables of the matching loops. -/
structure Matching where
  book : Orderbook
  remainingQty : Nat
  results : List Trade

namespace Orderbook

variable (A : Arith) (ob : Orderbook)

def new (symbol : String) : Orderbook :=
  { symbol, nextOrderId := 1, bids := ∅, asks := ∅, orders := ∅ }

def reset : Orderbook :=
  { ob with bids := ∅, asks := ∅, orders := ∅, nextOrderId := 1 }

def levels : Side → Levels
  | .bid => ob.bids
  | .ask => ob.asks

def setLevels (side : Side) (levels : Levels) : Orderbook :=
  match side with
  | .bid => { ob with bids := levels }
  | .ask => { ob with asks := levels }

/-- The levels of a side in the order in which the code walks them: bids from the highest price down,
asks from the lowest price up. -/
def walk : Side → List (Nat × PriceLevel)
  | .bid => ob.bids.toList.reverse
  | .ask => ob.asks.toList

def bestBid : Option Nat := ob.bids.toList.getLast?.map Prod.fst

def bestAsk : Option Nat := ob.asks.toList.head?.map Prod.fst

def best : Side → Option Nat
  | .bid => ob.bestBid
  | .ask => ob.bestAsk

/-- The best price that an order of this side can trade at. -/
def restingPrice : Side → Option Nat
  | .bid => ob.bestAsk
  | .ask => ob.bestBid

def getOrder (orderId : Nat) : Option Order := ob.orders[orderId]?

def getUserOrders (userId : Nat) : List UserOrderSnapshot :=
  (ob.orders.toList.map Prod.snd).filter (fun o => o.userId = userId) |>.map fun o =>
    { orderId := o.orderId, userId := o.userId, side := o.side, price := o.price,
      remainingQty := o.remainingQty }

/-! ### Depth -/

def levelQty (level : PriceLevel) : Except Fault Nat :=
  A.sum ((level.orders.filterMap fun id => ob.orders[id]?).map Order.remainingQty)

def snapshotLevels (levels : List (Nat × PriceLevel)) : Except Fault (List LevelSnapshot) :=
  levels.mapM fun (price, level) => do
    return { price, qty := ← ob.levelQty A level }

def getState : Except Fault OrderbookSnapshot := do
  let bids ← ob.snapshotLevels A (ob.walk .bid)
  let asks ← ob.snapshotLevels A (ob.walk .ask)
  return { symbol := ob.symbol, bids, asks }

/-! ### Liquidity queries

`can_fill_quantity`, `quote_cost_for_market_buy` and `fillable_qty_for_market_sell` walk the levels
of a side in the same way: up to the first price past the limit, each queue front to back, with an
early return. They differ in what they do at an order. -/

section Scan

variable {σ : Type} (visit : σ → Nat → Order → Except Fault (σ × Bool))

def scanQueue (price : Nat) : List Nat → σ → Except Fault (σ × Bool)
  | [], acc => return (acc, false)
  | id :: ids, acc =>
      match ob.orders[id]? with
      | none => scanQueue price ids acc
      | some order => do
          let (acc, done) ← visit acc price order
          if done then return (acc, true) else scanQueue price ids acc

def scanLevels (past : Nat → Bool) : List (Nat × PriceLevel) → σ → Except Fault (σ × Bool)
  | [], acc => return (acc, false)
  | (price, level) :: rest, acc =>
      if past price then return (acc, false)
      else do
        let (acc, done) ← scanQueue ob visit price level.orders acc
        if done then return (acc, true) else scanLevels past rest acc

end Scan

/-- A resting price that a limit order of this side and price no longer crosses. -/
def pastLimit (side : Side) (price resting : Nat) : Bool :=
  match side with
  | .bid => price < resting
  | .ask => resting < price

/-- A resting price beyond the worst price of a market order of this side. -/
def pastWorst (side : Side) (worst : Option Nat) (resting : Nat) : Bool :=
  match worst with
  | none => false
  | some cap =>
      match side with
      | .bid => cap < resting
      | .ask => resting < cap

def canFillQuantity (side : Side) (price : Nat) (qty : Nat) : Except Fault Bool :=
  if qty = 0 then return true
  else do
    let (_, filled) ← ob.scanLevels (σ := Nat) (fun available _ order => do
      let available ← A.add available order.remainingQty
      return (available, decide (qty ≤ available))) (pastLimit side price)
      (ob.walk side.opposite) 0
    return filled

/-- The accumulators of `quote_cost_for_market_buy`; the sell query keeps the last two. -/
structure Quote where
  totalCost : Nat
  fillableQty : Nat
  qty : Nat
  deriving DecidableEq, Repr

/-- The body of the buy query's loops: as much of the order as is still wanted, at its price. -/
def quoteVisit (quote : Quote) (price : Nat) (order : Order) : Except Fault (Quote × Bool) := do
  let take := min quote.qty order.remainingQty
  let totalCost ← A.add quote.totalCost (← A.mul take price)
  let fillableQty ← A.add quote.fillableQty take
  let qty := quote.qty - take
  return ({ totalCost, fillableQty, qty }, decide (qty = 0))

def quoteCostForMarketBuy (qty : Nat) (worst : Option Nat) :
    Except Fault (Nat × Nat) := do
  let (quote, _) ← ob.scanLevels (quoteVisit A) (pastWorst .bid worst) (ob.walk .ask)
    { totalCost := 0, fillableQty := 0, qty }
  return (quote.totalCost, quote.fillableQty)

def fillableQtyForMarketSell (qty : Nat) (worst : Option Nat) : Except Fault Nat := do
  let (quote, _) ← ob.scanLevels (fun (quote : Quote) _ order => do
    let take := min quote.qty order.remainingQty
    let fillableQty ← A.add quote.fillableQty take
    let qty := quote.qty - take
    return ({ quote with fillableQty, qty }, decide (qty = 0))) (pastWorst .ask worst)
    (ob.walk .bid) { totalCost := 0, fillableQty := 0, qty }
  return quote.fillableQty

end Orderbook

/-! ### Matching -/

def Taker.trade (taker : Taker) (price : Nat) (qty : Nat) (makerId : Nat)
    (makerUserId : Nat) : Trade :=
  match taker.side with
  | .bid =>
      { buyer := taker.userId, seller := makerUserId, price, qty, takerOrderId := taker.orderId,
        makerOrderId := makerId, takerSide := .bid }
  | .ask =>
      { buyer := makerUserId, seller := taker.userId, price, qty, takerOrderId := taker.orderId,
        makerOrderId := makerId, takerSide := .ask }

namespace Orderbook

variable (A : Arith) (ob : Orderbook)

/-- Pop the front of a level's queue and drop the level if that empties it; says whether it did. -/
def popFront (side : Side) (price : Nat) : Except Fault (Orderbook × Bool) :=
  match (ob.levels side)[price]? with
  | none => .error .panic -- `expect("price level must exist")`
  | some level =>
      match level.orders with
      | [] => .error .panic -- `expect("maker order must be in FIFO queue")`
      | [_] => return (ob.setLevels side ((ob.levels side).erase price), true)
      | _ :: rest => return (ob.setLevels side ((ob.levels side).insert price ⟨rest⟩), false)

end Orderbook

namespace Matching

variable (taker : Taker)

/-- The body of the inner loop once the maker at the front is known; says whether the loop goes on. -/
def fillMaker (price : Nat) (makerId : Nat) (m : Matching) :
    Except Fault (Matching × Bool) :=
  match m.book.orders[makerId]? with
  | none => .error .panic -- `expect("order in price level must exist in map")`
  | some maker =>
      let fillQty := min m.remainingQty maker.remainingQty
      let maker' := { maker with remainingQty := maker.remainingQty - fillQty }
      let m : Matching :=
        { book := { m.book with orders := m.book.orders.insert makerId maker' }
          remainingQty := m.remainingQty - fillQty
          results := m.results ++ [taker.trade price fillQty makerId maker.userId] }
      if maker'.remainingQty = 0 then do
        let book := { m.book with orders := m.book.orders.erase makerId }
        let (book, levelEmpty) ← book.popFront taker.side.opposite price
        return ({ m with book }, !levelEmpty)
      else
        -- the maker keeps its position
        return (m, false)

/-- The inner loop: consume the queue of one price level, front first. -/
def consumeLevel (price : Nat) : Nat → Matching → Except Fault Matching
  | 0, _ => .error .diverge
  | fuel + 1, m =>
      if m.remainingQty = 0 then return m
      else
        match (m.book.levels taker.side.opposite)[price]?.bind fun l => l.orders.head? with
        | none => return m
        | some makerId => do
            let (m, continue_) ← m.fillMaker taker price makerId
            if continue_ then consumeLevel price fuel m else return m

/-- The outer loop: while something remains, take the best opposite level that is not past the
limit. -/
def matchLevels (past : Nat → Bool) : Nat → Matching → Except Fault Matching
  | 0, _ => .error .diverge
  | fuel + 1, m =>
      if m.remainingQty = 0 then return m
      else
        match m.book.best taker.side.opposite with
        | none => return m
        | some price =>
            if past price then return m
            else do
              -- every pass that goes on takes an order out of the map
              let m ← m.consumeLevel taker price (m.book.orders.size + 1)
              matchLevels past fuel m

/-! `execute_market_order_with_id` has its own copy of the two loops. -/

def consumeMarketLevel (price : Nat) : Nat → Matching → Except Fault Matching
  | 0, _ => .error .diverge
  | fuel + 1, m =>
      if m.remainingQty = 0 then return m
      else
        match (m.book.levels taker.side.opposite)[price]?.bind fun l => l.orders.head? with
        | none => return m
        | some makerId =>
            match m.book.orders[makerId]? with
            | none => .error .panic -- `expect("order in price level must exist in map")`
            | some maker => do
                let fillQty := min m.remainingQty maker.remainingQty
                let maker' := { maker with remainingQty := maker.remainingQty - fillQty }
                let remainingQty := m.remainingQty - fillQty
                let book := { m.book with orders := m.book.orders.insert makerId maker' }
                let results := m.results ++ [taker.trade price fillQty makerId maker.userId]
                let makerDone := (book.orders[makerId]?.map fun o => o.remainingQty == 0).getD false
                if makerDone then
                  let book := { book with orders := book.orders.erase makerId }
                  let (book, levelEmpty) ← book.popFront taker.side.opposite price
                  if levelEmpty then return { book, remainingQty, results }
                  else consumeMarketLevel price fuel { book, remainingQty, results }
                else return { book, remainingQty, results }

def matchMarketLevels (worst : Option Nat) : Nat → Matching → Except Fault Matching
  | 0, _ => .error .diverge
  | fuel + 1, m =>
      if m.remainingQty = 0 then return m
      else
        match m.book.restingPrice taker.side with
        | none => return m
        | some price =>
            if Orderbook.pastWorst taker.side worst price then return m
            else do
              let m ← m.consumeMarketLevel taker price (m.book.orders.size + 1)
              matchMarketLevels worst fuel m

end Matching

namespace Orderbook

variable (A : Arith) (ob : Orderbook)

def matchOrder (taker : Taker) (past : Nat → Bool) (qty : Nat) : Except Fault Matching :=
  Matching.matchLevels taker past (ob.orders.size + 1) { book := ob, remainingQty := qty, results := [] }

def matchMarketOrder (taker : Taker) (worst : Option Nat) (qty : Nat) : Except Fault Matching :=
  Matching.matchMarketLevels taker worst (ob.orders.size + 1)
    { book := ob, remainingQty := qty, results := [] }

/-- Append an order to the back of its price level. -/
def rest (order : Order) : Orderbook :=
  let queue := ((ob.levels order.side)[order.price]?.map PriceLevel.orders).getD []
  let levels := (ob.levels order.side).insert order.price ⟨queue ++ [order.orderId]⟩
  let ob := ob.setLevels order.side levels
  { ob with orders := ob.orders.insert order.orderId order }

def addOrderWithId (orderId : Nat) (userId : Nat) (side : Side) (price : Nat)
    (qty : Nat) (timeInForce : TimeInForce) :
    Except Fault (Orderbook × Except OrderbookError (List MatchResult)) := do
  let next ← A.add orderId 1
  let ob := { ob with nextOrderId := max ob.nextOrderId next }
  if price = 0 then return (ob, .error .invalidPrice)
  if qty = 0 then return (ob, .error .invalidQuantity)
  let fillable ← if timeInForce = .fok then ob.canFillQuantity A side price qty else pure true
  if fillable = false then return (ob, .ok [])
  let m ← ob.matchOrder { orderId, userId, side } (pastLimit side price) qty
  let results := m.results.map MatchResult.trade
  if 0 < m.remainingQty ∧ timeInForce = .gtc then
    let order : Order := { orderId, userId, side, price, remainingQty := m.remainingQty }
    let accepted : OrderAccepted :=
      { orderId, userId, side, price, remainingQty := m.remainingQty }
    return (m.book.rest order, .ok (results ++ [.orderAccepted accepted]))
  else return (m.book, .ok results)

def addOrder (userId : Nat) (side : Side) (price : Nat) (qty : Nat)
    (timeInForce : TimeInForce) :
    Except Fault (Orderbook × Except OrderbookError (List MatchResult)) := do
  let orderId := ob.nextOrderId
  let ob := { ob with nextOrderId := ← A.next ob.nextOrderId }
  ob.addOrderWithId A orderId userId side price qty timeInForce

def executeMarketOrderWithId (orderId : Nat) (userId : Nat) (side : Side) (qty : Nat)
    (worst : Option Nat) :
    Except Fault (Orderbook × Except OrderbookError (List MatchResult)) := do
  let next ← A.add orderId 1
  let ob := { ob with nextOrderId := max ob.nextOrderId next }
  if qty = 0 then return (ob, .error .invalidQuantity)
  let m ← ob.matchMarketOrder { orderId, userId, side } worst qty
  -- a market order never rests in the book
  return (m.book, .ok (m.results.map MatchResult.trade))

def executeMarketOrder (userId : Nat) (side : Side) (qty : Nat) (worst : Option Nat) :
    Except Fault (Orderbook × Except OrderbookError (List MatchResult)) := do
  let orderId := ob.nextOrderId
  let ob := { ob with nextOrderId := ← A.next ob.nextOrderId }
  ob.executeMarketOrderWithId A orderId userId side qty worst

/-! ### Cancellation -/

/-- Take an order out of its price level, and the level out of the side if that empties it. -/
def unlist (order : Order) : Except Fault Orderbook :=
  match (ob.levels order.side)[order.price]? with
  | none => .error .panic -- `expect("price level must exist")`
  | some level =>
      if order.orderId ∈ level.orders then
        let queue := level.orders.erase order.orderId
        let levels := ob.levels order.side
        return ob.setLevels order.side
          (if queue = [] then levels.erase order.price else levels.insert order.price ⟨queue⟩)
      else .error .panic -- `expect("order must be in its price level")`

def cancelOrder (orderId : Nat) (userId : Nat) :
    Except Fault (Except OrderbookError (Orderbook × OrderCancelled)) :=
  match ob.orders[orderId]? with
  | none => return .error .orderNotFound
  | some order =>
      if order.userId ≠ userId then return .error .notOrderOwner
      else do
        let ob ← { ob with orders := ob.orders.erase orderId }.unlist { order with orderId }
        return .ok (ob,
          { orderId := order.orderId, userId := order.userId, side := order.side,
            price := order.price, remainingQty := order.remainingQty })

end Orderbook

end CexRs
