import CexRs.Lib.FixedWidth
import CexRs.Lib.OrderedMap

/-!
# Domain types

The types of `orderbook/types.rs` and of the shared message and event models. Unsigned 64-bit values
are natural numbers, with the width enforced where the code computes with them.
-/

namespace CexRs

open FixedWidth

/-- The arithmetic of the engine: 64-bit words, checked or not according to the build profile. -/
def u64 (checks : Bool) : Arith := ⟨64, checks⟩

inductive Side where
  | bid
  | ask
  deriving DecidableEq, Repr

def Side.opposite : Side → Side
  | .bid => .ask
  | .ask => .bid

inductive TimeInForce where
  | gtc
  | ioc
  | fok
  deriving DecidableEq, Repr

inductive OrderType where
  | limit
  | market
  deriving DecidableEq, Repr

structure Order where
  orderId : Nat
  userId : Nat
  side : Side
  price : Nat
  remainingQty : Nat
  deriving DecidableEq, Repr

structure Trade where
  buyer : Nat
  seller : Nat
  price : Nat
  qty : Nat
  takerOrderId : Nat
  makerOrderId : Nat
  takerSide : Side
  deriving DecidableEq, Repr

structure OrderAccepted where
  orderId : Nat
  userId : Nat
  side : Side
  price : Nat
  remainingQty : Nat
  deriving DecidableEq, Repr

structure OrderCancelled where
  orderId : Nat
  userId : Nat
  side : Side
  price : Nat
  remainingQty : Nat
  deriving DecidableEq, Repr

inductive MatchResult where
  | trade (trade : Trade)
  | orderAccepted (accepted : OrderAccepted)
  deriving DecidableEq, Repr

inductive OrderbookError where
  | invalidPrice
  | invalidQuantity
  | orderNotFound
  | notOrderOwner
  deriving DecidableEq, Repr

structure LevelSnapshot where
  price : Nat
  qty : Nat
  deriving DecidableEq, Repr

structure OrderbookSnapshot where
  symbol : String
  bids : List LevelSnapshot
  asks : List LevelSnapshot
  deriving DecidableEq, Repr

structure UserOrderSnapshot where
  orderId : Nat
  userId : Nat
  side : Side
  price : Nat
  remainingQty : Nat
  deriving DecidableEq, Repr

@[ext]
structure Balance where
  available : Nat := 0
  locked : Nat := 0
  deriving DecidableEq, Repr

structure FeeSchedule where
  makerFeeBps : Nat
  takerFeeBps : Nat
  deriving DecidableEq, Repr

namespace FeeSchedule

variable (A : Arith) (fees : FeeSchedule)

def calcMakerFee (quoteAmount : Nat) : Except Fault Nat := do
  return (← A.mul quoteAmount fees.makerFeeBps) / 10000

def calcTakerFee (quoteAmount : Nat) : Except Fault Nat := do
  return (← A.mul quoteAmount fees.takerFeeBps) / 10000

end FeeSchedule

/-! ### Assets and their names -/

inductive Asset where
  | sol
  | btc
  | eth
  deriving DecidableEq, Repr

def Asset.all : List Asset := [.sol, .btc, .eth]

def Asset.symbol : Asset → String
  | .sol => "sol"
  | .btc => "btc"
  | .eth => "eth"

def Asset.upper : Asset → String
  | .sol => "SOL"
  | .btc => "BTC"
  | .eth => "ETH"

def Asset.market : Asset → String
  | .sol => "SOL_USD"
  | .btc => "BTC_USD"
  | .eth => "ETH_USD"

/-- `str::to_lowercase`, on ASCII letters. No other character has a lower-case form made of the
letters of a supported symbol, so the asset tests come out as they do over all of Unicode. -/
def toLowercase (s : String) : String := String.ofList (s.toList.map Char.toLower)

/-- `str::to_uppercase`, on ASCII letters. -/
def toUppercase (s : String) : String := String.ofList (s.toList.map Char.toUpper)

/-- `str::to_lowercase` and `str::to_uppercase` over all of Unicode. -/
structure Casing where
  lowercase : String → String
  uppercase : String → String
  uppercase_ascii : ∀ s, (∀ c ∈ s.toList, c.toNat < 128) → uppercase s = toUppercase s

def Casing.ascii : Casing := ⟨toLowercase, toUppercase, fun _ _ => rfl⟩

def Asset.ofString? (s : String) : Option Asset :=
  match toLowercase s with
  | "sol" => some .sol
  | "btc" => some .btc
  | "eth" => some .eth
  | _ => none

/-! ### Messages -/

structure SignupMsg where
  userId : Nat
  queueId : String
  identifier : String

structure OnrampMsg where
  userId : Nat
  qty : Nat
  queueId : String
  identifier : String

structure DepositMsg where
  userId : Nat
  symbol : String
  qty : Nat
  queueId : String
  identifier : String

structure OrderMsg where
  userId : Nat
  asset : String
  side : String
  orderType : OrderType
  price : Int64
  qty : Int64
  slippagePct : Option Float
  timeInForce : TimeInForce
  queueId : String
  identifier : String

structure CancelMsg where
  userId : Nat
  orderId : Nat
  queueId : String
  identifier : String

structure BalanceQueryMsg where
  userId : Nat
  queueId : String
  identifier : String

structure OrderbookQueryMsg where
  asset : String
  queueId : String
  identifier : String

structure OpenOrdersQueryMsg where
  userId : Nat
  queueId : String
  identifier : String

structure OrderStatusQueryMsg where
  userId : Nat
  orderId : Nat
  queueId : String
  identifier : String

structure ResetMsg where
  queueId : String
  identifier : String

/-! ### Execution events and replies -/

inductive ExecutionEvent where
  | orderCreated (orderId : Nat) (userId : Nat) (market side : String) (price : Nat)
      (originalQty remainingQty : Nat) (status : String)
  | tradeExecuted (makerOrderId takerOrderId : Nat) (buyerId sellerId : Nat)
      (market : String) (price : Nat) (qty : Nat) (quoteAmount : Nat)
      (makerRemainingQty takerRemainingQty : Nat) (buyerFee sellerFee : Nat)
  | orderCancelled (orderId : Nat) (userId : Nat) (remainingQty : Nat)
  | fundingExecuted (userId : Nat) (currency : String) (amount : Nat) (operationType : String)
  | depthUpdated (market : String) (bids asks : List (Nat × Nat))
  deriving DecidableEq, Repr

structure OpenOrderInfo where
  orderId : Nat
  userId : Nat
  side : String
  price : Nat
  remainingQty : Nat
  market : String
  deriving DecidableEq, Repr

inductive Reply where
  | balance (identifier : String) (usdBalance : Balance)
      (stockBalance : Std.ExtTreeMap String Balance)
  | order (identifier : String) (orderId : Option Nat) (status error : Option String)
      (statusCode : Option Nat)
  | cancel (identifier : String) (orderId : Option Nat) (remainingQty : Option Nat)
      (message error : Option String)
  | openOrders (identifier : String) (orders : List OpenOrderInfo)
  | orderStatus (identifier : String) (order : Option OpenOrderInfo) (status error : Option String)
  | orderbook (identifier : String) (bids asks : List LevelSnapshot)
  | generic (identifier message : String)

/-- What a handler publishes: a reply to a response queue, or an event on the executions stream. -/
inductive Output where
  | reply (channel : String) (payload : Reply)
  | execution (event : ExecutionEvent)

/-! ### Streams -/

/-- The id `ms-seq` of a stream entry; ids compare by time first. -/
abbrev StreamId := ℕ ×ₗ ℕ

/-- `"0-0"`, before every entry. -/
def StreamId.zero : StreamId := toLex (0, 0)

end CexRs
