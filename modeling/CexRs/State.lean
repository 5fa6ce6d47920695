import CexRs.Orderbook

/-!
# Engine state

`state.rs`. The accessors `usd_mut` and `asset_mut` create a missing entry and hand out a reference to
it; here they take the function that the code applies through that reference.
-/

namespace CexRs

open FixedWidth

structure EngineState where
  usdBalance : Std.ExtTreeMap Nat Balance
  stockBalance : Std.ExtTreeMap Nat (Std.ExtTreeMap String Balance)
  solOrderbook : Orderbook
  btcOrderbook : Orderbook
  ethOrderbook : Orderbook
  nextOrderId : Nat
  feeSchedule : FeeSchedule

namespace Balance

variable (A : Arith)

def lock (amount : Nat) (b : Balance) : Except Fault Balance := do
  let available ← A.sub b.available amount
  let locked ← A.add b.locked amount
  return { available, locked }

def unlock (amount : Nat) (b : Balance) : Except Fault Balance := do
  let locked ← A.sub b.locked amount
  let available ← A.add b.available amount
  return { available, locked }

def credit (amount : Nat) (b : Balance) : Except Fault Balance := do
  return { b with available := ← A.add b.available amount }

def spend (amount : Nat) (b : Balance) : Except Fault Balance := do
  return { b with locked := ← A.sub b.locked amount }

end Balance

namespace EngineState

variable (s : EngineState)

def new (fees : FeeSchedule) : EngineState where
  usdBalance := ∅
  stockBalance := ∅
  solOrderbook := Orderbook.new "SOL-USDT"
  btcOrderbook := Orderbook.new "BTC-USDT"
  ethOrderbook := Orderbook.new "ETH-USDT"
  nextOrderId := 1
  feeSchedule := fees

def reset : EngineState :=
  { s with
    usdBalance := ∅
    stockBalance := ∅
    solOrderbook := s.solOrderbook.reset
    btcOrderbook := s.btcOrderbook.reset
    ethOrderbook := s.ethOrderbook.reset
    nextOrderId := 1 }

/-- `next_order_id`: the id handed out, and the state with its counter moved on. -/
def drawOrderId (A : Arith) : Except Fault (Nat × EngineState) := do
  let id := s.nextOrderId
  return (id, { s with nextOrderId := ← A.next s.nextOrderId })

def book : Asset → Orderbook
  | .sol => s.solOrderbook
  | .btc => s.btcOrderbook
  | .eth => s.ethOrderbook

def setBook (asset : Asset) (ob : Orderbook) : EngineState :=
  match asset with
  | .sol => { s with solOrderbook := ob }
  | .btc => { s with btcOrderbook := ob }
  | .eth => { s with ethOrderbook := ob }

def getOrderbook (asset : String) : Option Orderbook := (Asset.ofString? asset).map s.book

/-- A user's USD balance; a missing entry reads as zero. -/
def usd (user : Nat) : Balance := s.usdBalance[user]?.getD {}

/-- A user's balance under a symbol; a missing entry reads as zero. -/
def stock (user : Nat) (symbol : String) : Balance :=
  (s.stockBalance[user]?.getD ∅)[symbol]?.getD {}

def asset (user : Nat) (asset : Asset) : Balance := s.stock user asset.symbol

def usdMut (user : Nat) (f : Balance → Except Fault Balance) : Except Fault EngineState := do
  let b ← f (s.usd user)
  return { s with usdBalance := s.usdBalance.insert user b }

def stockMut (user : Nat) (symbol : String) (f : Balance → Except Fault Balance) :
    Except Fault EngineState := do
  let b ← f (s.stock user symbol)
  return { s with
    stockBalance := s.stockBalance.insert user
      ((s.stockBalance[user]?.getD ∅).insert symbol b) }

def assetMut (user : Nat) (asset : Asset) (f : Balance → Except Fault Balance) :
    Except Fault EngineState :=
  s.stockMut user asset.symbol f

end EngineState

end CexRs
