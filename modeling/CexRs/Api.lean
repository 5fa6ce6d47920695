import CexRs.Exchange
import CexRs.Routes

/-!
# The API

The routes of `routes/orders.rs`, `routes/balance.rs` and `routes/orderbook.rs` that ask the engine, with
the check of an order in `dto/mod.rs`. A route answers at once, or it sends a message with
`send_and_wait` and makes its response of the reply. The user has been authenticated, and the body has
been read: a field that it lacks has its default.
-/

namespace CexRs

/-! ### Responses -/

inductive ResponseBody where
  | message (text : String)
  | order (orderId : Option Nat) (status : String)
  | cancelled (orderId remainingQty : Option Nat) (message : String)
  | openOrders (orders : List OpenOrderInfo)
  | balances (message : String) (usdBalance : Balance) (stockBalance : Std.ExtTreeMap String Balance)
  | orderbook (asset : String) (bids asks : List LevelSnapshot)
  -- `ErrorInternalServerError`
  | failure (error : CallError)

structure HttpResponse where
  statusCode : Nat
  body : ResponseBody

def HttpResponse.badRequest (err : String) : HttpResponse := ⟨400, .message err⟩

def HttpResponse.failed (error : CallError) : HttpResponse := ⟨500, .failure error⟩

/-- What `send_and_wait` sends, and the response to what it returns. -/
inductive Route where
  | answer (response : HttpResponse)
  | send (msg : Msg) (respond : Reply → HttpResponse)

def Route.response : Route → Option (CallPhase Reply) → Option HttpResponse
  | .answer response, _ => some response
  | .send _ respond, some (.returned (.ok reply)) => some (respond reply)
  | .send .., some (.returned (.error error)) => some (.failed error)
  | .send .., _ => none

/-! ### Orders -/

structure OrderBody where
  asset : String
  side : String
  orderType : String := "limit"
  price : Int64 := 0
  qty : Int64
  slippagePct : Option Float := none
  timeInForce : Option String := none

section Orders

variable (casing : Casing)

def OrderBody.validate (body : OrderBody) : Except String Unit :=
  let otype := casing.lowercase body.orderType
  if toLowercase body.asset ∉ ["sol", "btc", "eth"] then
    .error "Supported assets are SOL, BTC, ETH"
  else if body.side ≠ "bid" ∧ body.side ≠ "ask" then .error "Side must be 'bid' or 'ask'"
  else if otype ≠ "limit" ∧ otype ≠ "market" then .error "Order type must be 'limit' or 'market'"
  else if otype = "limit" ∧ body.price.toInt ≤ 0 then .error "Order price must be positive"
  else if body.qty.toInt ≤ 0 then .error "Order quantity must be positive"
  else if body.slippagePct.any fun s => s ≤ 0 || 50 < s then
    .error "Slippage percentage must be between 0 and 50"
  else
    match body.timeInForce.map casing.uppercase with
    | none => .ok ()
    | some t =>
        if t ≠ "GTC" ∧ t ≠ "FOK" ∧ t ≠ "IOC" then .error "Invalid time in force" else .ok ()

def OrderBody.toOrderType (body : OrderBody) : OrderType :=
  match casing.lowercase body.orderType with
  | "market" => .market
  | _ => .limit

def OrderBody.toTimeInForce (body : OrderBody) : TimeInForce :=
  match body.timeInForce.map casing.uppercase with
  | some "IOC" => .ioc
  | some "FOK" => .fok
  | _ => .gtc

variable (queueId identifier : String) (auth : Nat)

/-- `StatusCode::from_u16`, which takes three digits, or else the status of an internal error. -/
def statusOf (statusCode : Option Nat) : Nat :=
  let code := statusCode.getD 500
  if 100 ≤ code ∧ code < 1000 then code else 500

def OrderBody.toMsg (body : OrderBody) : OrderMsg where
  userId := auth
  asset := body.asset
  side := body.side
  orderType := body.toOrderType casing
  price := body.price
  qty := body.qty
  slippagePct := body.slippagePct
  timeInForce := body.toTimeInForce casing
  queueId := queueId
  identifier := identifier

def placeOrder (body : OrderBody) : Route :=
  match body.validate casing with
  | .error err => .answer (.badRequest err)
  | .ok () => .send (.order (body.toMsg casing queueId identifier auth)) fun
      | .order _ _ _ (some err) statusCode => ⟨statusOf statusCode, .message err⟩
      | .order _ orderId status none _ => ⟨201, .order orderId (status.getD "open")⟩
      | _ => .failed .deserialization

def cancelOrder (orderId : Nat) : Route :=
  .send (.cancel { userId := auth, orderId, queueId, identifier }) fun
    | .cancel _ _ _ _ (some err) => ⟨404, .message err⟩
    | .cancel _ orderId remainingQty message none =>
        ⟨200, .cancelled orderId remainingQty (message.getD "Order cancelled")⟩
    | _ => .failed .deserialization

def getOpenOrders : Route :=
  .send (.openOrders { userId := auth, queueId, identifier }) fun
    | .openOrders _ orders => ⟨200, .openOrders orders⟩
    | _ => .failed .deserialization

end Orders

/-! ### Balances and books -/

section Balances

variable (queueId identifier : String) (auth : Nat)

def balanceResponse (message : String) : Reply → HttpResponse
  | .balance _ usdBalance stockBalance => ⟨200, .balances message usdBalance stockBalance⟩
  | _ => .failed .deserialization

def getBalance : Route :=
  .send (.balance { userId := auth, queueId, identifier }) (balanceResponse "user Balance")

def onrampRoute (body : OnrampBody) : Route :=
  match onramp queueId identifier auth body with
  | .error err => .answer (.badRequest err)
  | .ok msg => .send (.onramp msg) (balanceResponse "onramped successfully")

def depositRoute (path : String) (body : DepositBody) : Route :=
  match deposit queueId identifier auth path body with
  | .error err => .answer (.badRequest err)
  | .ok msg => .send (.deposit msg) (balanceResponse "Deposited successfully")

/-- The path is tested in lower case and goes to the engine as it stands. -/
def getOrderbookRoute (path : String) : Route :=
  if toLowercase path ∉ ["sol", "btc", "eth"] then .answer (.badRequest "Supported assets are SOL, BTC, ETH")
  else .send (.orderbook { asset := path, queueId, identifier }) fun
    | .orderbook _ bids asks => ⟨200, .orderbook path bids asks⟩
    | _ => .failed .deserialization

end Balances

inductive ApiRequest where
  | placeOrder (auth : Nat) (body : OrderBody)
  | cancelOrder (auth : Nat) (orderId : Nat)
  | getOpenOrders (auth : Nat)
  | getBalance (auth : Nat)
  | onramp (auth : Nat) (body : OnrampBody)
  | deposit (auth : Nat) (path : String) (body : DepositBody)
  | getOrderbook (path : String)

def ApiRequest.route (casing : Casing) (queueId identifier : String) : ApiRequest → Route
  | .placeOrder auth body => CexRs.placeOrder casing queueId identifier auth body
  | .cancelOrder auth orderId => CexRs.cancelOrder queueId identifier auth orderId
  | .getOpenOrders auth => CexRs.getOpenOrders queueId identifier auth
  | .getBalance auth => CexRs.getBalance queueId identifier auth
  | .onramp auth body => onrampRoute queueId identifier auth body
  | .deposit auth path body => depositRoute queueId identifier auth path body
  | .getOrderbook path => getOrderbookRoute queueId identifier path

end CexRs
