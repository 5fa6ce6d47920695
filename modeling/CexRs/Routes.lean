import CexRs.Handlers

/-!
# Funding routes

The two routes of `routes/balance.rs` that send money to the engine, with the checks of their bodies in
`dto/mod.rs`. A request that fails a check is answered with status 400 and a message; the others become
a message to the engine. The identifier is a fresh UUID.
-/

namespace CexRs

structure OnrampBody where
  qty : UInt64

structure DepositBody where
  qty : UInt64

def OnrampBody.validate (body : OnrampBody) : Except String Unit :=
  if body.qty = 0 then throw "Onramp quantity must be greater than zero" else return

def DepositBody.validate (body : DepositBody) : Except String Unit :=
  if body.qty = 0 then throw "Deposit quantity must be greater than zero" else return

section Routes

variable (queueId identifier : String) (auth : Nat)

def onramp (body : OnrampBody) : Except String OnrampMsg := do
  body.validate
  return { userId := auth, qty := body.qty.toNat, queueId, identifier }

def deposit (path : String) (body : DepositBody) : Except String DepositMsg := do
  body.validate
  let assetLower := toLowercase path
  if assetLower ∉ ["sol", "btc", "eth"] then throw "Supported assets are SOL, BTC, ETH"
  return { userId := auth, symbol := assetLower, qty := body.qty.toNat, queueId, identifier }

end Routes

inductive FundingRequest where
  | onramp (identifier : String) (auth : Nat) (body : OnrampBody)
  | deposit (identifier : String) (auth : Nat) (path : String) (body : DepositBody)

/-- The message that the gateway sends for a request, if it admits it. -/
def FundingRequest.send (queueId : String) : FundingRequest → Option Msg
  | .onramp identifier auth body => (CexRs.onramp queueId identifier auth body).toOption.map .onramp
  | .deposit identifier auth path body =>
      (CexRs.deposit queueId identifier auth path body).toOption.map .deposit

end CexRs
