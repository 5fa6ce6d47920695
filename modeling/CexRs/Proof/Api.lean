import CexRs.Api
import CexRs.Proof.Availability
import CexRs.Proof.Replies
import CexRs.Proof.Resets
import CexRs.Proof.Withdrawal

/-!
# What the API answers

An order that passes the gateway's check passes the engine's, so that all the engine can still refuse it
for is want of funds or of asks. The reply that a call returns is the engine's to that call's message, and
the response says what the engine has done with it, in either build and with whatever wraps: quantities of
an order cannot, since they add up to no more than the order's.
-/

namespace CexRs

open FixedWidth OrderedMap EngineState

/-! ### Bodies that pass -/

section Bodies

variable {casing : Casing} {body : OrderBody}

theorem asset_of_supported {name : String} (h : toLowercase name ∈ ["sol", "btc", "eth"]) :
    ∃ asset, Asset.ofString? name = some asset := by
  simp only [List.mem_cons, List.not_mem_nil, or_false] at h
  unfold Asset.ofString?
  rcases h with h | h | h
  · exact ⟨.sol, by simp [h]⟩
  · exact ⟨.btc, by simp [h]⟩
  · exact ⟨.eth, by simp [h]⟩

theorem side_of_name {name : String} (h : ¬ (name ≠ "bid" ∧ name ≠ "ask")) :
    ∃ side, Side.ofString? name = some side := by
  rw [not_and_or, not_not, not_not] at h
  unfold Side.ofString?
  rcases h with h | h
  · exact ⟨.bid, by simp [h]⟩
  · exact ⟨.ask, by simp [h]⟩

/-- The message of an order that passes has the form that the engine asks for. -/
theorem OrderBody.wellFormed (h : body.validate casing = .ok ()) (queueId identifier : String)
    (auth : Nat) :
    ∃ asset side, WellFormed (body.toMsg casing queueId identifier auth) asset side := by
  unfold OrderBody.validate at h
  dsimp only at h
  split at h
  · cases h
  · next hasset =>
    split at h
    · cases h
    · next hside =>
      split at h
      · cases h
      · next htype =>
        split at h
        · cases h
        · next hprice =>
          split at h
          · cases h
          · next hqty =>
            obtain ⟨asset, hasset⟩ := asset_of_supported (not_not.mp hasset)
            obtain ⟨side, hside⟩ := side_of_name hside
            refine ⟨asset, side, hasset, hside, not_le.mp hqty, fun hlimit => ?_⟩
            have hnot : casing.lowercase body.orderType ≠ "market" := by
              intro hmarket
              simp [OrderBody.toMsg, OrderBody.toOrderType, hmarket] at hlimit
            have hotype : casing.lowercase body.orderType = "limit" := by
              by_contra hother
              exact htype ⟨hother, hnot⟩
            exact not_le.mp fun hle => hprice ⟨hotype, hle⟩

end Bodies

/-! ### Refusals -/

def SameBalances (s s' : EngineState) : Prop :=
  ∀ user currency, s'.balance user currency = s.balance user currency

theorem SameBalances.refl (s : EngineState) : SameBalances s s := fun _ _ => rfl

/-- Entering a balance that reads as it did changes none. -/
theorem sameBalances_touch (s : EngineState) (user : Nat) (currency : Currency) :
    SameBalances s (s.withBalance user currency (s.balance user currency)) := by
  intro user' currency'
  rw [balance_withBalance]
  split
  · next h => rw [h.1, h.2]
  · rfl

/-- Funds that do not suffice are left alone, in any build. -/
theorem lockUsd_declined (A : Arith) (s : EngineState) (user amount : Nat) :
    Meets (fun _ => True) (lockUsd A s user amount) fun r => r.2 = false → SameBalances s r.1 := by
  unfold lockUsd
  change Meets _ (if _ then _ else _) _
  split
  · exact meets_ok.mpr fun _ => sameBalances_touch s user .usd
  · exact (meets_anything _).bind fun _ _ => meets_ok.mpr (by simp)

theorem lockAsset_declined (A : Arith) (s : EngineState) (user : Nat) (asset : Asset) (amount : Nat) :
    Meets (fun _ => True) (lockAsset A s user asset amount) fun r => r.2 = false → SameBalances s r.1 := by
  unfold lockAsset
  change Meets _ (if _ then _ else _) _
  split
  · exact meets_ok.mpr fun _ => sameBalances_touch s user (.stock asset.symbol)
  · exact (meets_anything _).bind fun _ _ => meets_ok.mpr (by simp)

def refusals (asset : Asset) : Side → OrderType → List String
  | .bid, .limit => ["Insufficient USD"]
  | .bid, .market => ["Insufficient USD", "No ask liquidity available within slippage limit"]
  | .ask, _ => ["Insufficient " ++ asset.upper]

/-- The quantity that has been counted is that of the events, unless it has left the word. -/
def Settlement.Counted (A : Arith) (settled : Settlement) : Prop :=
  (settled.events.map ExecutionEvent.tradedQty).sum < 2 ^ A.bits →
    settled.filledQty = (settled.events.map ExecutionEvent.tradedQty).sum

section Reported

variable (A : Arith) (s : EngineState) (builtins : Builtins) (msg : OrderMsg) (asset : Asset)
  (side : Side) (qty : Nat)

theorem Settlement.Counted.next {A : Arith} {acc acc' : Settlement} {event : ExecutionEvent}
    (h : acc.Counted A) (hevents : acc'.events = acc.events ++ [event])
    (hfilled : A.add acc.filledQty event.tradedQty = .ok acc'.filledQty) : acc'.Counted A := by
  intro hlt
  simp only [hevents, List.map_append, List.map_cons, List.map_nil, List.sum_append,
    List.sum_singleton] at hlt ⊢
  rw [h (by omega), A.add_of_lt hlt] at hfilled
  exact (Except.ok.inj hfilled).symm

theorem settleResults_counted (results : List MatchResult) :
    Meets (fun _ => True) (settleResults A s asset side results) (Settlement.Counted A) := by
  refine meets_foldlM (fun _ => rfl) fun acc hacc result _ => ?_
  cases result with
  | orderAccepted accepted => exact hacc
  | trade trade =>
      have hadd : Meets (fun _ => True) (A.add acc.filledQty trade.qty) fun filledQty =>
          A.add acc.filledQty trade.qty = .ok filledQty :=
        (meets_anything _).imp fun _ hfilled _ => hfilled
      unfold settleResult
      refine (meets_anything _).bind fun r _ => hadd.bind fun filledQty hfilled =>
        (meets_anything _).bind fun quoteAmount _ => ?_
      dsimp only
      split
      · exact (meets_anything _).bind fun _ _ => (meets_anything _).bind fun _ _ =>
          meets_ok.mpr (hacc.next rfl hfilled)
      · exact meets_ok.mpr (hacc.next rfl hfilled)

/-- A verdict on a well-formed order: refused for one of its reasons with every balance as it was, or
placed and counted. -/
def Verdict.Reported : Verdict → Prop
  | .refused s' reply => SameBalances s s' ∧ (reply = unfilledReply msg ∨
      ∃ error ∈ refusals asset side msg.orderType,
        reply = replyError msg.queueId msg.identifier error 400)
  | .placed p => p.settlement.Counted A

theorem placeLimit_counted (price totalLock : Nat) :
    Meets (fun _ => True) (placeLimit A s msg asset side price qty totalLock)
      fun p => p.settlement.Counted A := by
  unfold placeLimit
  refine (meets_anything _).bind fun drawn _ => (meets_anything _).bind fun r _ =>
    (meets_anything _).bind fun results _ => ?_
  refine (settleResults_counted A _ asset side results).bind fun settled hsettled => ?_
  unfold reconcile
  cases side with
  | bid =>
      exact (meets_anything _).bind fun _ _ => (meets_anything _).bind fun _ _ => meets_ok.mpr hsettled
  | ask =>
      exact (meets_anything _).bind fun _ _ => (meets_anything _).bind fun _ _ => meets_ok.mpr hsettled

theorem placeMarket_counted (worst : Option Nat) :
    Meets (fun _ => True) (placeMarket A s msg asset side qty worst) (Settlement.Counted A) := by
  unfold placeMarket
  exact (meets_anything _).bind fun _ _ => (meets_anything _).bind fun _ _ =>
    (meets_anything _).bind fun _ _ => settleResults_counted A _ asset side _

variable {s msg asset side} in
theorem refused_reported {s' : EngineState} (hfunds : SameBalances s s') {error : String}
    (herror : error ∈ refusals asset side msg.orderType) :
    Meets (fun _ => True) (.ok (.refused s' (replyError msg.queueId msg.identifier error 400)))
      (Verdict.Reported A s msg asset side) :=
  meets_ok.mpr ⟨hfunds, .inr ⟨error, herror, rfl⟩⟩

theorem handleLimit_reported (hlimit : msg.orderType = .limit) (hprice : 0 < msg.price.toInt) :
    Meets (fun _ => True) (handleLimit A s msg asset side qty) (Verdict.Reported A s msg asset side) := by
  unfold handleLimit
  rw [if_neg (not_le.mpr hprice)]
  refine (meets_anything _).bind fun _ _ => (meets_anything _).bind fun _ _ =>
    (meets_anything _).bind fun _ _ => ?_
  cases side with
  | bid =>
      refine (lockUsd_declined A s msg.userId _).bind fun r hfunds => ?_
      dsimp only
      split
      · next hdeclined => exact refused_reported A (hfunds hdeclined) (by simp [refusals, hlimit])
      · exact (placeLimit_counted ..).bind fun _ h => meets_ok.mpr h
  | ask =>
      refine (lockAsset_declined A s msg.userId asset _).bind fun r hfunds => ?_
      dsimp only
      split
      · next hdeclined => exact refused_reported A (hfunds hdeclined) (by simp [refusals])
      · exact (placeLimit_counted ..).bind fun _ h => meets_ok.mpr h

theorem handleMarketSell_reported :
    Meets (fun _ => True) (handleMarketSell A s builtins msg asset qty)
      (Verdict.Reported A s msg asset .ask) := by
  unfold handleMarketSell
  refine (meets_anything _).bind fun _ _ => ?_
  split
  · exact meets_ok.mpr ⟨SameBalances.refl s, .inl rfl⟩
  · refine (lockAsset_declined A s msg.userId asset _).bind fun r hfunds => ?_
    dsimp only
    split
    · next hdeclined => exact refused_reported A (hfunds hdeclined) (by simp [refusals])
    · exact (placeMarket_counted ..).bind fun _ h => (meets_anything _).bind fun _ _ =>
        (meets_anything _).bind fun _ _ => meets_ok.mpr h

theorem handleMarketBuy_reported (hmarket : msg.orderType = .market) :
    Meets (fun _ => True) (handleMarketBuy A s builtins msg asset qty)
      (Verdict.Reported A s msg asset .bid) := by
  unfold handleMarketBuy
  refine (meets_anything _).bind fun r _ => ?_
  dsimp only
  split
  · exact meets_ok.mpr ⟨SameBalances.refl s, .inl rfl⟩
  · split
    · exact refused_reported A (SameBalances.refl s) (by simp [refusals, hmarket])
    · refine (meets_anything _).bind fun _ _ => (meets_anything _).bind fun _ _ =>
        (lockUsd_declined A s msg.userId _).bind fun r hfunds => ?_
      split
      · next hdeclined => exact refused_reported A (hfunds hdeclined) (by simp [refusals, hmarket])
      · exact (placeMarket_counted ..).bind fun _ h => (meets_anything _).bind fun _ _ => meets_ok.mpr h

/-- Of the refusals, a well-formed order meets those for its type and side. -/
theorem judgeOrder_reported (hform : WellFormed msg asset side) :
    Meets (fun _ => True) (judgeOrder A s builtins msg) (Verdict.Reported A s msg asset side) := by
  unfold judgeOrder
  simp only [hform.asset, hform.side, if_neg (not_le.mpr hform.positive)]
  cases htype : msg.orderType with
  | limit => exact handleLimit_reported A s msg asset side _ htype (hform.priced htype)
  | market =>
      cases side with
      | ask => exact handleMarketSell_reported A s builtins msg asset _
      | bid => exact handleMarketBuy_reported A s builtins msg asset _ htype

end Reported

/-! ### Orders -/

section Orders

variable {checks : Bool} {builtins : Builtins} {s : EngineState} {msg : OrderMsg} {asset : Asset}
  {side : Side}

/-- Whatever else wraps, the quantity that an order has traded does not: it is part of the order's. -/
theorem Enters.filled_add {A : Arith} (hbits : A.bits = 64) {found : Bool} {fs : List (Order × Nat)}
    {m : Matching} {p : Placement} (h : Enters A builtins s msg side found fs m p)
    (hcounted : p.settlement.Counted A) :
    p.settlement.filledQty = (fs.map Prod.snd).sum ∧
      p.settlement.filledQty + m.remainingQty = msg.qty.toInt.toNat := by
  have htotal := sum_tradedQty h.filled.reports
  rw [Matching.sum_qty_trades] at htotal
  have hremaining := h.filled.executed.took.fills.remaining
  have hword := msg.qty.toInt_lt
  simp only at hremaining
  have hfilled := hcounted (by rw [htotal, hbits]; omega)
  omega

/-- The reply to a well-formed order tells what was done with it, or it was refused and nothing was. -/
theorem handleOrder_reports (hv : s.Valid) (hform : WellFormed msg asset side) :
    Meets (fun _ => True) (handleOrder (u64 checks) s builtins msg) fun r =>
      (∃ orderId status, repliesTo (replyQueue msg.queueId) r.2
          = [.order msg.identifier orderId (some status) none none] ∧
        TellsTruth s r.1 msg (tradedQty r.2) orderId (some status)) ∨
      ∃ error ∈ refusals asset side msg.orderType, repliesTo (replyQueue msg.queueId) r.2
          = [.order msg.identifier none none (some error) (some 400)] ∧
        SameVenue s r.1 ∧ SameBalances s r.1 ∧ executions r.2 = [] := by
  have hpositive := hform.positive
  have hjudge : Meets (fun _ => True) (judgeOrder (u64 checks) s builtins msg) fun verdict =>
      VerdictVenue (u64 checks) builtins s msg verdict ∧
        verdict.Reported (u64 checks) s msg asset side :=
    (judgeOrder_reported _ s builtins msg asset side hform).imp fun verdict hverdict hreported =>
      ⟨(judgeOrder_venue (u64 checks) msg hv.book).of_ok hverdict, hreported⟩
  unfold handleOrder
  refine hjudge.bind fun verdict hverdict => ?_
  cases verdict with
  | refused s' reply =>
      obtain ⟨⟨hvenue, _⟩, hfunds, hreported⟩ := hverdict
      rcases hreported with rfl | ⟨error, herror, rfl⟩
      · exact .inl ⟨none, "unfilled", by simp [unfilledReply],
          tellsTruth_unfilled hv hvenue (by omega)⟩
      · exact .inr ⟨error, herror, by simp [replyError], hvenue, hfunds, rfl⟩
  | placed p =>
      obtain ⟨⟨side', found, fs, m, hp⟩, hcounted⟩ := hverdict
      obtain ⟨hfilled, hsum⟩ := hp.filled_add rfl hcounted
      refine (depthEvent_arithmetic (u64 checks) p.state p.asset).weaken (fun _ _ => trivial) |>.bind ?_
      rintro _ ⟨bids, asks, rfl⟩
      refine meets_ok.mpr (.inl ⟨p.settlement.resting.map OrderAccepted.orderId,
        orderStatus msg.qty.toInt.toNat p.settlement, by simp [placedReply], ?_⟩)
      rw [tradedQty_placed msg hp.filled.resting hp.filled.reports, ← hfilled]
      exact hp.filled.executed.tellsTruth hv hp.filled.resting hsum (by omega)

end Orders

/-! ### Cancellations -/

/-- The reply to a cancellation: the order was taken out, or it is another's, or it rests nowhere. -/
theorem handleCancel_reports {A : Arith} {s : EngineState} (hv : s.Valid) (msg : CancelMsg) :
    Meets (fun _ => True) (handleCancel A s msg) fun r =>
      (∃ asset o, Rests s msg.orderId asset o ∧ o.userId = msg.userId ∧ TakesOut s r.1 asset o ∧
        repliesTo (replyQueue msg.queueId) r.2 = [.cancel msg.identifier (some msg.orderId)
          (some o.remainingQty) (some "Order cancelled") none]) ∨
      r.1 = s ∧ ((∃ asset o, Rests s msg.orderId asset o ∧ o.userId ≠ msg.userId) ∧
          repliesTo (replyQueue msg.queueId) r.2
            = [.cancel msg.identifier none none none (some "Not order owner")] ∨
        (∀ asset o, ¬ Rests s msg.orderId asset o) ∧ repliesTo (replyQueue msg.queueId) r.2
            = [.cancel msg.identifier none none none (some "Open order not found")]) := by
  unfold handleCancel
  rcases cancelInBooks_spec s hv.book msg.orderId msg.userId Asset.all with
    ⟨hrun, hothers⟩ | ⟨asset, o, hget, huser, hrun⟩
  · rw [hrun]
    refine meets_ok.mpr (.inr ⟨rfl, ?_⟩)
    cases hany : Asset.all.any fun asset => ((s.book asset).getOrder msg.orderId).isSome with
    | true =>
        obtain ⟨asset, hmem, hsome⟩ := List.any_eq_true.mp hany
        obtain ⟨o, hget⟩ := Option.isSome_iff_exists.mp hsome
        exact .inl ⟨⟨asset, o, hget, hothers asset hmem o hget⟩, by simp [replyCancelError]⟩
    | false =>
        refine .inr ⟨fun asset o hrests => ?_, by simp [replyCancelError]⟩
        have hnone := List.any_eq_false.mp hany asset (by cases asset <;> decide)
        exact hnone (Option.isSome_iff_exists.mpr ⟨o, hrests⟩)
  · rw [hrun]
    have hid := (hv.book asset).orderId_eq hget
    refine (refundCancelled_venue A _ asset (cancelled o)).weaken (fun _ _ => trivial)
      |>.bind fun s' hvenue => ?_
    refine (depthEvent_arithmetic A s' asset).weaken (fun _ _ => trivial) |>.bind ?_
    rintro _ ⟨bids, asks, rfl⟩
    refine meets_ok.mpr (.inl ⟨asset, o, hget, huser,
      takesOut_remove hv (hid.symm ▸ hget) hvenue, ?_⟩)
    simp [cancelled, hid]

/-! ### The contract -/

/-- The build's sum of a user's available balance and an amount has taken its place, and nothing else has
changed. -/
structure Credits (A : Arith) (s s' : EngineState) (user : Nat) (currency : Currency) (amount : Nat) :
    Prop where
  available : A.add (s.balance user currency).available amount = .ok (s'.balance user currency).available
  locked : (s'.balance user currency).locked = (s.balance user currency).locked
  others : ∀ user' currency', ¬ (user = user' ∧ currency = currency') →
    s'.balance user' currency' = s.balance user' currency'
  venue : SameVenue s s'

theorem credits_of_credit {A : Arith} {s : EngineState} {user amount : Nat} {currency : Currency}
    {b : Balance} (h : Balance.credit A amount (s.balance user currency) = .ok b) :
    Credits A s (s.withBalance user currency b) user currency amount := by
  obtain ⟨available, hadd, hb⟩ := bind_ok h
  cases hb
  refine ⟨?_, ?_, fun user' currency' hother => ?_, sameVenue_withBalance ..⟩
  · rw [balance_withBalance, if_pos ⟨rfl, rfl⟩]
    exact hadd
  · rw [balance_withBalance, if_pos ⟨rfl, rfl⟩]
  · rw [balance_withBalance, if_neg hother]

/-- What the response to a request says of the states before and after its message was handled, and of
what was published. -/
inductive ApiRequest.Serves (casing : Casing) (queueId identifier : String) (A : Arith)
    (s s' : EngineState) (outputs : List Output) : ApiRequest → HttpResponse → Prop
  | accepted {auth : Nat} {body : OrderBody} {orderId : Option Nat} {status : String}
      (htruth : TellsTruth s s' (body.toMsg casing queueId identifier auth) (tradedQty outputs) orderId
        (some status)) :
      Serves casing queueId identifier A s s' outputs (.placeOrder auth body)
        ⟨201, .order orderId status⟩
  | refused {auth : Nat} {body : OrderBody} {asset : Asset} {side : Side} {error : String}
      (hform : WellFormed (body.toMsg casing queueId identifier auth) asset side)
      (herror : error ∈ refusals asset side (body.toOrderType casing)) (hvenue : SameVenue s s')
      (hfunds : SameBalances s s') (hsilent : executions outputs = []) :
      Serves casing queueId identifier A s s' outputs (.placeOrder auth body) ⟨400, .message error⟩
  | cancelled {auth orderId : Nat} {asset : Asset} {o : Order} (hrests : Rests s orderId asset o)
      (howner : o.userId = auth) (hgone : TakesOut s s' asset o) :
      Serves casing queueId identifier A s s' outputs (.cancelOrder auth orderId)
        ⟨200, .cancelled (some orderId) (some o.remainingQty) "Order cancelled"⟩
  | notOwner {auth orderId : Nat} {asset : Asset} {o : Order} (hrests : Rests s orderId asset o)
      (hother : o.userId ≠ auth) (hsame : s' = s) :
      Serves casing queueId identifier A s s' outputs (.cancelOrder auth orderId)
        ⟨404, .message "Not order owner"⟩
  | notFound {auth orderId : Nat} (hnone : ∀ asset o, ¬ Rests s orderId asset o) (hsame : s' = s) :
      Serves casing queueId identifier A s s' outputs (.cancelOrder auth orderId)
        ⟨404, .message "Open order not found"⟩
  | openOrders {auth : Nat} (hsame : s' = s) :
      Serves casing queueId identifier A s s' outputs (.getOpenOrders auth)
        ⟨200, .openOrders (s.listing auth)⟩
  | balance {auth : Nat} (hsame : s' = s) :
      Serves casing queueId identifier A s s' outputs (.getBalance auth)
        ⟨200, .balances "user Balance" (s.usd auth) (s.stockBalance[auth]?.getD ∅)⟩
  | onramped {auth : Nat} {body : OnrampBody} (hcredits : Credits A s s' auth .usd body.qty.toNat) :
      Serves casing queueId identifier A s s' outputs (.onramp auth body)
        ⟨200, .balances "onramped successfully" (s'.usd auth) (s'.stockBalance[auth]?.getD ∅)⟩
  | deposited {auth : Nat} {path : String} {body : DepositBody}
      (hcredits : Credits A s s' auth (.stock (toLowercase path)) body.qty.toNat) :
      Serves casing queueId identifier A s s' outputs (.deposit auth path body)
        ⟨200, .balances "Deposited successfully" (s'.usd auth) (s'.stockBalance[auth]?.getD ∅)⟩
  | orderbook {path : String} {asset : Asset} {snapshot : OrderbookSnapshot}
      (hnamed : Asset.ofString? path = some asset) (hsnapshot : (s.book asset).getState A = .ok snapshot)
      (hsame : s' = s) :
      Serves casing queueId identifier A s s' outputs (.getOrderbook path)
        ⟨200, .orderbook path snapshot.bids snapshot.asks⟩

section Routes

variable {casing : Casing} {queueId identifier : String} {checks : Bool} {builtins : Builtins}
  {s s' : EngineState} {outputs : List Output} {msg : Msg} {respond : Reply → HttpResponse}
  {payload : Reply}

theorem placeOrder_serves (hv : s.Valid) {auth : Nat} {body : OrderBody}
    (hroute : placeOrder casing queueId identifier auth body = .send msg respond)
    (hhandle : handle (u64 checks) builtins s msg = .ok (s', outputs))
    (hreply : repliesTo (replyQueue queueId) outputs = [payload]) :
    (ApiRequest.placeOrder auth body).Serves casing queueId identifier (u64 checks) s s' outputs
      (respond payload) := by
  unfold placeOrder at hroute
  split at hroute
  · cases hroute
  · next hvalid =>
    cases hroute
    obtain ⟨asset, side, hform⟩ := OrderBody.wellFormed hvalid queueId identifier auth
    rcases (handleOrder_reports hv hform).of_ok hhandle with
      ⟨orderId, status, hsent, htruth⟩ | ⟨error, herror, hsent, hvenue, hfunds, hsilent⟩
    · cases hreply.symm.trans hsent
      exact .accepted htruth
    · cases hreply.symm.trans hsent
      exact .refused hform herror hvenue hfunds hsilent

theorem cancelOrder_serves (hv : s.Valid) {auth orderId : Nat}
    (hroute : cancelOrder queueId identifier auth orderId = .send msg respond)
    (hhandle : handle (u64 checks) builtins s msg = .ok (s', outputs))
    (hreply : repliesTo (replyQueue queueId) outputs = [payload]) :
    (ApiRequest.cancelOrder auth orderId).Serves casing queueId identifier (u64 checks) s s' outputs
      (respond payload) := by
  cases hroute
  rcases (handleCancel_reports hv _).of_ok hhandle with ⟨asset, o, hrests, howner, hgone, hsent⟩ |
    ⟨hsame, ⟨⟨asset, o, hrests, hother⟩, hsent⟩ | ⟨hnone, hsent⟩⟩
  · cases hreply.symm.trans hsent
    exact .cancelled hrests howner hgone
  · cases hreply.symm.trans hsent
    exact .notOwner hrests hother hsame
  · cases hreply.symm.trans hsent
    exact .notFound hnone hsame

theorem balanceReply_eq {user : Nat} :
    repliesTo (replyQueue queueId) [balanceReply s queueId identifier user]
      = [.balance identifier (s.usd user) (s.stockBalance[user]?.getD ∅)] := by
  simp [balanceReply]

theorem onramp_ok {auth : Nat} {body : OnrampBody} {msg : OnrampMsg}
    (h : onramp queueId identifier auth body = .ok msg) :
    msg = { userId := auth, qty := body.qty.toNat, queueId, identifier } := by
  unfold onramp at h
  cases hvalid : body.validate with
  | error err =>
      rw [hvalid] at h
      cases h
  | ok _ =>
      rw [hvalid] at h
      exact (Except.ok.inj h).symm

theorem deposit_ok {auth : Nat} {path : String} {body : DepositBody} {msg : DepositMsg}
    (h : deposit queueId identifier auth path body = .ok msg) :
    msg = { userId := auth, symbol := toLowercase path, qty := body.qty.toNat, queueId,
            identifier } := by
  unfold deposit at h
  cases hvalid : body.validate with
  | error err =>
      rw [hvalid] at h
      cases h
  | ok _ =>
      by_cases hasset : toLowercase path ∈ ["sol", "btc", "eth"]
      · rw [hvalid] at h
        simp only [hasset] at h
        exact (Except.ok.inj h).symm
      · rw [hvalid] at h
        simp only [hasset] at h
        cases h

/-- A message that a route sends is answered with what the route's contract says. -/
theorem ApiRequest.serves (hv : s.Valid) (request : ApiRequest)
    (hroute : request.route casing queueId identifier = .send msg respond)
    (hhandle : handle (u64 checks) builtins s msg = .ok (s', outputs))
    (hreply : repliesTo (replyQueue queueId) outputs = [payload]) :
    request.Serves casing queueId identifier (u64 checks) s s' outputs (respond payload) := by
  cases request with
  | placeOrder auth body => exact placeOrder_serves hv hroute hhandle hreply
  | cancelOrder auth orderId => exact cancelOrder_serves hv hroute hhandle hreply
  | getOpenOrders auth =>
      cases hroute
      cases hhandle
      have hsent : repliesTo (replyQueue queueId)
          (handleGetOpenOrders s { userId := auth, queueId, identifier })
            = [.openOrders identifier (s.listing auth)] := by
        rw [handleGetOpenOrders_eq]
        simp
      cases hreply.symm.trans hsent
      exact .openOrders rfl
  | getBalance auth =>
      cases hroute
      cases hhandle
      cases hreply.symm.trans balanceReply_eq
      exact .balance rfl
  | onramp auth body =>
      simp only [route, onrampRoute] at hroute
      split at hroute
      · cases hroute
      · next hadmitted =>
        cases hroute
        obtain rfl := onramp_ok hadmitted
        obtain ⟨s₁, hcredit, hhandle⟩ := bind_ok hhandle
        cases hhandle
        obtain ⟨b, hb, hcredit⟩ := bind_ok hcredit
        cases hcredit
        rw [repliesTo_execution] at hreply
        cases hreply.symm.trans balanceReply_eq
        have hb : Balance.credit (u64 checks) body.qty.toNat (s.balance auth .usd) = .ok b := hb
        exact .onramped (credits_of_credit hb)
  | deposit auth path body =>
      simp only [route, depositRoute] at hroute
      split at hroute
      · cases hroute
      · next hadmitted =>
        cases hroute
        obtain rfl := deposit_ok hadmitted
        obtain ⟨s₁, hcredit, hhandle⟩ := bind_ok hhandle
        cases hhandle
        obtain ⟨b, hb, hcredit⟩ := bind_ok hcredit
        cases hcredit
        rw [repliesTo_execution] at hreply
        cases hreply.symm.trans balanceReply_eq
        have hb : Balance.credit (u64 checks) body.qty.toNat (s.balance auth (.stock (toLowercase path)))
            = .ok b := hb
        exact .deposited (credits_of_credit hb)
  | getOrderbook path =>
      simp only [route, getOrderbookRoute] at hroute
      split at hroute
      · cases hroute
      · next hasset =>
        cases hroute
        obtain ⟨asset, hnamed⟩ := asset_of_supported (not_not.mp hasset)
        obtain ⟨outputs, hbook, hhandle⟩ := bind_ok hhandle
        cases hhandle
        simp only [handleGetOrderbook, EngineState.getOrderbook, hnamed, Option.map_some] at hbook
        obtain ⟨snapshot, hsnapshot, hbook⟩ := bind_ok hbook
        cases hbook
        have hsent : repliesTo (replyQueue queueId)
            [replyTo queueId (.orderbook identifier snapshot.bids snapshot.asks)]
              = [.orderbook identifier snapshot.bids snapshot.asks] := by simp
        cases hreply.symm.trans hsent
        exact .orderbook hnamed hsnapshot rfl

end Routes

/-! ### Calls that fail -/

namespace Demux

variable {R : Type} {format : ReplyFormat R} {identifier : Nat → String} {d : Demux R}

/-- Why a call fails: its message could not be written or sent, or it was sent a reply that it cannot
read. -/
def Cause (format : ReplyFormat R) (d : Demux R) (call : Nat) (error : CallError) : Prop :=
  error = .serialization ∨ error = .publishing ∨ error = .deserialization ∧
    ∃ n data, d.channels[call]? = some (n, data) ∧ format.decode call data = none

def Explained (format : ReplyFormat R) (d : Demux R) : Prop :=
  ∀ call error, d.calls[call]? = some (.returned (.error error)) → Cause format d call error

theorem Explained.enter (h : d.Explained format) {call : Nat} {phase : CallPhase R}
    (hphase : ∀ error, phase = .returned (.error error) → Cause format d call error) :
    (d.enter call phase).Explained format := by
  intro call' error hget
  simp only [Demux.enter, get_insert] at hget
  split at hget
  · next hcall =>
    subst hcall
    exact hphase error (Option.some.inj hget)
  · exact h call' error hget

/-- The listener sends nothing to a call that has returned. -/
theorem Explained.listen (h : d.Explained format) (data : String) :
    (d.deliver format data).Explained format := by
  rcases deliver_cases format d data with hpass | ⟨id, call, _, _, hsend⟩
  · rw [hpass]
    exact h
  · rw [hsend]
    intro call' error hget
    refine (h call' error hget).imp_right (.imp_right ?_)
    rintro ⟨herror, n, text, hsent, hdecode⟩
    refine ⟨herror, n, text, ?_, hdecode⟩
    by_cases hsame : call = call'
    · subst hsame
      have hreturned : d.hasReturned call = true := hasReturned_of_get hget
      rw [if_pos hreturned]
      exact hsent
    · rwa [get_channels_ne hsame]

theorem Explained.step (hawaiting : d.Awaiting identifier) (h : d.Explained format)
    (action : DemuxAction) : (d.step format identifier action).Explained format := by
  cases action with
  | start call =>
      simp only [Demux.step]
      cases d.calls[call]? with
      | some phase => exact h
      | none =>
          intro call' error hget
          simp only [get_insert] at hget
          split at hget
          · cases hget
          · exact h call' error hget
  | serialize call succeeds =>
      simp only [Demux.step]
      split
      · refine h.enter fun error hphase => ?_
        cases succeeds with
        | true => cases hphase
        | false =>
            cases hphase
            exact .inl rfl
      · exact h
  | publish call succeeds =>
      simp only [Demux.step]
      split
      · refine h.enter fun error hphase => ?_
        cases succeeds with
        | true => cases hphase
        | false =>
            cases hphase
            exact .inr (.inl rfl)
      · exact h
  | wait call =>
      simp only [Demux.step]
      split
      · next hpublished =>
        unfold receive
        split
        · next n data hsent =>
          refine h.enter fun error hphase => ?_
          cases hdecode : format.decode call data with
          | none =>
              rw [hdecode] at hphase
              cases hphase
              exact .inr (.inr ⟨rfl, n, data, hsent, hdecode⟩)
          | some value =>
              rw [hdecode] at hphase
              cases hphase
        · next hnone =>
          -- a call that waits has its sender in the map
          rcases hawaiting call _ hpublished rfl with hsent | hpending
          · exact absurd hnone hsent
          · rw [if_pos hpending]
            exact h
      · exact h
  | listen data => exact h.listen data

theorem Explained.run (hdistinct : Function.Injective identifier) (hsound : d.Sound format identifier)
    (hawaiting : d.Awaiting identifier) (h : d.Explained format) (actions : List DemuxAction) :
    (d.run format identifier actions).Explained format := by
  induction actions generalizing d with
  | nil => exact h
  | cons action actions ih =>
      exact ih (hsound.step action) (hawaiting.step hdistinct hsound action) (h.step hawaiting action)

end Demux

namespace Exchange

variable {R : Type} {cfg : ExchangeConfig R}

/-- What the exchange does to calls, they do among themselves. -/
theorem demux_step (e : Exchange R cfg.engine.codec.Json) (action : ExchangeAction) :
    ∃ actions, (e.step cfg action).demux = e.demux.run cfg.format cfg.identifier actions := by
  cases action with
  | start call => exact ⟨[.start call], rfl⟩
  | serialize call succeeds => exact ⟨[.serialize call succeeds], rfl⟩
  | publish call id appended =>
      simp only [Exchange.step]
      split
      · split
        · cases appended with
          | acknowledged => exact ⟨[.publish call true], rfl⟩
          | unacknowledged => exact ⟨[.publish call false], rfl⟩
          | lost => exact ⟨[.publish call false], rfl⟩
        · exact ⟨[], rfl⟩
      · exact ⟨[], rfl⟩
  | wait call => exact ⟨[.wait call], rfl⟩
  | listen =>
      simp only [Exchange.step]
      split
      · exact ⟨[], rfl⟩
      · next data queue _ => exact ⟨[.listen data], rfl⟩
  | engine action => cases action <;> exact ⟨[], rfl⟩
  | fail stored => exact ⟨[], rfl⟩

theorem demux_run (e : Exchange R cfg.engine.codec.Json) (actions : List ExchangeAction) :
    ∃ actions', (e.run cfg actions).demux = e.demux.run cfg.format cfg.identifier actions' := by
  induction actions generalizing e with
  | nil => exact ⟨[], rfl⟩
  | cons action actions ih =>
      obtain ⟨first, hfirst⟩ := demux_step e action
      obtain ⟨later, hlater⟩ := ih (e.step cfg action)
      refine ⟨first ++ later, ?_⟩
      change ((e.step cfg action).run cfg actions).demux = _
      rw [hlater, hfirst]
      exact (List.foldl_append ..).symm

theorem explained_run (hcfg : cfg.Lawful) (actions : List ExchangeAction) :
    ((init R _).run cfg actions).demux.Explained cfg.format := by
  obtain ⟨actions', hrun⟩ := @demux_run R cfg (init R _) actions
  rw [hrun]
  exact Demux.Explained.run hcfg.distinct Demux.sound_init Demux.awaiting_init
    (by simp [Demux.Explained, Demux.init]) actions'

end Exchange

/-! ### Requests through the exchange -/

theorem dispatchRecords_valid {cfg : Config} {s s' : EngineState} (hv : s.Valid) {l : Wal}
    {outputs : List Output} (h : dispatchRecords cfg s l = .ok (s', outputs)) : s'.Valid := by
  induction l generalizing s outputs with
  | nil =>
      cases h
      exact hv
  | cons record l ih =>
      unfold dispatchRecords at h
      obtain ⟨⟨s₁, first⟩, hfirst, h⟩ := bind_ok h
      obtain ⟨⟨s₂, later⟩, hlater, h⟩ := bind_ok h
      cases h
      exact ih (dispatchRecord_reset_eq hv hfirst).1 hlater

/-- **What clients are told.** However calls, other gateways and an engine that dies and replays
interleave, while nobody resets it: the response to a request that was admitted says what the engine has
done with it where its message stands in the log, in either build and whatever wraps; or it is an internal
error, and then the message could not be written, or its `XADD` came back with an error. -/
theorem run_api_served (casing : Casing) (cfg : ExchangeConfig Reply) (hcfg : cfg.Lawful) (checks : Bool)
    (harith : cfg.engine.arith = u64 checks) (actions : List ExchangeAction)
    (hadmissible : ∀ action ∈ actions, Exchange.Admissible cfg action) (request : ApiRequest)
    (call : Nat) (respond : Reply → HttpResponse)
    (hroute : request.route casing cfg.queueId (cfg.identifier call) = .send (cfg.message call) respond) :
    let e := (Exchange.init Reply _).run cfg actions
    (∀ payload, cfg.AnsweredAt e.system.wal call payload →
      cfg.format.decode call (cfg.writeReply payload) = some payload) →
    ∀ response, (request.route casing cfg.queueId (cfg.identifier call)).response e.demux.calls[call]?
      = some response →
    response = .failed .serialization ∨ response = .failed .publishing ∨
      ∃ front id back s outputs s' outputs', e.system.wal = front ++ (id, cfg.request call) :: back ∧
        dispatchRecords cfg.engine (.new cfg.engine.fees) front = .ok (s, outputs) ∧
        handle cfg.engine.arith cfg.engine.builtins s (cfg.message call) = .ok (s', outputs') ∧
        request.Serves casing cfg.queueId (cfg.identifier call) (u64 checks) s s' outputs' response := by
  intro e hreads response hresponse
  obtain ⟨hrun, _⟩ := Exchange.consistent_init.run hcfg hadmissible
  rw [hroute] at hresponse
  cases hphase : e.demux.calls[call]? with
  | none =>
      rw [hphase] at hresponse
      cases hresponse
  | some phase =>
      rw [hphase] at hresponse
      cases phase with
      | returned result =>
          cases result with
          | error error =>
              cases hresponse
              rcases Exchange.explained_run hcfg actions call error hphase with
                rfl | rfl | ⟨rfl, n, data, hsent, hdecode⟩
              · exact .inl rfl
              · exact .inr (.inl rfl)
              · obtain ⟨payload, rfl, hanswered⟩ := hrun.answered hcfg hsent
                rw [hreads payload hanswered] at hdecode
                cases hdecode
          | ok reply =>
              cases hresponse
              obtain ⟨n, data, hsent, hdecode⟩ := hrun.correlated.replied call reply hphase
              obtain ⟨payload, rfl, hanswered⟩ := hrun.answered hcfg hsent
              rw [hreads payload hanswered] at hdecode
              cases hdecode
              obtain ⟨front, id, back, s, outputs, s', outputs', hwal, hdispatch, hhandle, hreply⟩ :=
                hanswered
              refine .inr (.inr ⟨front, id, back, s, outputs, s', outputs', hwal, hdispatch, hhandle, ?_⟩)
              rw [harith] at hhandle
              exact request.serves (dispatchRecords_valid (valid_new _) hdispatch) hroute hhandle hreply
      | _ => cases hresponse

/-! ### A bid through the exchange -/

def bidBody : OrderBody := { asset := "SOL", side := "bid", price := 10, qty := 4 }

def bidPrefix : String :=
  "\x7b\"user_id\":1,\"asset\":\"SOL\",\"side\":\"bid\",\"order_type\":\"limit\",\"price\":10,\"qty\":4,"
    ++ "\"slippage_pct\":null,\"time_in_force\":\"GTC\",\"queue_id\":\"q\",\"identifier\":\""

def openReply (call : Nat) : Reply := .order (Nat.repr call) (some 1) (some "open") none none

def Reply.isOpen : Reply → Bool
  | .order identifier (some 1) (some "open") none none => identifier = "1"
  | _ => false

def CallPhase.isOpen : CallPhase Reply → Bool
  | .returned (.ok reply) => reply.isOpen
  | _ => false

theorem Reply.eq_of_isOpen {reply : Reply} (h : reply.isOpen = true) : reply = openReply 1 := by
  unfold Reply.isOpen at h
  split at h
  · rw [of_decide_eq_true h]
    rfl
  · cases h

def openMembers : String := ",\"orderId\":1,\"status\":\"open\",\"error\":null,\"statusCode\":null\x7d"

def bidExchange : ExchangeConfig Reply where
  engine := { onrampExchange.engine with decoder := { onrampExchange.engine.decoder with
    order := fun data => (readAfter bidPrefix data).map fun id => bidBody.toMsg .ascii "q" id 1 } }
  queueId := "q"
  message call :=
    if call = 1 then .order (bidBody.toMsg .ascii "q" (Nat.repr call) 1)
    else .onramp ⟨1, 100, "q", Nat.repr call⟩
  writeMsg
    | .order msg => quoted bidPrefix msg.identifier "\x7d"
    | msg => quoted onrampPrefix msg.identifier "\x7d"
  writeReply
    | .order identifier _ _ _ _ => quoted replyPrefix identifier openMembers
    | payload => quoted replyPrefix payload.identifier (replyMembers payload)
  format := ⟨readAfter replyPrefix, fun call data =>
    if data = quoted replyPrefix (Nat.repr call) openMembers then some (openReply call) else none⟩

theorem bidExchange_lawful : bidExchange.Lawful where
  snapshots _ := rfl
  messages call := by
    by_cases hcall : call = 1
    · simp [bidExchange, hcall, Msg.channel, Decoder.decode, readAfter_quoted, OrderBody.toMsg]
    · simp [bidExchange, hcall, onrampExchange, Msg.channel, Decoder.decode, readAfter_quoted,
        Msg.identifier]
  replies payload := by cases payload <;> simp [bidExchange, readAfter_quoted, Reply.identifier]
  distinct call call' h := by
    have hidentifier : ∀ call, bidExchange.identifier call = Nat.repr call := by
      intro call
      by_cases hcall : call = 1 <;>
        simp [ExchangeConfig.identifier, bidExchange, hcall, Msg.identifier, OrderBody.toMsg]
    rw [hidentifier, hidentifier] at h
    exact Nat.repr_inj.mp h
  queued call := by
    by_cases hcall : call = 1 <;> simp [bidExchange, hcall, Msg.queueId, OrderBody.toMsg]
  resetFree call := by by_cases hcall : call = 1 <;> simp [bidExchange, hcall, Msg.channel]

def bidActions : List ExchangeAction :=
  [.engine (.start true true), .start 0, .serialize 0 true, .start 1, .serialize 1 true,
    .publish 0 (toLex (1, 0)) .acknowledged, .publish 1 (toLex (1, 1)) .acknowledged,
    .engine (.read 5), .engine (.next ⟨true, true, true, true⟩), .listen,
    .engine (.next ⟨true, true, true, true⟩), .listen, .wait 1]

/-- In the log of these calls, the bid is answered as the order that rests. -/
theorem bidExchange_answered {payload : Reply}
    (h : bidExchange.AnsweredAt [(toLex (1, 0), bidExchange.request 0),
      (toLex (1, 1), bidExchange.request 1)] 1 payload) : payload = openReply 1 := by
  obtain ⟨front, id, back, s, outputs, s', outputs', hwal, hdispatch, hhandle, hreply⟩ := h
  have hfront : front = [(toLex (1, 0), bidExchange.request 0)] := by
    rcases front with _ | ⟨first, _ | ⟨second, front⟩⟩
    · simp only [List.nil_append, List.cons.injEq, Prod.mk.injEq] at hwal
      exact absurd hwal.1.2 (by decide +kernel)
    · simp only [List.cons_append, List.nil_append, List.cons.injEq] at hwal
      rw [hwal.1]
    · simp at hwal
  obtain ⟨r, hr, hreturns⟩ := exists_of_returns
    (dispatchRecords bidExchange.engine (.new bidExchange.engine.fees)
      [(toLex (1, 0), bidExchange.request 0)])
    (fun r => returns (fun r' => (repliesTo (replyQueue bidExchange.queueId) r'.2).all Reply.isOpen)
      (handle bidExchange.engine.arith bidExchange.engine.builtins r.1 (bidExchange.message 1)))
    (by decide +kernel)
  rw [hfront, hr, Except.ok.injEq] at hdispatch
  subst hdispatch
  obtain ⟨r', hr', hopen⟩ := exists_of_returns _ _ hreturns
  rw [hhandle, Except.ok.injEq] at hr'
  subst hr'
  rw [hreply] at hopen
  exact Reply.eq_of_isOpen (by simpa using hopen)

theorem run_api_served_bid : ∃ respond s s' outputs,
    (ApiRequest.placeOrder 1 bidBody).route .ascii "q" "1"
      = .send (bidExchange.message 1) respond ∧
    (ApiRequest.placeOrder 1 bidBody).Serves .ascii "q" "1" (u64 false) s s' outputs
      ⟨201, .order (some 1) "open"⟩ := by
  obtain ⟨respond, hroute⟩ : ∃ respond, (ApiRequest.placeOrder 1 bidBody).route .ascii "q" "1"
      = .send (bidExchange.message 1) respond := ⟨_, rfl⟩
  have hwal : ((Exchange.init Reply _).run bidExchange bidActions).system.wal
      = [(toLex (1, 0), bidExchange.request 0), (toLex (1, 1), bidExchange.request 1)] := by
    decide +kernel
  have hphase : ∃ reply, ((Exchange.init Reply _).run bidExchange bidActions).demux.calls[1]?
      = some (.returned (.ok reply)) ∧ reply.isOpen = true := by
    have htest : (((Exchange.init Reply _).run bidExchange bidActions).demux.calls[1]?).any
        CallPhase.isOpen = true := by decide +kernel
    obtain ⟨phase, hget, hphase⟩ := (Option.any_eq_true _ _).mp htest
    unfold CallPhase.isOpen at hphase
    split at hphase
    · exact ⟨_, hget, hphase⟩
    · cases hphase
  obtain ⟨reply, hreturned, hopen⟩ := hphase
  rw [Reply.eq_of_isOpen hopen] at hreturned
  have hserves := run_api_served .ascii bidExchange bidExchange_lawful false rfl bidActions
    (by simp [bidActions, Exchange.Admissible]) (.placeOrder 1 bidBody) 1 respond hroute
    (fun payload hanswered => by
      rw [hwal] at hanswered
      rw [bidExchange_answered hanswered]
      rfl)
    ⟨201, .order (some 1) "open"⟩ (by
      rw [hreturned]
      rfl)
  rcases hserves with hfailed | hfailed | ⟨front, id, back, s, outputs, s', outputs', _, _, _, hserves⟩
  · cases hfailed
  · cases hfailed
  · exact ⟨respond, s, s', outputs', hroute, hserves⟩

end CexRs
