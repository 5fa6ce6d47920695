import CexRs.Handlers
import CexRs.Proof.PriceTimePriority

/-!
# The venue: books and order ids

What a message does to the three books and to the id counter, in any build and whatever the balances
are, and what it reports of that. Balance operations leave both alone (`SameVenue`), an accepted order
is one match in one book under the next id (`Executed`), a cancellation takes one order out of one
book, and nothing else changes either, apart from a reset.
-/

namespace CexRs

open FixedWidth OrderedMap

namespace EngineState

/-! ### Books of a state -/

section Books

variable (s : EngineState) (asset : Asset) (ob : Orderbook)

@[simp] theorem book_setBook_self : (s.setBook asset ob).book asset = ob := by
  cases asset <;> rfl

theorem book_setBook_of_ne {asset' : Asset} (h : asset' ≠ asset) :
    (s.setBook asset ob).book asset' = s.book asset' := by
  cases asset <;> cases asset' <;> first | rfl | exact absurd rfl h

@[simp] theorem nextOrderId_setBook : (s.setBook asset ob).nextOrderId = s.nextOrderId := by
  cases asset <;> rfl

@[simp] theorem feeSchedule_setBook : (s.setBook asset ob).feeSchedule = s.feeSchedule := by
  cases asset <;> rfl

@[simp] theorem usdBalance_setBook : (s.setBook asset ob).usdBalance = s.usdBalance := by
  cases asset <;> rfl

@[simp] theorem stockBalance_setBook : (s.setBook asset ob).stockBalance = s.stockBalance := by
  cases asset <;> rfl

end Books

structure SameVenue (s s' : EngineState) : Prop where
  book : ∀ asset, s'.book asset = s.book asset
  nextOrderId : s'.nextOrderId = s.nextOrderId
  feeSchedule : s'.feeSchedule = s.feeSchedule

theorem SameVenue.refl (s : EngineState) : SameVenue s s := ⟨fun _ => rfl, rfl, rfl⟩

theorem SameVenue.trans {s s' s'' : EngineState} (h : SameVenue s s') (h' : SameVenue s' s'') :
    SameVenue s s'' :=
  ⟨fun a => (h'.book a).trans (h.book a), h'.nextOrderId.trans h.nextOrderId,
    h'.feeSchedule.trans h.feeSchedule⟩

def withUsd (s : EngineState) (user : Nat) (b : Balance) : EngineState :=
  { s with usdBalance := s.usdBalance.insert user b }

def withStock (s : EngineState) (user : Nat) (symbol : String) (b : Balance) : EngineState :=
  { s with
    stockBalance := s.stockBalance.insert user
      ((s.stockBalance[user]?.getD ∅).insert symbol b) }

theorem sameVenue_withUsd (s : EngineState) (user : Nat) (b : Balance) :
    SameVenue s (s.withUsd user b) :=
  ⟨fun a => by cases a <;> rfl, rfl, rfl⟩

theorem sameVenue_withStock (s : EngineState) (user : Nat) (symbol : String) (b : Balance) :
    SameVenue s (s.withStock user symbol b) :=
  ⟨fun a => by cases a <;> rfl, rfl, rfl⟩

section Mut

variable {allow : Fault → Prop} {s : EngineState} {user : Nat} {symbol : String} {asset : Asset}
  {f : Balance → Except Fault Balance} {post : EngineState → Prop}

theorem meets_usdMut (h : Meets allow (f (s.usd user)) fun b => post (s.withUsd user b)) :
    Meets allow (s.usdMut user f) post :=
  h.bind fun _ hb => hb

theorem meets_stockMut
    (h : Meets allow (f (s.stock user symbol)) fun b => post (s.withStock user symbol b)) :
    Meets allow (s.stockMut user symbol f) post :=
  h.bind fun _ hb => hb

theorem meets_assetMut
    (h : Meets allow (f (s.asset user asset)) fun b => post (s.withStock user asset.symbol b)) :
    Meets allow (s.assetMut user asset f) post :=
  meets_stockMut h

theorem usdMut_venue (h : Meets allow (f (s.usd user)) fun _ => True) :
    Meets allow (s.usdMut user f) (SameVenue s) :=
  meets_usdMut (h.imp fun b _ _ => sameVenue_withUsd s user b)

theorem assetMut_venue (h : Meets allow (f (s.asset user asset)) fun _ => True) :
    Meets allow (s.assetMut user asset f) (SameVenue s) :=
  meets_assetMut (h.imp fun b _ _ => sameVenue_withStock s user asset.symbol b)

theorem stockMut_venue (h : Meets allow (f (s.stock user symbol)) fun _ => True) :
    Meets allow (s.stockMut user symbol f) (SameVenue s) :=
  meets_stockMut (h.imp fun b _ _ => sameVenue_withStock s user symbol b)

end Mut

end EngineState

open EngineState

/-! ### Balance operations in any build -/

section Balances

variable (A : Arith)

theorem add_arithmetic (a b : Nat) : Meets Arithmetic (A.add a b) fun _ => True :=
  (meets_wrap A (a + b)).weaken fun _ => Overflows.arithmetic

theorem mul_arithmetic (a b : Nat) : Meets Arithmetic (A.mul a b) fun _ => True :=
  (meets_wrap A (a * b)).weaken fun _ => Overflows.arithmetic

theorem lock_arithmetic (amount : Nat) (b : Balance) :
    Meets Arithmetic (Balance.lock A amount b) fun _ => True :=
  (meets_sub_arithmetic A _ _).bind fun _ _ => (add_arithmetic A _ _).bind fun _ _ => trivial

theorem unlock_arithmetic (amount : Nat) (b : Balance) :
    Meets Arithmetic (Balance.unlock A amount b) fun _ => True :=
  (meets_sub_arithmetic A _ _).bind fun _ _ => (add_arithmetic A _ _).bind fun _ _ => trivial

theorem credit_arithmetic (amount : Nat) (b : Balance) :
    Meets Arithmetic (Balance.credit A amount b) fun _ => True :=
  (add_arithmetic A _ _).bind fun _ _ => trivial

theorem spend_arithmetic (amount : Nat) (b : Balance) :
    Meets Arithmetic (Balance.spend A amount b) fun _ => True :=
  (meets_sub_arithmetic A _ _).bind fun _ _ => trivial

theorem makerFee_arithmetic (fees : FeeSchedule) (v : Nat) :
    Meets Arithmetic (fees.calcMakerFee A v) fun _ => True :=
  (mul_arithmetic A _ _).bind fun _ _ => trivial

theorem takerFee_arithmetic (fees : FeeSchedule) (v : Nat) :
    Meets Arithmetic (fees.calcTakerFee A v) fun _ => True :=
  (mul_arithmetic A _ _).bind fun _ _ => trivial

theorem buyerFee_arithmetic (fees : FeeSchedule) (side : Side) (v : Nat) :
    Meets Arithmetic (buyerFee A fees side v) fun _ => True := by
  cases side with
  | bid => exact takerFee_arithmetic A fees v
  | ask => exact makerFee_arithmetic A fees v

theorem sellerFee_arithmetic (fees : FeeSchedule) (side : Side) (v : Nat) :
    Meets Arithmetic (sellerFee A fees side v) fun _ => True := by
  cases side with
  | bid => exact makerFee_arithmetic A fees v
  | ask => exact takerFee_arithmetic A fees v

end Balances

/-! ### Settlement leaves the venue alone -/

section Settlement

variable (A : Arith)

theorem applyFill_venue (s : EngineState) (asset : Asset) (trade : Trade) :
    Meets Arithmetic (applyFill A s asset trade) fun r => SameVenue s r.1 := by
  unfold applyFill
  refine (mul_arithmetic A _ _).bind fun value _ => ?_
  refine (buyerFee_arithmetic A _ _ _).bind fun buyerFee _ => ?_
  refine (sellerFee_arithmetic A _ _ _).bind fun sellerFee _ => ?_
  refine (add_arithmetic A _ _).bind fun debit _ => ?_
  refine (usdMut_venue (spend_arithmetic A _ _)).bind fun s₁ h₁ => ?_
  refine (assetMut_venue (credit_arithmetic A _ _)).bind fun s₂ h₂ => ?_
  refine (assetMut_venue (spend_arithmetic A _ _)).bind fun s₃ h₃ => ?_
  refine (usdMut_venue (credit_arithmetic A _ _)).bind fun s₄ h₄ => ?_
  refine (add_arithmetic A _ _).bind fun totalFee _ => ?_
  have h := ((h₁.trans h₂).trans h₃).trans h₄
  dsimp only
  split
  · refine (usdMut_venue (credit_arithmetic A _ _)).bind fun s₅ h₅ => ?_
    exact h.trans h₅
  · exact h

def Trade.Reports (ob : Orderbook) (asset : Asset) (t : Trade) (event : ExecutionEvent) : Prop :=
  ∃ quoteAmount buyerFee sellerFee, event = .tradeExecuted t.makerOrderId t.takerOrderId t.buyer
    t.seller asset.market t.price t.qty quoteAmount
    (((ob.getOrder t.makerOrderId).map Order.remainingQty).getD 0) 0 buyerFee sellerFee

theorem settleResult_venue (asset : Asset) (side : Side) (acc : Settlement) (trade : Trade) :
    Meets Arithmetic (settleResult A asset side acc (.trade trade)) fun acc' =>
      SameVenue acc.state acc'.state ∧ acc'.resting = acc.resting ∧
        ∃ event, acc'.events = acc.events ++ [event] ∧
          trade.Reports (acc.state.book asset) asset event := by
  unfold settleResult
  refine (applyFill_venue A acc.state asset trade).bind fun r hr => ?_
  refine (add_arithmetic A _ _).bind fun filled _ => ?_
  refine (mul_arithmetic A _ _).bind fun quote _ => ?_
  have hbook := hr.book asset
  simp only
  split
  · refine (add_arithmetic A _ _).bind fun cost _ => ?_
    refine (add_arithmetic A _ _).bind fun spent _ => ?_
    exact ⟨hr, rfl, _, rfl, _, _, _, by rw [hbook]⟩
  · exact ⟨hr, rfl, _, rfl, _, _, _, by rw [hbook]⟩

theorem settleTrades_venue (asset : Asset) (side : Side) (trades : List Trade) (acc : Settlement) :
    Meets Arithmetic ((trades.map MatchResult.trade).foldlM (settleResult A asset side) acc)
      fun acc' => SameVenue acc.state acc'.state ∧ acc'.resting = acc.resting ∧
        ∃ events, acc'.events = acc.events ++ events ∧
          List.Forall₂ (Trade.Reports (acc.state.book asset) asset) trades events := by
  induction trades generalizing acc with
  | nil => exact ⟨SameVenue.refl _, rfl, [], by simp, .nil⟩
  | cons trade trades ih =>
      rw [List.map_cons, List.foldlM_cons]
      refine (settleResult_venue A asset side acc trade).bind fun acc' h => ?_
      obtain ⟨hvenue, hresting, event, hevents, hreports⟩ := h
      refine (ih acc').imp fun acc'' _ h' => ?_
      obtain ⟨hvenue', hresting', events, hevents', hreports'⟩ := h'
      rw [hvenue.book asset] at hreports'
      exact ⟨hvenue.trans hvenue', hresting'.trans hresting, event :: events,
        by rw [hevents', hevents, List.append_assoc]; rfl, .cons hreports hreports'⟩

theorem settleResults_venue (s : EngineState) (asset : Asset) (side : Side) (trades : List Trade)
    (resting : Option Order) :
    Meets Arithmetic (settleResults A s asset side (Orderbook.outcome trades resting)) fun settled =>
      SameVenue s settled.state ∧ settled.resting = resting.map Orderbook.accepted ∧
        List.Forall₂ (Trade.Reports (s.book asset) asset) trades settled.events := by
  unfold settleResults Orderbook.outcome
  rw [List.foldlM_append]
  refine (settleTrades_venue A asset side trades _).bind fun acc h => ?_
  obtain ⟨hvenue, hresting, events, hevents, hreports⟩ := h
  simp only [List.nil_append] at hevents
  subst hevents
  cases resting with
  | none => exact ⟨hvenue, hresting, hreports⟩
  | some o => exact ⟨hvenue, rfl, hreports⟩

end Settlement

/-! ### Accepted orders -/

/-- An accepted order, as far as the venue is concerned: one match in one book under the next id, and
what is left of it at the back of its level if it rests. -/
structure Executed (s s' : EngineState) (asset : Asset) (taker : Taker) (past : Nat → Bool)
    (qty : Nat) (fs : List (Order × Nat)) (m : Matching) (resting : Option Order) : Prop where
  orderId : taker.orderId = s.nextOrderId
  took : (s.book asset).Took taker past qty fs m
  leaves : ∀ o, resting = some o →
    0 < m.remainingQty ∧ ∃ price, 0 < price ∧ o = Orderbook.leftover taker price m
  book_self : s'.book asset = m.book.restAll resting
  book_other : ∀ asset', asset' ≠ asset → s'.book asset' = s.book asset'
  nextOrderId : s'.nextOrderId = s.nextOrderId + 1
  feeSchedule : s'.feeSchedule = s.feeSchedule

section Executed

variable {s s' t : EngineState} {asset : Asset} {taker : Taker} {past : Nat → Bool} {qty : Nat}
  {fs : List (Order × Nat)} {m : Matching} {resting : Option Order}

theorem Executed.after (h : Executed s s' asset taker past qty fs m resting) (ht : SameVenue s' t) :
    Executed s t asset taker past qty fs m resting :=
  ⟨h.orderId, h.took, h.leaves, (ht.book asset).trans h.book_self,
    fun a ha => (ht.book a).trans (h.book_other a ha), ht.nextOrderId.trans h.nextOrderId,
    ht.feeSchedule.trans h.feeSchedule⟩

theorem Executed.before (h : Executed s s' asset taker past qty fs m resting) (ht : SameVenue t s) :
    Executed t s' asset taker past qty fs m resting :=
  ⟨h.orderId.trans ht.nextOrderId, ht.book asset ▸ h.took, h.leaves, h.book_self,
    fun a ha => (h.book_other a ha).trans (ht.book a), by rw [h.nextOrderId, ht.nextOrderId],
    h.feeSchedule.trans ht.feeSchedule⟩

theorem remainder_resting {price : Nat} {tif : TimeInForce} (hprice : 0 < price) {o : Order}
    (h : Orderbook.remainder taker price tif m = some o) :
    0 < m.remainingQty ∧ ∃ price, 0 < price ∧ o = Orderbook.leftover taker price m := by
  unfold Orderbook.remainder at h
  split at h
  · next hrest =>
      cases h
      exact ⟨hrest.1, price, hprice, rfl⟩
  · cases h

end Executed

def EngineState.issued (s : EngineState) (asset : Asset) (ob : Orderbook) : EngineState :=
  { s with nextOrderId := s.nextOrderId + 1 }.setBook asset ob

theorem executed_issued {s : EngineState} {asset : Asset} {taker : Taker} {past : Nat → Bool}
    {qty : Nat} {fs : List (Order × Nat)} {m : Matching} {resting : Option Order}
    (hid : taker.orderId = s.nextOrderId) (htook : (s.book asset).Took taker past qty fs m)
    (hresting : ∀ o, resting = some o →
      0 < m.remainingQty ∧ ∃ price, 0 < price ∧ o = Orderbook.leftover taker price m) :
    Executed s (s.issued asset (m.book.restAll resting)) asset taker past qty fs m resting := by
  refine ⟨hid, htook, hresting, book_setBook_self _ _ _, ?_, ?_, ?_⟩
  · intro a ha
    rw [issued, book_setBook_of_ne _ _ _ ha]
    cases a <;> rfl
  · simp [issued]
  · simp [issued]

/-- An accepted order with what is reported of it: the match ran until it stopped, unless the order was
killed before it began. -/
structure Filled (s s' : EngineState) (asset : Asset) (taker : Taker) (past : Nat → Bool) (qty : Nat)
    (found : Bool) (fs : List (Order × Nat)) (m : Matching) (resting : Option Order)
    (settled : Settlement) : Prop where
  executed : Executed s s' asset taker past qty fs m resting
  stopped : found = true → Matching.Stopped taker past m
  killed : found = false → fs = []
  resting : settled.resting = resting.map Orderbook.accepted
  reports : List.Forall₂ (Trade.Reports (s'.book asset) asset) (Matching.trades taker fs)
    settled.events

section Filled

variable {s s' t : EngineState} {asset : Asset} {taker : Taker} {past : Nat → Bool} {qty : Nat}
  {found : Bool} {fs : List (Order × Nat)} {m : Matching} {resting : Option Order}
  {settled : Settlement}

theorem Filled.after (h : Filled s s' asset taker past qty found fs m resting settled)
    (ht : SameVenue s' t) : Filled s t asset taker past qty found fs m resting settled :=
  ⟨h.executed.after ht, h.stopped, h.killed, h.resting, (ht.book asset).symm ▸ h.reports⟩

theorem Filled.before (h : Filled s s' asset taker past qty found fs m resting settled)
    (ht : SameVenue t s) : Filled t s' asset taker past qty found fs m resting settled :=
  ⟨h.executed.before ht, h.stopped, h.killed, h.resting, h.reports⟩

/-- Settling an order's results leaves the order as it was executed. -/
theorem settle_filled (A : Arith) {side : Side}
    (hexec : Executed s (s.issued asset (m.book.restAll resting)) asset taker past qty fs m resting)
    (hstopped : found = true → Matching.Stopped taker past m) (hkilled : found = false → fs = []) :
    Meets Arithmetic (settleResults A (s.issued asset (m.book.restAll resting)) asset side
        (Orderbook.outcome m.results resting)) fun settled =>
      Filled s settled.state asset taker past qty found fs m resting settled := by
  have hresults : m.results = Matching.trades taker fs := by
    simpa [Matching.trades] using hexec.took.fills.results_eq
  rw [hresults]
  refine (settleResults_venue A _ asset side _ resting).imp fun settled _ h => ?_
  obtain ⟨hvenue, hresting, hreports⟩ := h
  refine ⟨hexec.after hvenue, hstopped, hkilled, hresting, ?_⟩
  rw [hvenue.book asset]
  exact hreports

end Filled

/-! ### What an order asks for -/

section Asks

variable (A : Arith) (builtins : Builtins) (s : EngineState) (msg : OrderMsg) (asset : Asset)
  (side : Side)

def orderPast : Nat → Bool :=
  match msg.orderType with
  | .limit => Orderbook.pastLimit side msg.price.toInt.toNat
  | .market =>
      Orderbook.pastWorst side (worstPrice builtins msg ((s.book asset).best side.opposite))

/-- What an order leaves to rest: a market order nothing. -/
def remainderOf (taker : Taker) (m : Matching) : Option Order :=
  match msg.orderType with
  | .limit => Orderbook.remainder taker msg.price.toInt.toNat msg.timeInForce m
  | .market => none

def foundEnough : Except Fault Bool :=
  let ob := s.book asset
  let qty := msg.qty.toInt.toNat
  match msg.orderType, side with
  | .limit, side =>
      (ob.issue s.nextOrderId).canFillQuantity A side msg.price.toInt.toNat qty
  | .market, .ask => do
      let fillable ← ob.fillableQtyForMarketSell A qty (worstPrice builtins msg ob.bestBid)
      return decide (qty ≤ fillable)
  | .market, .bid => do
      let (_, fillableQty) ← ob.quoteCostForMarketBuy A qty (worstPrice builtins msg ob.bestAsk)
      return decide (qty ≤ fillableQty)

structure Decided (found : Bool) : Prop where
  fok : msg.timeInForce = .fok → foundEnough A builtins s msg asset side = .ok found
  other : msg.timeInForce ≠ .fok → found = true

structure WellFormed : Prop where
  asset : Asset.ofString? msg.asset = some asset
  side : Side.ofString? msg.side = some side
  positive : 0 < msg.qty.toInt
  priced : msg.orderType = .limit → 0 < msg.price.toInt

structure Enters (found : Bool) (fs : List (Order × Nat)) (m : Matching) (p : Placement) : Prop where
  wellFormed : WellFormed msg p.asset side
  counted : s.nextOrderId + 1 < 2 ^ A.bits
  decided : Decided A builtins s msg p.asset side found
  filled : Filled s p.state p.asset ⟨s.nextOrderId, msg.userId, side⟩
    (orderPast builtins s msg p.asset side) msg.qty.toInt.toNat found fs m
    (remainderOf msg ⟨s.nextOrderId, msg.userId, side⟩ m) p.settlement

/-- The reply to an order that is not let through: an error, or that a fill-or-kill market order found
too little. -/
def Refusal (reply : Output) : Prop :=
  (∃ error, reply = replyError msg.queueId msg.identifier error 400) ∨
    reply = unfilledReply msg ∧ msg.orderType = .market ∧ msg.timeInForce = .fok ∧
      ∃ asset side, WellFormed msg asset side ∧ foundEnough A builtins s msg asset side = .ok false

/-- What an order does to the venue: nothing if it is refused, else one match under the next id. -/
def VerdictVenue : Verdict → Prop
  | .refused s' reply => SameVenue s s' ∧ Refusal A builtins s msg reply
  | .placed p => ∃ side found fs m, Enters A builtins s msg side found fs m p

end Asks

/-- The remainder that rests is that of a GTC limit order, at its price. -/
theorem remainderOf_some {msg : OrderMsg} {taker : Taker} {m : Matching} {o : Order}
    (h : remainderOf msg taker m = some o) :
    msg.orderType = .limit ∧ msg.timeInForce = .gtc ∧
      o = Orderbook.leftover taker msg.price.toInt.toNat m := by
  unfold remainderOf at h
  cases htype : msg.orderType with
  | market => simp [htype] at h
  | limit =>
      rw [htype] at h
      simp only [Orderbook.remainder] at h
      split at h
      · next hrest =>
        cases h
        exact ⟨rfl, hrest.2, rfl⟩
      · cases h

section Place

variable (A : Arith) (s : EngineState) (msg : OrderMsg) (asset : Asset)

theorem book_nextOrderId (n : Nat) : { s with nextOrderId := n }.book asset = s.book asset := by
  cases asset <;> rfl

theorem drawOrderId_of_lt (h : s.nextOrderId + 1 < 2 ^ A.bits) :
    s.drawOrderId A = .ok (s.nextOrderId, { s with nextOrderId := s.nextOrderId + 1 }) := by
  unfold drawOrderId
  rw [A.next_of_lt h]
  rfl

theorem drawOrderId_of_le (h : 2 ^ A.bits ≤ s.nextOrderId + 1) :
    s.drawOrderId A = .error .overflow := by
  unfold drawOrderId
  rw [A.next_of_le h]
  rfl

theorem refundUsd_venue (user amount : Nat) :
    Meets Arithmetic (refundUsd A s user amount) (SameVenue s) := by
  unfold refundUsd
  split
  · exact usdMut_venue (unlock_arithmetic A _ _)
  · exact SameVenue.refl s

theorem refundAsset_venue (user amount : Nat) :
    Meets Arithmetic (refundAsset A s user asset amount) (SameVenue s) := by
  unfold refundAsset
  split
  · exact assetMut_venue (unlock_arithmetic A _ _)
  · exact SameVenue.refl s

theorem lockUsd_venue (user amount : Nat) :
    Meets Arithmetic (lockUsd A s user amount) fun r => SameVenue s r.1 := by
  unfold lockUsd
  refine (usdMut_venue (f := pure) trivial).bind fun s₁ h₁ => ?_
  split
  · exact h₁
  · exact (usdMut_venue (lock_arithmetic A _ _)).bind fun s₂ h₂ => h₁.trans h₂

theorem lockAsset_venue (user amount : Nat) :
    Meets Arithmetic (lockAsset A s user asset amount) fun r => SameVenue s r.1 := by
  unfold lockAsset
  refine (assetMut_venue (f := pure) trivial).bind fun s₁ h₁ => ?_
  split
  · exact h₁
  · exact (assetMut_venue (lock_arithmetic A _ _)).bind fun s₂ h₂ => h₁.trans h₂

theorem neededLocked_arithmetic (fees : FeeSchedule) (resting : Option OrderAccepted) :
    Meets Arithmetic (neededLocked A fees resting) fun _ => True := by
  cases resting with
  | none => trivial
  | some accepted =>
      refine (mul_arithmetic A _ _).bind fun cost _ => ?_
      refine (makerFee_arithmetic A _ _).bind fun fee _ => ?_
      exact add_arithmetic A _ _

theorem reconcile_venue (side : Side) (qty totalLock : Nat) (settled : Settlement) :
    Meets Arithmetic (reconcile A msg asset side qty totalLock settled) fun p =>
      p.asset = asset ∧ p.settlement = settled ∧ SameVenue settled.state p.state := by
  cases side with
  | bid =>
      refine (neededLocked_arithmetic A _ _).bind fun needed _ => ?_
      exact (refundUsd_venue A _ _ _).bind fun state hstate => ⟨rfl, rfl, hstate⟩
  | ask =>
      refine (meets_sub_arithmetic A _ _).bind fun unfilled _ => ?_
      exact (refundAsset_venue A _ _ _ _).bind fun state hstate => ⟨rfl, rfl, hstate⟩

/-- What has to be shown of a limit order once its funds are locked: that settling the fills and then
reconciling has the property, whatever the fills are. -/
theorem meets_placeLimit {allow : Fault → Prop} {post : Placement → Prop} (hover : allow .overflow)
    (hv : (s.book asset).Valid) (side : Side) {price qty : Nat} (hprice : 0 < price)
    (hqty : 0 < qty) (totalLock : Nat)
    (h : s.nextOrderId + 1 < 2 ^ A.bits →
      ∀ found fs m, Orderbook.Found A ((s.book asset).issue s.nextOrderId) side price qty
        msg.timeInForce found →
      (s.book asset).Took ⟨s.nextOrderId, msg.userId, side⟩ (Orderbook.pastLimit side price) qty fs m →
      (found = true → Matching.Stopped ⟨s.nextOrderId, msg.userId, side⟩
        (Orderbook.pastLimit side price) m) →
      (found = false → fs = []) → ∀ resting,
      resting = Orderbook.remainder ⟨s.nextOrderId, msg.userId, side⟩ price msg.timeInForce m →
      Meets allow (settleResults A (s.issued asset (m.book.restAll resting)) asset side
        (Orderbook.outcome m.results resting) >>= reconcile A msg asset side qty totalLock) post) :
    Meets allow (placeLimit A s msg asset side price qty totalLock) post := by
  unfold placeLimit
  rcases Nat.lt_or_ge (s.nextOrderId + 1) (2 ^ A.bits) with hid | hid
  · have hallow : ∀ f, Overflows f → allow f := fun f hf => hf.symm ▸ hover
    have hadd := (Orderbook.addOrderWithId_spec hv s.nextOrderId msg.userId side hid hprice hqty
      msg.timeInForce).weaken hallow
    rw [← book_nextOrderId s asset (s.nextOrderId + 1)] at hadd
    rw [drawOrderId_of_lt A s hid, ok_bind]
    refine hadd.bind ?_
    rintro _ ⟨found, fs, m, hfound, htook, hstopped, hkilled, rfl⟩
    rw [book_nextOrderId] at hfound htook
    exact h hid found fs m hfound htook hstopped hkilled _ rfl
  · rw [drawOrderId_of_le A s hid]
    exact hover

variable {A s msg asset} in
/-- An order that is placed has got an id. -/
theorem placeLimit_numbered {side : Side} {price qty totalLock : Nat} {p : Placement}
    (h : placeLimit A s msg asset side price qty totalLock = .ok p) : s.nextOrderId + 1 < 2 ^ A.bits := by
  obtain ⟨_, hdraw, _⟩ := bind_ok h
  obtain ⟨next, hnext, _⟩ := bind_ok hdraw
  exact (A.next_ok hnext).1

theorem placeMarket_eq (hv : (s.book asset).Valid) (hid : s.nextOrderId + 1 < 2 ^ A.bits) (side : Side)
    {qty : Nat} (hqty : 0 < qty) (worst : Option Nat) :
    ∃ fs m, (s.book asset).Took ⟨s.nextOrderId, msg.userId, side⟩
        (Orderbook.pastWorst side worst) qty fs m ∧
      Matching.Stopped ⟨s.nextOrderId, msg.userId, side⟩ (Orderbook.pastWorst side worst) m ∧
      fs = Greedy.fills Order.remainingQty qty (Matching.reach ⟨s.nextOrderId, msg.userId, side⟩
        (Orderbook.pastWorst side worst) (s.book asset)) ∧
      placeMarket A s msg asset side qty worst
        = settleResults A (s.issued asset (m.book.restAll none)) asset side
            (Orderbook.outcome m.results none) := by
  obtain ⟨fs, m, hm, hrun⟩ := Orderbook.executeMarketOrderWithId_eq hv s.nextOrderId msg.userId side
    (A.add_of_lt hid) hqty worst
  refine ⟨fs, m, hm.took hv, hm.stopped, ?_, ?_⟩
  · have h := (hm.fills.greedy (hv.issue _) hm.stopped).1
    simpa using h
  unfold placeMarket
  rw [drawOrderId_of_lt A s hid, ok_bind]
  dsimp only
  rw [book_nextOrderId, hrun]
  rfl

/-- What has to be shown of a market order once its funds are locked: that settling the greedy fills has
the property. -/
theorem meets_placeMarket {allow : Fault → Prop} {post : Settlement → Prop} (hover : allow .overflow)
    (hv : (s.book asset).Valid) (side : Side) {qty : Nat} (hqty : 0 < qty) (worst : Option Nat)
    (h : s.nextOrderId + 1 < 2 ^ A.bits →
      ∀ fs m, (s.book asset).Took ⟨s.nextOrderId, msg.userId, side⟩
        (Orderbook.pastWorst side worst) qty fs m →
      Matching.Stopped ⟨s.nextOrderId, msg.userId, side⟩ (Orderbook.pastWorst side worst) m →
      fs = Greedy.fills Order.remainingQty qty (Matching.reach ⟨s.nextOrderId, msg.userId, side⟩
        (Orderbook.pastWorst side worst) (s.book asset)) →
      Meets allow (settleResults A (s.issued asset (m.book.restAll none)) asset side
        (Orderbook.outcome m.results none)) post) :
    Meets allow (placeMarket A s msg asset side qty worst) post := by
  rcases Nat.lt_or_ge (s.nextOrderId + 1) (2 ^ A.bits) with hid | hid
  · obtain ⟨fs, m, htook, hstopped, hgreedy, hrun⟩ := placeMarket_eq A s msg asset hv hid side hqty worst
    rw [hrun]
    exact h hid fs m htook hstopped hgreedy
  · unfold placeMarket
    rw [drawOrderId_of_le A s hid]
    exact hover

theorem placeLimit_venue (hv : (s.book asset).Valid) (side : Side) {price qty : Nat}
    (hprice : 0 < price) (hqty : 0 < qty) (totalLock : Nat) :
    Meets Arithmetic (placeLimit A s msg asset side price qty totalLock) fun p =>
      p.asset = asset ∧ s.nextOrderId + 1 < 2 ^ A.bits ∧
        ∃ found fs m, Orderbook.Found A ((s.book asset).issue s.nextOrderId) side price
          qty msg.timeInForce found ∧
        Filled s p.state asset ⟨s.nextOrderId, msg.userId, side⟩ (Orderbook.pastLimit side price) qty
          found fs m (Orderbook.remainder ⟨s.nextOrderId, msg.userId, side⟩ price msg.timeInForce m)
          p.settlement := by
  refine meets_placeLimit A s msg asset (Or.inl rfl) hv side hprice hqty totalLock ?_
  rintro hid found fs m hfound htook hstopped hkilled resting rfl
  have hexec := executed_issued rfl htook
    fun o (ho : Orderbook.remainder _ price msg.timeInForce m = some o) => remainder_resting hprice ho
  refine (settle_filled A hexec hstopped hkilled).bind fun settled hsettled => ?_
  refine (reconcile_venue A msg asset side qty totalLock settled).imp fun p _ hp => ?_
  obtain ⟨hasset, hsettlement, hvenue⟩ := hp
  refine ⟨hasset, hid, found, fs, m, hfound, ?_⟩
  rw [hsettlement]
  exact hsettled.after hvenue

theorem placeMarket_venue (hv : (s.book asset).Valid) (side : Side) {qty : Nat} (hqty : 0 < qty)
    (worst : Option Nat) :
    Meets Arithmetic (placeMarket A s msg asset side qty worst) fun settled =>
      s.nextOrderId + 1 < 2 ^ A.bits ∧
        ∃ fs m, Filled s settled.state asset ⟨s.nextOrderId, msg.userId, side⟩
          (Orderbook.pastWorst side worst) qty true fs m none settled := by
  refine meets_placeMarket A s msg asset (Or.inl rfl) hv side hqty worst ?_
  intro hid fs m htook hstopped _
  have hnone : ∀ o : Order, none = some o → 0 < m.remainingQty ∧ ∃ price, 0 < price ∧
      o = Orderbook.leftover ⟨s.nextOrderId, msg.userId, side⟩ price m := by simp
  have hexec := executed_issued rfl htook hnone
  have hkilled : true = false → fs = [] := by simp
  refine (settle_filled A hexec (fun _ => hstopped) hkilled).imp fun settled _ hsettled => ?_
  exact ⟨hid, fs, m, hsettled⟩

section Verdicts

variable {s} {builtins : Builtins} (hv : ∀ a, (s.book a).Valid) {side : Side}

include hv

theorem handleLimit_venue (hlimit : msg.orderType = .limit)
    (hform : Asset.ofString? msg.asset = some asset ∧ Side.ofString? msg.side = some side ∧
      0 < msg.qty.toInt) :
    Meets Arithmetic (handleLimit A s msg asset side msg.qty.toInt.toNat)
      (VerdictVenue A builtins s msg) := by
  obtain ⟨hasset, hside, hpositive⟩ := hform
  have hqty : 0 < msg.qty.toInt.toNat := by omega
  unfold handleLimit
  split
  · exact ⟨SameVenue.refl s, Or.inl ⟨_, rfl⟩⟩
  · next hprice =>
    have hprice' : 0 < msg.price.toInt.toNat := by omega
    have hplaced : ∀ s₁, SameVenue s s₁ → ∀ totalLock,
        Meets Arithmetic (placeLimit A s₁ msg asset side msg.price.toInt.toNat msg.qty.toInt.toNat
          totalLock) fun p => VerdictVenue A builtins s msg (.placed p) := by
      intro s₁ h₁ totalLock
      have hv₁ : (s₁.book asset).Valid := h₁.book asset ▸ hv asset
      refine (placeLimit_venue A s₁ msg asset hv₁ side hprice' hqty totalLock).imp fun p _ hp => ?_
      obtain ⟨hpasset, hid, found, fs, m, hfound, hfilled⟩ := hp
      have hfilled := hfilled.before h₁
      rw [h₁.nextOrderId, h₁.book] at hfound
      rw [h₁.nextOrderId] at hfilled hid
      subst hpasset
      refine ⟨side, found, fs, m, ⟨hasset, hside, hpositive, fun _ => by omega⟩, hid, ⟨?_, hfound.2⟩, ?_⟩
      · intro hfok
        simp only [foundEnough, hlimit]
        exact hfound.1 hfok
      · simpa only [orderPast, remainderOf, hlimit] using hfilled
    refine (mul_arithmetic A _ _).bind fun cost _ => ?_
    refine (mul_arithmetic A _ _).bind fun reserve _ => ?_
    refine (add_arithmetic A _ _).bind fun totalLock _ => ?_
    cases side with
    | bid =>
        refine (lockUsd_venue A s _ _).bind ?_
        rintro ⟨s₁, enough⟩ h₁
        cases enough with
        | false => exact ⟨h₁, Or.inl ⟨_, rfl⟩⟩
        | true => exact (hplaced s₁ h₁ totalLock).bind fun p hp => hp
    | ask =>
        refine (lockAsset_venue A s asset _ _).bind ?_
        rintro ⟨s₁, enough⟩ h₁
        cases enough with
        | false => exact ⟨h₁, Or.inl ⟨_, rfl⟩⟩
        | true => exact (hplaced s₁ h₁ totalLock).bind fun p hp => hp

omit hv in
theorem placed_market (hmarket : msg.orderType = .market) {p : Placement}
    (hform : WellFormed msg p.asset side)
    (hfound : msg.timeInForce = .fok → foundEnough A builtins s msg p.asset side = .ok true)
    {fs : List (Order × Nat)} {m : Matching} {s₁ : EngineState} (h₁ : SameVenue s s₁)
    (hid : s₁.nextOrderId + 1 < 2 ^ A.bits)
    (hfilled : Filled s₁ p.state p.asset ⟨s₁.nextOrderId, msg.userId, side⟩
      (Orderbook.pastWorst side (worstPrice builtins msg ((s.book p.asset).best side.opposite)))
      msg.qty.toInt.toNat true fs m none p.settlement) :
    VerdictVenue A builtins s msg (.placed p) := by
  have hfilled := hfilled.before h₁
  rw [h₁.nextOrderId] at hfilled hid
  refine ⟨side, true, fs, m, hform, hid, ⟨hfound, fun _ => rfl⟩, ?_⟩
  simpa only [orderPast, remainderOf, hmarket] using hfilled

theorem handleMarketSell_venue (hmarket : msg.orderType = .market)
    (hform : WellFormed msg asset .ask) :
    Meets Arithmetic (handleMarketSell A s builtins msg asset msg.qty.toInt.toNat)
      (VerdictVenue A builtins s msg) := by
  have hpositive := hform.positive
  unfold handleMarketSell
  -- what is found is what the handler goes by
  have hfillable : Meets Arithmetic (fillableForSell A (s.book asset) msg.timeInForce
      msg.qty.toInt.toNat (worstPrice builtins msg (s.book asset).bestBid)) fun fillable =>
      (msg.timeInForce = .fok → foundEnough A builtins s msg asset .ask
        = .ok (decide (msg.qty.toInt.toNat ≤ fillable))) ∧
      (msg.timeInForce ≠ .fok → fillable = msg.qty.toInt.toNat) := by
    unfold fillableForSell
    split
    · next hfok =>
      refine ((Orderbook.fillableQtyForMarketSell_faults A _ _ _).weaken
        fun _ => Overflows.arithmetic).imp fun fillable hrun _ => ⟨fun _ => ?_, fun h => absurd hfok h⟩
      simp only [foundEnough, hmarket]
      rw [hrun]
      rfl
    · next hfok => exact ⟨fun h => absurd h hfok, fun _ => rfl⟩
  refine hfillable.bind fun fillable hdecided => ?_
  split
  · next hshort =>
    have hfok : msg.timeInForce = .fok := by
      by_contra h
      rw [hdecided.2 h] at hshort
      exact Nat.lt_irrefl _ hshort
    have hfound := hdecided.1 hfok
    rw [decide_eq_false (by omega)] at hfound
    exact ⟨SameVenue.refl s, Or.inr ⟨rfl, hmarket, hfok, asset, .ask, hform, hfound⟩⟩
  · next henough =>
    refine (lockAsset_venue A s asset _ _).bind ?_
    rintro ⟨s₁, enough⟩ h₁
    cases enough with
    | false => exact ⟨h₁, Or.inl ⟨_, rfl⟩⟩
    | true =>
        have hv₁ : (s₁.book asset).Valid := h₁.book asset ▸ hv asset
        refine (placeMarket_venue A s₁ msg asset hv₁ .ask (by omega) _).bind fun settled hsettled => ?_
        obtain ⟨hid, fs, m, hfilled⟩ := hsettled
        refine (meets_sub_arithmetic A _ _).bind fun unfilled _ => ?_
        refine (refundAsset_venue A _ _ _ _).bind fun state hstate => ?_
        refine placed_market A msg hmarket hform ?_ h₁ hid (hfilled.after hstate)
        intro hfok
        have hfound := hdecided.1 hfok
        rwa [decide_eq_true (by omega)] at hfound

theorem handleMarketBuy_venue (hmarket : msg.orderType = .market)
    (hform : WellFormed msg asset .bid) :
    Meets Arithmetic (handleMarketBuy A s builtins msg asset msg.qty.toInt.toNat)
      (VerdictVenue A builtins s msg) := by
  have hpositive := hform.positive
  unfold handleMarketBuy
  refine (((Orderbook.quoteCostForMarketBuy_faults A (s.book asset) msg.qty.toInt.toNat
    (worstPrice builtins msg (s.book asset).bestAsk)).weaken fun _ => Overflows.arithmetic).imp
      fun r hrun _ => hrun).bind fun ⟨requiredUsd, fillableQty⟩ hrun => ?_
  have hfound : foundEnough A builtins s msg asset .bid
      = .ok (decide (msg.qty.toInt.toNat ≤ fillableQty)) := by
    simp only [foundEnough, hmarket]
    rw [hrun]
    rfl
  dsimp only
  split
  · next hshort =>
    rw [decide_eq_false (by omega)] at hfound
    exact ⟨SameVenue.refl s, Or.inr ⟨rfl, hmarket, hshort.1, asset, .bid, hform, hfound⟩⟩
  · next henough =>
    split
    · exact ⟨SameVenue.refl s, Or.inl ⟨_, rfl⟩⟩
    · refine (takerFee_arithmetic A _ _).bind fun reserve _ => ?_
      refine (add_arithmetic A _ _).bind fun total _ => ?_
      refine (lockUsd_venue A s _ _).bind ?_
      rintro ⟨s₁, enough⟩ h₁
      cases enough with
      | false => exact ⟨h₁, Or.inl ⟨_, rfl⟩⟩
      | true =>
          have hv₁ : (s₁.book asset).Valid := h₁.book asset ▸ hv asset
          refine (placeMarket_venue A s₁ msg asset hv₁ .bid (by omega) _).bind
            fun settled hsettled => ?_
          obtain ⟨hid, fs, m, hfilled⟩ := hsettled
          refine (refundUsd_venue A _ _ _).bind fun state hstate => ?_
          refine placed_market A msg hmarket hform ?_ h₁ hid (hfilled.after hstate)
          intro hfok
          rw [hfound, decide_eq_true]
          by_contra hlt
          exact henough ⟨hfok, by omega⟩

theorem judgeOrder_venue :
    Meets Arithmetic (judgeOrder A s builtins msg) (VerdictVenue A builtins s msg) := by
  unfold judgeOrder
  cases hasset : Asset.ofString? msg.asset with
  | none => exact ⟨SameVenue.refl s, Or.inl ⟨_, rfl⟩⟩
  | some asset =>
      cases hside : Side.ofString? msg.side with
      | none => exact ⟨SameVenue.refl s, Or.inl ⟨_, rfl⟩⟩
      | some side =>
          dsimp only
          split
          · exact ⟨SameVenue.refl s, Or.inl ⟨_, rfl⟩⟩
          · next hqty =>
            have hqty : 0 < msg.qty.toInt := by omega
            cases htype : msg.orderType with
            | limit => exact handleLimit_venue A msg asset hv htype ⟨hasset, hside, hqty⟩
            | market =>
                have hform : WellFormed msg asset side := ⟨hasset, hside, hqty, by simp [htype]⟩
                cases side with
                | ask => exact handleMarketSell_venue A msg asset hv htype hform
                | bid => exact handleMarketBuy_venue A msg asset hv htype hform

end Verdicts

end Place

/-! ### Events -/

def restingEvents (msg : OrderMsg) (asset : Asset) (resting : Option Order) : List ExecutionEvent :=
  (resting.map fun o => ExecutionEvent.orderCreated o.orderId o.userId asset.market msg.side o.price
    msg.qty.toInt.toNat o.remainingQty "open").toList

section Executions

@[simp] theorem executions_append (os os' : List Output) :
    executions (os ++ os') = executions os ++ executions os' :=
  List.filterMap_append

@[simp] theorem executions_map (events : List ExecutionEvent) :
    executions (events.map .execution) = events := by
  simp [executions, List.filterMap_map]

theorem executions_created (msg : OrderMsg) {p : Placement} {resting : Option Order}
    (h : p.settlement.resting = resting.map Orderbook.accepted) :
    executions (createdEvents msg p) = restingEvents msg p.asset resting := by
  unfold createdEvents
  rw [h]
  cases resting with
  | none => rfl
  | some o => rfl

/-- What an accepted order emits: its trades, its remainder, and the depth. -/
theorem executions_placed (msg : OrderMsg) {p : Placement} {resting : Option Order}
    (h : p.settlement.resting = resting.map Orderbook.accepted) (bids asks : List (Nat × Nat)) :
    executions (p.settlement.events.map .execution ++ createdEvents msg p
        ++ [placedReply msg p, .execution (.depthUpdated p.asset.market bids asks)])
      = p.settlement.events ++ restingEvents msg p.asset resting
        ++ [.depthUpdated p.asset.market bids asks] := by
  rw [executions_append, executions_append, executions_map, executions_created msg h]
  rfl

end Executions

/-! ### Messages -/

inductive VenueStep (A : Arith) (builtins : Builtins) (s : EngineState) :
    Msg → EngineState → List ExecutionEvent → Prop
  | idle {msg : Msg} {s' : EngineState} {events : List ExecutionEvent} (h : SameVenue s s')
      (hevents : ∀ e ∈ events, ∃ user currency amount operation,
        e = .fundingExecuted user currency amount operation) :
      VenueStep A builtins s msg s' events
  | order {msg : OrderMsg} {side : Side} {found : Bool} {fs : List (Order × Nat)} {m : Matching}
      {p : Placement} {bids asks : List (Nat × Nat)}
      (h : Enters A builtins s msg side found fs m p) :
      VenueStep A builtins s (.order msg) p.state (p.settlement.events
        ++ restingEvents msg p.asset (remainderOf msg ⟨s.nextOrderId, msg.userId, side⟩ m)
        ++ [.depthUpdated p.asset.market bids asks])
  | cancel {msg : CancelMsg} {s' : EngineState} {asset : Asset} {o : Order}
      {bids asks : List (Nat × Nat)}
      (hget : (s.book asset).orders[msg.orderId]? = some o) (huser : o.userId = msg.userId)
      (h : SameVenue (s.setBook asset ((s.book asset).remove o)) s') :
      VenueStep A builtins s (.cancel msg) s' [.orderCancelled o.orderId o.userId o.remainingQty,
        .depthUpdated asset.market bids asks]
  | reset {msg : ResetMsg} : VenueStep A builtins s (.reset msg) s.reset []

section Messages

variable (A : Arith) (builtins : Builtins) (s : EngineState)

theorem depthEvent_venue (asset : Asset) :
    Meets Overflows (depthEvent A s asset) fun depth =>
      ∃ bids asks, depth = .execution (.depthUpdated asset.market bids asks) :=
  (Orderbook.getState_faults A (s.book asset)).bind fun _ _ => ⟨_, _, rfl⟩

theorem depthEvent_arithmetic (asset : Asset) :
    Meets Arithmetic (depthEvent A s asset) fun depth =>
      ∃ bids asks, depth = .execution (.depthUpdated asset.market bids asks) :=
  (depthEvent_venue A s asset).weaken fun _ => Overflows.arithmetic

theorem handleOrder_venue (hv : ∀ a, (s.book a).Valid) (msg : OrderMsg) :
    Meets Arithmetic (handleOrder A s builtins msg) fun r =>
      VenueStep A builtins s (.order msg) r.1 (executions r.2) := by
  unfold handleOrder
  refine (judgeOrder_venue A msg hv).bind fun verdict hverdict => ?_
  cases verdict with
  | refused s' reply =>
      obtain ⟨hvenue, hrefusal⟩ := hverdict
      have hreply : executions [reply] = [] := by
        rcases hrefusal with ⟨error, rfl⟩ | ⟨rfl, _⟩
        · rfl
        · rfl
      refine meets_ok.mpr (VenueStep.idle hvenue ?_)
      simp [hreply]
  | placed p =>
      obtain ⟨side, found, fs, m, hp⟩ := hverdict
      refine (depthEvent_arithmetic A p.state p.asset).bind ?_
      rintro _ ⟨bids, asks, rfl⟩
      refine meets_ok.mpr ?_
      rw [executions_placed msg hp.filled.resting]
      exact .order hp

/-- On a valid book a cancellation finds no order of that id, finds another user's, or takes the order
out; it cannot fail otherwise. -/
theorem cancelOrder_spec {ob : Orderbook} (hv : ob.Valid) (orderId userId : Nat) :
    (∃ error, ob.cancelOrder orderId userId = .ok (.error error) ∧
      ∀ o, ob.orders[orderId]? = some o → o.userId ≠ userId) ∨
    ∃ o, ob.orders[orderId]? = some o ∧ o.userId = userId ∧
      ob.cancelOrder orderId userId = .ok (.ok (ob.remove o,
        ⟨o.orderId, o.userId, o.side, o.price, o.remainingQty⟩)) := by
  unfold Orderbook.cancelOrder
  cases hget : ob.orders[orderId]? with
  | none => exact Or.inl ⟨_, rfl, by simp⟩
  | some o =>
      dsimp only
      by_cases huser : o.userId = userId
      · right
        refine ⟨o, rfl, huser, ?_⟩
        have hid := hv.orderId_eq hget
        obtain ⟨level, hlevel, hmem⟩ := hv.listed hget
        rw [if_neg (by simp [huser])]
        subst hid
        simp only [Orderbook.unlist, Orderbook.levels_mk, hlevel, hmem, if_true, bind, Except.bind,
          pure, Except.pure, Orderbook.remove, Orderbook.queueAt, Option.map_some, Option.getD_some]
        cases o.side <;> rfl
      · left
        refine ⟨_, by rw [if_pos huser]; rfl, ?_⟩
        rintro _ ⟨rfl⟩
        exact huser

def cancelled (o : Order) : OrderCancelled :=
  { orderId := o.orderId, userId := o.userId, side := o.side, price := o.price,
    remainingQty := o.remainingQty }

theorem cancelInBooks_spec (hv : ∀ a, (s.book a).Valid) (orderId userId : Nat)
    (assets : List Asset) :
    (cancelInBooks s orderId userId assets = .ok none ∧ ∀ asset ∈ assets, ∀ o,
      (s.book asset).orders[orderId]? = some o → o.userId ≠ userId) ∨
    ∃ asset o, (s.book asset).orders[orderId]? = some o ∧ o.userId = userId ∧
      cancelInBooks s orderId userId assets
        = .ok (some (s.setBook asset ((s.book asset).remove o), cancelled o, asset)) := by
  induction assets with
  | nil => exact Or.inl ⟨rfl, by simp⟩
  | cons asset assets ih =>
      unfold cancelInBooks
      rcases cancelOrder_spec (hv asset) orderId userId with
        ⟨error, hrun, hnone⟩ | ⟨o, hget, huser, hrun⟩
      · rw [hrun]
        rcases ih with ⟨hrun', hnone'⟩ | ⟨asset', o, hget, huser, hrun'⟩
        · refine Or.inl ⟨hrun', ?_⟩
          simp only [List.mem_cons, forall_eq_or_imp]
          exact ⟨hnone, hnone'⟩
        · exact Or.inr ⟨asset', o, hget, huser, hrun'⟩
      · right
        refine ⟨asset, o, hget, huser, ?_⟩
        rw [hrun]
        rfl

theorem refundCancelled_venue (asset : Asset) (o : OrderCancelled) :
    Meets Arithmetic (refundCancelled A s asset o) (SameVenue s) := by
  unfold refundCancelled
  cases o.side with
  | bid =>
      refine (mul_arithmetic A _ _).bind fun cost _ => ?_
      refine (makerFee_arithmetic A _ _).bind fun fee _ => ?_
      refine (add_arithmetic A _ _).bind fun refund _ => ?_
      exact usdMut_venue (unlock_arithmetic A _ _)
  | ask => exact assetMut_venue (unlock_arithmetic A _ _)

theorem handleCancel_venue (hv : ∀ a, (s.book a).Valid) (msg : CancelMsg) :
    Meets Arithmetic (handleCancel A s msg) fun r =>
      VenueStep A builtins s (.cancel msg) r.1 (executions r.2) := by
  unfold handleCancel
  rcases cancelInBooks_spec s hv msg.orderId msg.userId Asset.all with
    ⟨hrun, _⟩ | ⟨asset, o, hget, huser, hrun⟩
  · rw [hrun]
    exact .idle (SameVenue.refl s) (by simp [executions, replyCancelError, replyTo])
  · rw [hrun]
    refine (refundCancelled_venue A _ asset (cancelled o)).bind fun s' hs' => ?_
    refine (depthEvent_arithmetic A s' asset).bind ?_
    rintro _ ⟨bids, asks, rfl⟩
    exact .cancel hget huser hs'

/-- Every message is one step of the venue, and no assertion of the book operations fails. -/
theorem handle_venue (hv : ∀ a, (s.book a).Valid) (msg : Msg) :
    Meets Arithmetic (handle A builtins s msg) fun r =>
      VenueStep A builtins s msg r.1 (executions r.2) := by
  have hidle : ∀ {msg : Msg} {outputs : List Output}, executions outputs = [] →
      VenueStep A builtins s msg s (executions outputs) := by
    intro msg outputs houtputs
    exact .idle (SameVenue.refl s) (by simp [houtputs])
  cases msg with
  | signup msg =>
      exact .idle ⟨fun a => by cases a <;> rfl, rfl, rfl⟩
        (by simp [executions, handleSignup, balanceReply, replyTo])
  | onramp msg =>
      refine (usdMut_venue (credit_arithmetic A _ _)).bind fun s' hs' => ?_
      exact VenueStep.idle hs' (by simp [executions, balanceReply, replyTo])
  | deposit msg =>
      refine (stockMut_venue (credit_arithmetic A _ _)).bind fun s' hs' => ?_
      exact VenueStep.idle hs' (by simp [executions, balanceReply, replyTo])
  | balance msg => exact hidle rfl
  | order msg => exact handleOrder_venue A builtins s hv msg
  | cancel msg => exact handleCancel_venue A builtins s hv msg
  | orderbook msg =>
      have hbook : Meets Arithmetic (handleGetOrderbook A s msg) fun outputs =>
          executions outputs = [] := by
        unfold handleGetOrderbook
        split
        · rfl
        · next ob _ =>
          refine Meets.bind ((Orderbook.getState_faults A ob).weaken
            fun _ => Overflows.arithmetic) fun _ _ => rfl
      exact hbook.bind fun _ houtputs => hidle houtputs
  | openOrders msg => exact hidle rfl
  | orderStatus msg => exact hidle rfl
  | reset msg => exact .reset

end Messages

end CexRs
