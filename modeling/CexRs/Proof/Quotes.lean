import CexRs.Proof.BookBounds
import CexRs.Proof.LockCoverage
import CexRs.Proof.Uncrossed

/-!
# Quotes and executions

The three searches read the book without changing it: `can_fill_quantity` for a limit order that is
fill-or-kill, `fillable_qty_for_market_sell` and `quote_cost_for_market_buy` for market orders. What
they find is what the matching loops then take, so a fill-or-kill order trades all of its quantity or
nothing, and nothing only if the book does not hold it.
-/

namespace CexRs

open FixedWidth OrderedMap EngineState

namespace Orderbook

variable {ob : Orderbook}

theorem Represented.valid (h : ob.Represented) : ob.Valid := by
  refine ⟨h.queued, ?_, h.nonempty, h.positive, h.increasing⟩
  intro id o hget
  obtain ⟨side, price, level, hlevel, hcount, _⟩ := h.once hget
  have hmem : id ∈ level.orders := List.count_pos_iff.mp (by omega)
  obtain ⟨o', hget', _, hside, hprice⟩ := h.queued hlevel id hmem
  rw [hget] at hget'
  cases hget'
  subst hside hprice
  exact ⟨level, hlevel, hmem⟩

/-! ### Market orders -/

/-- A market order makes the greedy trades with the orders within its worst price. -/
theorem executeMarketOrderWithId_greedy (hv : ob.Valid) {orderId : Nat} (hid : orderId + 1 < 2 ^ 64)
    (userId : Nat) (side : Side) {qty : Nat} (hqty : 0 < qty) (worst : Option Nat) :
    ∃ ob', ∀ checks, ob.executeMarketOrderWithId (u64 checks) orderId userId side qty worst
      = .ok (ob', .ok ((Matching.trades ⟨orderId, userId, side⟩ (Greedy.fills Order.remainingQty qty
          (Matching.reach ⟨orderId, userId, side⟩ (pastWorst side worst) ob))).map .trade)) := by
  obtain ⟨fs, m, hm, hrun⟩ := executeMarketOrderWithId_eq hv orderId userId side (u64_add hid) hqty worst
  have hresults := (hm.greedy (hv.issue orderId)).1
  rw [reach_countTo] at hresults
  refine ⟨m.book, fun checks => ?_⟩
  rw [executeMarketOrderWithId_agrees checks ob orderId userId side qty worst _ hrun, hresults]
  simp [outcome, Matching.trades]

/-- Matches that reach the same orders are the same. -/
theorem Matched.eq_of_reach {taker : Taker} {past past' : Nat → Bool} {qty : Nat}
    {fs fs' : List (Order × Nat)} {m m' : Matching} (hv : ob.Valid)
    (h : Matched ob taker past qty fs m) (h' : Matched ob taker past' qty fs' m')
    (hreach : Matching.reach taker past' ob = Matching.reach taker past ob) : m' = m := by
  have hfs := (h.fills.greedy hv h.stopped).1
  have hfs' := (h'.fills.greedy hv h'.stopped).1
  have hsame : fs' = fs := by rw [hfs, hfs', hreach]
  subst hsame
  exact h.fills.unique h'.fills

/-- A limit that no resting price is past is no limit. -/
theorem reach_of_unbounded {taker : Taker} {past : Nat → Bool}
    (h : ∀ o ∈ ob.priority taker.side.opposite, past o.price = false) :
    Matching.reach taker past ob = ob.priority taker.side.opposite := by
  apply List.takeWhile_eq_self_iff.mpr
  intro o ho
  simp [h o ho]

def openPrice : Side → Nat
  | .bid => 2 ^ 64 - 1
  | .ask => 1

/-- **Market orders are IOC orders.** On a book that satisfies the representation invariant, over prices
that are words, a market order with a worst price returns and leaves what an IOC limit order at that price
does, in either build, and a market order without one what an IOC limit order at the largest price does for
a bid, and at price 1 for an ask. -/
theorem marketOrder_is_ioc (h : ob.Represented)
    (hwords : ∀ (id : Nat) (o : Order), ob.orders[id]? = some o → o.price < 2 ^ 64) (checks : Bool)
    (orderId userId : Nat) (side : Side) {qty : Nat} (hqty : 0 < qty) :
    (∀ price, 0 < price → ob.executeMarketOrderWithId (u64 checks) orderId userId side qty (some price)
      = ob.addOrderWithId (u64 checks) orderId userId side price qty .ioc) ∧
    ob.executeMarketOrderWithId (u64 checks) orderId userId side qty none
      = ob.addOrderWithId (u64 checks) orderId userId side (openPrice side) qty .ioc := by
  have hv := h.valid
  -- the two orders run matches that reach the same orders, and neither rests
  have hsame : ∀ worst price, 0 < price →
      Matching.reach ⟨orderId, userId, side⟩ (pastLimit side price) ob
        = Matching.reach ⟨orderId, userId, side⟩ (pastWorst side worst) ob →
      ob.executeMarketOrderWithId (u64 checks) orderId userId side qty worst
        = ob.addOrderWithId (u64 checks) orderId userId side price qty .ioc := by
    intro worst price hprice hreach
    cases hadd : (u64 checks).add orderId 1 with
    | error fault => simp only [executeMarketOrderWithId, addOrderWithId, hadd, bind, Except.bind]
    | ok next =>
        obtain ⟨fs, m, hm, hmarket⟩ := executeMarketOrderWithId_eq hv orderId userId side hadd hqty worst
        obtain ⟨fs', m', hm', hlimit⟩ := addOrderWithId_eq hv orderId userId side hadd hprice hqty
        have hmatch : m' = m := by
          apply hm.eq_of_reach (hv.countTo next) hm'
          rw [reach_countTo, reach_countTo, hreach]
        rw [hmarket, hlimit .ioc, hmatch]
        simp [remainder, restAll, outcome]
  have hlimit : ∀ price, pastWorst side (some price) = pastLimit side price := by
    intro price
    cases side <;> rfl
  refine ⟨fun price hprice => hsame (some price) price hprice (by rw [hlimit]), ?_⟩
  have hresting : ∀ o ∈ ob.priority side.opposite, 0 < o.price ∧ o.price < 2 ^ 64 := by
    intro o ho
    have hget := (hv.mem_priority.mp ho).1
    exact ⟨(hv.positive hget).1, hwords _ o hget⟩
  have hunbounded : ∀ o ∈ ob.priority side.opposite, pastLimit side (openPrice side) o.price = false := by
    intro o ho
    obtain ⟨hpos, hlt⟩ := hresting o ho
    cases side with
    | bid =>
        apply decide_eq_false
        simp only [openPrice]
        omega
    | ask =>
        apply decide_eq_false
        simp only [openPrice]
        omega
  apply hsame none (openPrice side) (by cases side <;> simp [openPrice])
  have hworst : Matching.reach ⟨orderId, userId, side⟩ (pastWorst side none) ob
      = ob.priority side.opposite := reach_of_unbounded fun _ _ => rfl
  rw [hworst]
  exact reach_of_unbounded hunbounded

/-- A sell of twelve down to 90 is the IOC ask of twelve at 90. -/
theorem marketOrder_is_ioc_threeBids :
    threeBids.executeMarketOrderWithId (u64 true) 4 40 .ask 12 (some 90)
      = threeBids.addOrderWithId (u64 true) 4 40 .ask 90 12 .ioc := by
  have hwords : ∀ (id : Nat) (o : Order), threeBids.orders[id]? = some o → o.price < 2 ^ 64 := by
    intro id o hget
    have hall : threeBids.orders.toList.all (fun e => decide (e.2.price < 2 ^ 64)) = true := by
      decide +kernel
    exact of_decide_eq_true (List.all_eq_true.mp hall (id, o) (mem_toList.mpr hget))
  exact (marketOrder_is_ioc valid_threeBids.represented hwords true 4 40 .ask (by decide)).1 90 (by decide)

/-- **Quotes agree with execution.** On a book that satisfies the representation invariant, the quote
of a market buy is the value and the quantity of the trades that the order then makes, if that value
fits in a word, and the quantity that a market sell is told is fillable is what it then sells. -/
theorem quotes_agree (h : ob.Represented) {orderId : Nat} (hid : orderId + 1 < 2 ^ 64) (userId : Nat)
    {qty : Nat} (hqty : 0 < qty) (hword : qty < 2 ^ 64) (worst : Option Nat) :
    (∃ (ob' : Orderbook) (ts : List Trade),
      (∀ checks, ob.executeMarketOrderWithId (u64 checks) orderId userId .bid qty worst
        = .ok (ob', .ok (ts.map .trade))) ∧
      ((ts.map fun t => t.price * t.qty).sum < 2 ^ 64 → ∀ checks,
        ob.quoteCostForMarketBuy (u64 checks) qty worst
          = .ok ((ts.map fun t => t.price * t.qty).sum, (ts.map Trade.qty).sum))) ∧
    ∃ (ob' : Orderbook) (ts : List Trade),
      (∀ checks, ob.executeMarketOrderWithId (u64 checks) orderId userId .ask qty worst
        = .ok (ob', .ok (ts.map .trade))) ∧
      ∀ checks, ob.fillableQtyForMarketSell (u64 checks) qty worst = .ok (ts.map Trade.qty).sum := by
  have hv := h.valid
  constructor
  · obtain ⟨ob', hrun⟩ := executeMarketOrderWithId_greedy hv hid userId .bid hqty worst
    refine ⟨ob', _, hrun, fun hcost checks => ?_⟩
    have hvalue : ∀ fs, ((Matching.trades ⟨orderId, userId, .bid⟩ fs).map fun t => t.price * t.qty).sum
        = fillCost fs := by
      intro fs
      rw [Matching.trades, List.map_map]
      rfl
    rw [hvalue] at hcost ⊢
    obtain ⟨r, hquote, hr⟩ := (quoteCostForMarketBuy_spec hv hqty worst ⟨orderId, userId, .bid⟩
      rfl).ok_of_fits (quoteCostForMarketBuy_fits hv hqty hword worst ⟨orderId, userId, .bid⟩ rfl hcost)
    rw [Matching.sum_qty_trades, ← hr]
    exact quoteCostForMarketBuy_agrees checks ob qty worst r hquote
  · obtain ⟨ob', hrun⟩ := executeMarketOrderWithId_greedy hv hid userId .ask hqty worst
    refine ⟨ob', _, hrun, fun checks => ?_⟩
    obtain ⟨r, hfillable, hr⟩ := (fillableQtyForMarketSell_spec hv hqty worst ⟨orderId, userId, .ask⟩
      rfl).ok_of_fits (fillableQtyForMarketSell_fits hv hqty hword worst)
    rw [Matching.sum_qty_trades, Greedy.sum_fills, ← hr]
    exact fillableQtyForMarketSell_agrees checks ob qty worst r hfillable

/-- A sell of twelve down to 90 is told of the quantity that it then sells to the three bids. -/
theorem quotes_agree_threeBids :
    ∃ (ob' : Orderbook) (ts : List Trade),
      threeBids.executeMarketOrderWithId (u64 false) 4 40 .ask 12 (some 90)
        = .ok (ob', .ok (ts.map .trade)) ∧ ts.length = 3 ∧
      threeBids.fillableQtyForMarketSell (u64 false) 12 (some 90) = .ok (ts.map Trade.qty).sum := by
  obtain ⟨_, ob', ts, hrun, hsell⟩ := quotes_agree valid_threeBids.represented
    (show 4 + 1 < 2 ^ 64 by decide) 40 (show 0 < 12 by decide) (by decide) (some 90)
  obtain ⟨r, hr, htest⟩ := exists_of_returns
    (threeBids.executeMarketOrderWithId (u64 false) 4 40 .ask 12 (some 90))
    (fun r => match r.2 with
      | .ok results => decide (results.length = 3)
      | .error _ => false) (by decide +kernel)
  rw [hrun] at hr
  cases hr
  have hlength := of_decide_eq_true htest
  rw [List.length_map] at hlength
  exact ⟨ob', ts, hrun false, hlength, hsell false⟩

/-! ### The orders at crossing prices -/

/-- Further down the priority list the price is the same or further away. -/
theorem Valid.priority_pairwise (hv : ob.Valid) (side : Side) : (ob.priority side).Pairwise fun a b =>
    b.price = a.price ∨ pastLimit side.opposite a.price b.price = true := by
  have hprice : ∀ e ∈ ob.walk side, ∀ o ∈ ob.queueOrders e.2, o.price = e.1 := by
    rintro ⟨price, level⟩ he o ho
    have hlevel := (ob.mem_walk side).mp he
    obtain ⟨id, hid, hget⟩ := List.mem_filterMap.mp ho
    obtain ⟨o', hget', _, _, hprice⟩ := hv.queued hlevel id hid
    rw [hget] at hget'
    cases hget'
    exact hprice
  rw [priority, List.pairwise_flatMap]
  constructor
  · intro e he
    apply List.pairwise_of_forall_mem_list
    intro a ha b hb
    left
    rw [hprice e he a ha, hprice e he b hb]
  · apply (ob.walk_pairwise_past side).imp_of_mem
    intro e e' he he' hpast a ha b hb
    right
    rw [hprice e he a ha, hprice e' he' b hb]
    exact hpast

/-- A limit that a price is past is one that every price further away is past. -/
theorem pastWorst_mono {side : Side} (worst : Option Nat) {a b : Nat}
    (hfar : b = a ∨ pastLimit side a b = true) (h : pastWorst side worst a = true) :
    pastWorst side worst b = true := by
  rcases hfar with rfl | hfar
  · exact h
  · cases worst with
    | none => cases h
    | some cap => exact pastLimit_trans h hfar

end Orderbook

/-- Where a test that fails goes on failing, what stands before the first failure is what passes. -/
theorem takeWhile_eq_filter {α : Type} {test : α → Bool} {l : List α}
    (h : l.Pairwise fun a b => test b = true → test a = true) : l.takeWhile test = l.filter test := by
  induction l with
  | nil => rfl
  | cons a l ih =>
      rw [List.pairwise_cons] at h
      by_cases ha : test a = true
      · rw [List.takeWhile_cons_of_pos ha, List.filter_cons_of_pos ha, ih h.2]
      · rw [List.takeWhile_cons_of_neg ha, List.filter_cons_of_neg ha]
        symm
        rw [List.filter_eq_nil_iff]
        intro b hb hpass
        exact ha (h.1 b hb hpass)

section Crossing

variable (builtins : Builtins) (s : EngineState) (msg : OrderMsg) (asset : Asset) (side : Side)

def crossingQty : Nat :=
  (((s.book asset).restingOrders.filter fun o =>
    o.side = side.opposite && !orderPast builtins s msg asset side o.price).map
      Order.remainingQty).sum

theorem orderPast_mono {a b : Nat} (hfar : b = a ∨ Orderbook.pastLimit side a b = true)
    (h : orderPast builtins s msg asset side a = true) :
    orderPast builtins s msg asset side b = true := by
  unfold orderPast at h ⊢
  cases htype : msg.orderType with
  | limit =>
      rw [htype] at h
      exact Orderbook.pastWorst_mono (some msg.price.toInt.toNat) hfar h
  | market =>
      rw [htype] at h
      exact Orderbook.pastWorst_mono _ hfar h

/-- What an order crosses in turn is all that rests at prices it trades at. -/
theorem crossedQty_eq (hv : (s.book asset).Valid) :
    crossedQty builtins s msg asset side = crossingQty builtins s msg asset side := by
  unfold crossedQty crossedOrders crossingQty Matching.reach
  apply List.Perm.sum_eq
  apply List.Perm.map
  have hopposite : side.opposite.opposite = side := by cases side <;> rfl
  rw [takeWhile_eq_filter]
  · apply (List.perm_ext_iff_of_nodup ((hv.nodup_priority _).filter _)
      (hv.nodup_restingOrders.filter _)).mpr
    intro o
    simp only [List.mem_filter, hv.mem_priority, hv.mem_restingOrders, Bool.and_eq_true,
      decide_eq_true_eq]
    tauto
  · apply (hv.priority_pairwise side.opposite).imp
    intro a b hfar hpass
    rw [hopposite] at hfar
    cases hpast : orderPast builtins s msg asset side a.price with
    | false => rfl
    | true =>
        rw [orderPast_mono builtins s msg asset side hfar hpast] at hpass
        cases hpass

end Crossing

/-! ### Fill or kill -/

section Found

variable {builtins : Builtins} {s : EngineState} {msg : OrderMsg} {asset : Asset} {side : Side}

theorem foundEnough_agrees (checks : Bool) :
    Agrees (foundEnough (u64 true) builtins s msg asset side)
      (foundEnough (u64 checks) builtins s msg asset side) := by
  unfold foundEnough
  cases msg.orderType with
  | limit => exact canFillQuantity_agrees checks _ _ _ _
  | market =>
      cases side with
      | ask => exact (fillableQtyForMarketSell_agrees checks _ _ _).bind fun _ => Agrees.refl _
      | bid => exact (quoteCostForMarketBuy_agrees checks _ _ _).bind fun _ => Agrees.refl _

/-- Whichever search an order makes, it finds enough exactly if what it crosses is enough. -/
theorem foundEnough_eq (checks : Bool) (hv : (s.book asset).Valid) (hqty : 0 < msg.qty.toInt)
    (hsmall : ∀ (id : Nat) (o : Order), (s.book asset).orders[id]? = some o → o.remainingQty < 2 ^ 63)
    (hcost : msg.orderType = .market → side = .bid → marketCost builtins s msg asset < 2 ^ 64) :
    foundEnough (u64 checks) builtins s msg asset side
      = .ok (decide (msg.qty.toInt.toNat ≤ crossedQty builtins s msg asset side)) := by
  apply foundEnough_agrees checks
  have hpos : 0 < msg.qty.toInt.toNat := by omega
  have hlt : msg.qty.toInt.toNat < 2 ^ 63 := by
    have hbound := msg.qty.toInt_lt
    omega
  have hword : msg.qty.toInt.toNat < 2 ^ 64 := by omega
  unfold foundEnough crossedQty crossedOrders orderPast
  cases htype : msg.orderType with
  | limit =>
      obtain ⟨found, hrun, hfound⟩ := (Orderbook.canFillQuantity_spec (hv.issue s.nextOrderId)
        ⟨s.nextOrderId, msg.userId, side⟩ msg.price.toInt.toNat hpos).ok_of_fits
        (Orderbook.canFillQuantity_fits (hv.issue s.nextOrderId) side _ hlt hsmall)
      rw [Orderbook.reach_countTo] at hfound
      dsimp only
      rw [hrun, hfound]
  | market =>
      cases side with
      | ask =>
          obtain ⟨fillable, hrun, hfillable⟩ := (Orderbook.fillableQtyForMarketSell_spec hv hpos
            (worstPrice builtins msg (s.book asset).bestBid) ⟨s.nextOrderId, msg.userId, .ask⟩
            rfl).ok_of_fits (Orderbook.fillableQtyForMarketSell_fits hv hpos hword _)
          dsimp only
          rw [hrun, ok_bind, hfillable]
          exact congrArg Except.ok (decide_eq_decide.mpr (le_min_iff.trans (and_iff_right le_rfl)))
      | bid =>
          have hcost := hcost htype rfl
          simp only [marketCost, crossedOrders, orderPast, htype] at hcost
          obtain ⟨r, hrun, hr⟩ := (Orderbook.quoteCostForMarketBuy_spec hv hpos
            (worstPrice builtins msg (s.book asset).bestAsk) ⟨s.nextOrderId, msg.userId, .bid⟩
            rfl).ok_of_fits (Orderbook.quoteCostForMarketBuy_fits hv hpos hword _ _ rfl hcost)
          simp only [Greedy.sum_fills] at hr
          dsimp only
          rw [hrun, ok_bind, hr]
          exact congrArg Except.ok (decide_eq_decide.mpr (le_min_iff.trans (and_iff_right le_rfl)))

end Found

def ExecutionEvent.tradedQty : ExecutionEvent → Nat
  | .tradeExecuted _ _ _ _ _ _ qty _ _ _ _ _ => qty
  | _ => 0

def tradedQty (outputs : List Output) : Nat :=
  ((executions outputs).map ExecutionEvent.tradedQty).sum

def ExecutionEvent.isTrade : ExecutionEvent → Bool
  | .tradeExecuted _ _ _ _ _ _ _ _ _ _ _ _ => true
  | _ => false

def tradeEvents (outputs : List Output) : List ExecutionEvent :=
  (executions outputs).filter ExecutionEvent.isTrade

theorem tradeEvents_placed {msg : OrderMsg} {p : Placement} {resting : Option Order} {ob : Orderbook}
    {ts : List Trade} (hresting : p.settlement.resting = resting.map Orderbook.accepted)
    (hreports : List.Forall₂ (Trade.Reports ob p.asset) ts p.settlement.events)
    (bids asks : List (Nat × Nat)) :
    tradeEvents (p.settlement.events.map .execution ++ createdEvents msg p
      ++ [placedReply msg p, .execution (.depthUpdated p.asset.market bids asks)])
      = p.settlement.events := by
  have htrades : p.settlement.events.filter ExecutionEvent.isTrade = p.settlement.events := by
    generalize p.settlement.events = events at hreports
    induction hreports with
    | nil => rfl
    | cons hreport _ ih =>
        obtain ⟨_, _, _, rfl⟩ := hreport
        rw [List.filter_cons_of_pos rfl, ih]
  have hcreated : (restingEvents msg p.asset resting).filter ExecutionEvent.isTrade = [] := by
    unfold restingEvents
    cases resting with
    | none => rfl
    | some o => rfl
  rw [tradeEvents, executions_placed msg hresting, List.filter_append, List.filter_append, hcreated,
    htrades]
  simp [ExecutionEvent.isTrade]

def Output.isError : Output → Bool
  | .reply _ (.order _ _ _ (some _) _) => true
  | _ => false

def answeredWithError (outputs : List Output) : Bool := outputs.any Output.isError

theorem exists_left_of_mem {α β : Type} {R : α → β → Prop} {l : List α} {l' : List β}
    (h : List.Forall₂ R l l') {b : β} (hb : b ∈ l') : ∃ a ∈ l, R a b := by
  induction h with
  | nil => cases hb
  | @cons a b' l l' hab _ ih =>
      rcases List.mem_cons.mp hb with rfl | hb
      · exact ⟨a, List.mem_cons_self .., hab⟩
      · obtain ⟨a', hmem, hab'⟩ := ih hb
        exact ⟨a', List.mem_cons_of_mem _ hmem, hab'⟩

theorem sum_tradedQty {ob : Orderbook} {asset : Asset} {ts : List Trade} {events : List ExecutionEvent}
    (h : List.Forall₂ (Trade.Reports ob asset) ts events) :
    (events.map ExecutionEvent.tradedQty).sum = (ts.map Trade.qty).sum := by
  induction h with
  | nil => rfl
  | cons hreports _ ih =>
      obtain ⟨quoteAmount, buyerFee, sellerFee, rfl⟩ := hreports
      rw [List.map_cons, List.sum_cons, List.map_cons, List.sum_cons, ih]
      rfl

/-- What a placed order has traded, from what is published of it. -/
theorem tradedQty_placed {ob : Orderbook} {taker : Taker} {fs : List (Order × Nat)}
    {resting : Option Order} {p : Placement} (msg : OrderMsg)
    (hresting : p.settlement.resting = resting.map Orderbook.accepted)
    (hreports : List.Forall₂ (Trade.Reports ob p.asset) (Matching.trades taker fs) p.settlement.events)
    (bids asks : List (Nat × Nat)) :
    tradedQty (p.settlement.events.map .execution ++ createdEvents msg p
      ++ [placedReply msg p, .execution (.depthUpdated p.asset.market bids asks)])
      = (fs.map Prod.snd).sum := by
  have hrest : ((restingEvents msg p.asset resting).map ExecutionEvent.tradedQty).sum = 0 := by
    unfold restingEvents
    cases resting with
    | none => rfl
    | some o => rfl
  rw [tradedQty, executions_placed msg hresting, List.map_append, List.map_append, List.sum_append,
    List.sum_append, hrest, sum_tradedQty hreports, Matching.sum_qty_trades]
  simp [ExecutionEvent.tradedQty]

def SameResting (s s' : EngineState) : Prop :=
  ∀ asset, (s'.book asset).orders = (s.book asset).orders ∧
    ∀ side, (s'.book asset).levels side = (s.book asset).levels side

/-- All of a quantity is traded or nothing, nothing only if what the order crosses falls short of it,
and then no resting order changes. -/
structure AllOrNothing (s s' : EngineState) (traded qty crossing : Nat) : Prop where
  allOrNothing : traded = 0 ∨ traded = qty
  all : traded = qty ↔ qty ≤ crossing
  nothing : traded = 0 → SameResting s s'

theorem Enters.allOrNothing {A : Arith} {builtins : Builtins} {s : EngineState} {msg : OrderMsg}
    {side : Side} {found : Bool} {fs : List (Order × Nat)} {m : Matching} {p : Placement}
    (h : Enters A builtins s msg side found fs m p) (hv : s.Valid) (hfok : msg.timeInForce = .fok)
    (hfound : found = decide (msg.qty.toInt.toNat ≤ crossedQty builtins s msg p.asset side)) :
    AllOrNothing s p.state (fs.map Prod.snd).sum msg.qty.toInt.toNat
      (crossedQty builtins s msg p.asset side) := by
  have hexec := h.filled.executed
  have hpositive := h.wellFormed.positive
  have hrests : remainderOf msg ⟨s.nextOrderId, msg.userId, side⟩ m = none := by
    cases hrest : remainderOf msg ⟨s.nextOrderId, msg.userId, side⟩ m with
    | none => rfl
    | some o =>
        have hgtc := (remainderOf_some hrest).2.1
        rw [hfok] at hgtc
        cases hgtc
  cases found with
  | true =>
      have hle : msg.qty.toInt.toNat ≤ crossedQty builtins s msg p.asset side :=
        of_decide_eq_true hfound.symm
      have hgreedy := (hexec.took.fills.greedy ((hv.book p.asset).issue _) (h.filled.stopped rfl)).1
      rw [Orderbook.reach_countTo] at hgreedy
      have hsum : (fs.map Prod.snd).sum = msg.qty.toInt.toNat := by
        rw [hgreedy, Greedy.sum_fills]
        exact Nat.min_eq_left hle
      exact ⟨Or.inr hsum, iff_of_true hsum hle, by omega⟩
  | false =>
      have hlt : ¬ msg.qty.toInt.toNat ≤ crossedQty builtins s msg p.asset side :=
        of_decide_eq_false hfound.symm
      have hnil := h.filled.killed rfl
      subst hnil
      have hbook : m.book = (s.book p.asset).issue s.nextOrderId := by
        have hfills := hexec.took.fills
        cases hfills
        rfl
      refine ⟨Or.inl rfl, ?_, fun _ asset => ?_⟩
      · simp only [List.map_nil, List.sum_nil]
        omega
      · by_cases hasset : asset = p.asset
        · subst hasset
          rw [hexec.book_self, hrests]
          simp [Orderbook.restAll, hbook]
        · rw [hexec.book_other asset hasset]
          exact ⟨rfl, fun _ => rfl⟩

theorem handleOrder_fok {checks : Bool} {builtins : Builtins} {s s' : EngineState} {msg : OrderMsg}
    {outputs : List Output} (hv : s.Valid) (hfok : msg.timeInForce = .fok)
    (hsmall : ∀ (asset : Asset) (id : Nat) (o : Order), (s.book asset).orders[id]? = some o →
      o.remainingQty < 2 ^ 63)
    (hcost : msg.orderType = .market → Side.ofString? msg.side = some .bid →
      ∀ asset, marketCost builtins s msg asset < 2 ^ 64)
    (hhandle : handleOrder (u64 checks) s builtins msg = .ok (s', outputs))
    (hanswer : answeredWithError outputs = false) :
    ∃ asset side, WellFormed msg asset side ∧ AllOrNothing s s' (tradedQty outputs)
      msg.qty.toInt.toNat (crossingQty builtins s msg asset side) := by
  have hfound : ∀ {asset side}, WellFormed msg asset side →
      foundEnough (u64 checks) builtins s msg asset side
        = .ok (decide (msg.qty.toInt.toNat ≤ crossedQty builtins s msg asset side)) := by
    intro asset side hform
    apply foundEnough_eq checks (hv.book asset) hform.positive (hsmall asset)
    intro hmarket hbid
    exact hcost hmarket (hbid ▸ hform.side) asset
  have hjudged : Meets Arithmetic (judgeOrder (u64 checks) s builtins msg)
      (VerdictVenue (u64 checks) builtins s msg) := judgeOrder_venue (u64 checks) msg hv.book
  obtain ⟨verdict, hjudge, hafter⟩ := bind_ok hhandle
  have hverdict := hjudged.of_ok hjudge
  cases verdict with
  | refused state reply =>
      cases hafter
      obtain ⟨hvenue, hrefusal⟩ := hverdict
      rcases hrefusal with ⟨error, rfl⟩ | ⟨rfl, _, _, asset, side, hform, hshort⟩
      · cases hanswer
      · have hlt := (hfound hform).symm.trans hshort
        simp only [Except.ok.injEq, decide_eq_false_iff_not] at hlt
        rw [crossedQty_eq builtins s msg asset side (hv.book asset)] at hlt
        have hpositive := hform.positive
        have hzero : tradedQty [unfilledReply msg] = 0 := rfl
        rw [hzero]
        refine ⟨asset, side, hform, Or.inl rfl, by omega, fun _ a => ?_⟩
        rw [hvenue.book a]
        exact ⟨rfl, fun _ => rfl⟩
  | placed p =>
      obtain ⟨side, found, fs, m, henters⟩ := hverdict
      have hform := henters.wellFormed
      have hdecided := (henters.decided.fok hfok).symm.trans (hfound hform)
      obtain ⟨depth, hevent, hafter⟩ := bind_ok hafter
      obtain ⟨bids, asks, rfl⟩ := (depthEvent_venue (u64 checks) p.state p.asset).of_ok hevent
      cases hafter
      refine ⟨p.asset, side, hform, ?_⟩
      rw [← crossedQty_eq builtins s msg p.asset side (hv.book p.asset),
        tradedQty_placed msg henters.filled.resting henters.filled.reports]
      exact henters.allOrNothing hv hfok (Except.ok.inj hdecided)

/-! ### Runs -/

/-- Resting quantities are below `2 ^ 63`, as the quantity of a message is. -/
def SmallQuantities (s : EngineState) : Prop :=
  ∀ (asset : Asset) (id : Nat) (o : Order), (s.book asset).orders[id]? = some o →
    o.remainingQty < 2 ^ 63

theorem run_valid_small (checks : Bool) (builtins : Builtins) (fees : FeeSchedule) (msgs : List Msg)
    {s : EngineState} {outputs : List Output}
    (hrun : run (u64 checks) builtins (.new fees) msgs = .ok (s, outputs)) :
    s.Valid ∧ SmallQuantities s := by
  have hsmall := run_allResting (u64 checks) builtins (.new fees) (valid_new fees)
    (P := fun o => o.remainingQty < 2 ^ 63) (fun hlt _ _ hle => lt_of_le_of_lt hle hlt) msgs ?_
    (allResting_new fees _)
  · exact hsmall.of_ok hrun
  · intro order o _ _ _ hle
    have hbound := order.qty.toInt_lt
    omega

/-- **Fill or kill.** In a state that a run reaches, in either build, the search of `can_fill_quantity`
does not overflow, and a fill-or-kill order that is not answered with an error trades all of its
quantity or nothing: all of it exactly if that much rests on the other side at prices it trades at,
and otherwise no resting order changes. -/
theorem run_fok_all_or_nothing (checks : Bool) (builtins : Builtins) (fees : FeeSchedule)
    (msgs : List Msg) {s : EngineState} {outputs₀ : List Output}
    (hrun : run (u64 checks) builtins (.new fees) msgs = .ok (s, outputs₀)) :
    (∀ asset side price qty, qty < 2 ^ 63 →
      ∃ found, (s.book asset).canFillQuantity (u64 true) side price qty = .ok found) ∧
    ∀ (msg : OrderMsg) (s' : EngineState) (outputs : List Output), msg.timeInForce = .fok →
      (msg.orderType = .market → Side.ofString? msg.side = some .bid →
        ∀ asset, marketCost builtins s msg asset < 2 ^ 64) →
      handleOrder (u64 checks) s builtins msg = .ok (s', outputs) → answeredWithError outputs = false →
      ∃ asset side, WellFormed msg asset side ∧ AllOrNothing s s' (tradedQty outputs)
        msg.qty.toInt.toNat (crossingQty builtins s msg asset side) := by
  obtain ⟨hv, hsmall⟩ := run_valid_small checks builtins fees msgs hrun
  constructor
  · intro asset side price qty hlt
    obtain ⟨found, hfound, _⟩ := (Orderbook.canFillQuantity_faults (u64 true) (s.book asset) side price
      qty).ok_of_fits (Orderbook.canFillQuantity_fits (hv.book asset) side price hlt (hsmall asset))
    exact ⟨found, hfound⟩
  · intro msg s' outputs hfok hcost hhandle hanswer
    exact handleOrder_fok hv hfok hsmall hcost hhandle hanswer

/-- A sale of all that is bid for, or nothing. -/
def wholeAsk : OrderMsg := ⟨2, "SOL", "ask", .limit, 100, 10, none, .fok, "q", "d"⟩

theorem run_fok_all_or_nothing_wholeAsk :
    ∃ s s' outputs, handleOrder (u64 false) s .noSlippage wholeAsk = .ok (s', outputs) ∧
      tradedQty outputs = 10 ∧ AllOrNothing s s' (tradedQty outputs) 10
        (crossingQty .noSlippage s wholeAsk .sol .ask) := by
  obtain ⟨⟨s, outputs₀⟩, hrun, htest⟩ := exists_of_returns
    (run (u64 false) .noSlippage (.new ⟨10, 20⟩) (session.take 3))
    (fun r => returns (fun r' => decide (tradedQty r'.2 = 10) && !answeredWithError r'.2)
      (handleOrder (u64 false) r.1 .noSlippage wholeAsk)) (by decide +kernel)
  obtain ⟨⟨s', outputs⟩, hhandle, htest⟩ := exists_of_returns _ _ htest
  rw [Bool.and_eq_true, Bool.not_eq_true'] at htest
  obtain ⟨_, hfok⟩ := run_fok_all_or_nothing false .noSlippage ⟨10, 20⟩ (session.take 3) hrun
  obtain ⟨asset, side, hform, hall⟩ := hfok wholeAsk s' outputs rfl (fun h => by cases h) hhandle htest.2
  have hasset : asset = .sol := (Option.some.inj hform.asset).symm
  have hside : side = .ask := (Option.some.inj hform.side).symm
  subst hasset hside
  exact ⟨s, s', outputs, hhandle, of_decide_eq_true htest.1, hall⟩

end CexRs
