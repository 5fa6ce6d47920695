import CexRs.Proof.Quotes
import CexRs.Proof.Reference

/-!
# Replies to orders

An order is answered once. A refusal, and the reply that nothing was filled, leave no trace but a counter;
every other reply says what has been traded and what rests.
-/

namespace CexRs

open FixedWidth OrderedMap Journal EngineState

def replies (outputs : List Output) : List (String × Reply) :=
  outputs.filterMap fun
    | .reply channel payload => some (channel, payload)
    | .execution _ => none

@[simp] theorem replies_append (os os' : List Output) :
    replies (os ++ os') = replies os ++ replies os' :=
  List.filterMap_append

@[simp] theorem replies_executions (events : List ExecutionEvent) :
    replies (events.map .execution) = [] := by
  simp [replies, List.filterMap_map]

theorem replies_created (msg : OrderMsg) (p : Placement) : replies (createdEvents msg p) = [] := by
  unfold createdEvents
  cases p.settlement.resting with
  | none => rfl
  | some accepted => rfl

theorem answeredWithError_of_replies {outputs : List Output} {channel identifier error : String}
    {orderId : Option Nat} {status : Option String} {code : Option Nat}
    (h : replies outputs = [(channel, .order identifier orderId status (some error) code)]) :
    answeredWithError outputs = true := by
  have hmem : (channel, Reply.order identifier orderId status (some error) code) ∈ replies outputs := by
    rw [h]
    exact List.mem_singleton_self _
  obtain ⟨output, houtput, hreply⟩ := List.mem_filterMap.mp hmem
  apply List.any_eq_true.mpr
  refine ⟨output, houtput, ?_⟩
  cases output with
  | reply channel' payload =>
      cases hreply
      rfl
  | execution event => cases hreply

/-- A placed order gets the reply of its placement, and no other. -/
theorem replies_placed (msg : OrderMsg) (p : Placement) (bids asks : List (Nat × Nat)) :
    replies (p.settlement.events.map .execution ++ createdEvents msg p
        ++ [placedReply msg p, .execution (.depthUpdated p.asset.market bids asks)])
      = [("response-queue" ++ msg.queueId, .order msg.identifier
          (p.settlement.resting.map OrderAccepted.orderId)
          (some (orderStatus msg.qty.toInt.toNat p.settlement)) none none)] := by
  rw [replies_append, replies_append, replies_executions, replies_created]
  rfl

theorem balance_eq_of_holding {s s' : EngineState} (h : ∀ k, s'.holding k = s.holding k) (user : Nat)
    (currency : Currency) : s'.balance user currency = s.balance user currency := by
  have havailable : (s'.balance user currency).available = (s.balance user currency).available :=
    h ⟨user, currency, false⟩
  have hlocked : (s'.balance user currency).locked = (s.balance user currency).locked :=
    h ⟨user, currency, true⟩
  exact Balance.ext havailable hlocked

/-! ### What a placed order has done -/

section Placed

variable {s : EngineState} {msg : OrderMsg} {side : Side} {past : Nat → Bool} {qty : Nat}
  {fs : List (Order × Nat)} {m : Matching} {p : Placement} {builtins : Builtins}

/-- The quantity of a placed order is traded, rests, or is given up. -/
theorem Placed.filled_add (h : Placed s msg side past qty fs m
    (remainderOf msg ⟨s.nextOrderId, msg.userId, side⟩ m) p) :
    p.settlement.filledQty + m.remainingQty = qty := by
  have hremaining := h.executed.took.fills.remaining
  rw [h.filledQty]
  simp only at hremaining
  omega

/-- The events of a placed order report its trades. -/
theorem Placed.reports {resting : Option Order} (h : Placed s msg side past qty fs m resting p) :
    List.Forall₂ (Trade.Reports (p.state.book p.asset) p.asset)
      (Matching.trades ⟨s.nextOrderId, msg.userId, side⟩ fs) p.settlement.events := by
  rw [h.events, List.forall₂_map_right_iff]
  apply List.forall₂_same.mpr
  intro t _
  exact ⟨_, _, _, rfl⟩

/-- An order that trades nothing meets no maker. -/
theorem Placed.fills_nil {resting : Option Order} (h : Placed s msg side past qty fs m resting p)
    (hv : s.Valid) (hzero : p.settlement.filledQty = 0) : fs = [] := by
  cases hfs : fs with
  | nil => rfl
  | cons f fs' =>
      have hpos := (h.executed.maker hv (o := f.1) (n := f.2) (hfs ▸ List.mem_cons_self ..)).2.1
      have hsum := h.filledQty
      rw [hzero, hfs, List.map_cons, List.sum_cons] at hsum
      omega

/-- An order that has traded nothing and left nothing to rest has moved nothing but the counters. -/
theorem Placed.untouched (h : Placed s msg side past qty [] m none p) :
    (∀ user currency, p.state.balance user currency = s.balance user currency) ∧
      p.state.book p.asset = (s.book p.asset).issue s.nextOrderId := by
  constructor
  · apply balance_eq_of_holding
    intro k
    have hposts := h.posts_reference k
    simp only [settlementReference, Matching.trades, List.map_nil, List.flatMap_nil, Option.elim_none,
      List.append_nil, net_nil, add_zero] at hposts
    exact_mod_cast hposts
  · rw [h.executed.book_self, Orderbook.restAll, Option.elim_none]
    cases h.executed.took.fills
    rfl

end Placed

/-! ### The status of an order -/

section Status

variable {qty : Nat} {settled : Settlement}

theorem orderStatus_of_some {accepted : OrderAccepted} (h : settled.resting = some accepted) :
    orderStatus qty settled = "open" := by
  simp [orderStatus, h]

theorem orderStatus_of_none (h : settled.resting = none) :
    orderStatus qty settled = if settled.filledQty = qty then "filled"
      else if 0 < settled.filledQty then "partially_filled" else "unfilled" := by
  simp [orderStatus, h]

theorem orderStatus_open : orderStatus qty settled = "open" ↔ settled.resting.isSome := by
  cases h : settled.resting with
  | none =>
      rw [orderStatus_of_none h]
      split_ifs <;> simp
  | some accepted => simp [orderStatus_of_some h]

theorem orderStatus_filled :
    orderStatus qty settled = "filled" ↔ settled.resting = none ∧ settled.filledQty = qty := by
  cases h : settled.resting with
  | none =>
      rw [orderStatus_of_none h]
      split_ifs <;> simp_all
  | some accepted => simp [orderStatus_of_some h]

theorem orderStatus_partly : orderStatus qty settled = "partially_filled" ↔
    settled.resting = none ∧ 0 < settled.filledQty ∧ settled.filledQty ≠ qty := by
  cases h : settled.resting with
  | none =>
      rw [orderStatus_of_none h]
      split_ifs <;> simp_all
  | some accepted => simp [orderStatus_of_some h]

theorem orderStatus_unfilled (hqty : 0 < qty) :
    orderStatus qty settled = "unfilled" ↔ settled.resting = none ∧ settled.filledQty = 0 := by
  cases h : settled.resting with
  | none =>
      rw [orderStatus_of_none h]
      split_ifs with hfilled hpart
      · simp [hfilled, Nat.ne_of_gt hqty]
      · simp [Nat.ne_of_gt hpart]
      · simp [Nat.eq_zero_of_not_pos hpart]
  | some accepted => simp [orderStatus_of_some h]

end Status

/-! ### Refused and killed orders -/

structure NoTrace (s s' : EngineState) (events : List ExecutionEvent) : Prop where
  balance : ∀ user currency, s'.balance user currency = s.balance user currency
  book : ∀ asset, ∃ n, (s.book asset).nextOrderId ≤ n ∧
    s'.book asset = { s.book asset with nextOrderId := n }
  nextOrderId : s.nextOrderId ≤ s'.nextOrderId
  feeSchedule : s'.feeSchedule = s.feeSchedule
  events : ∀ e ∈ events, ∃ market bids asks, e = .depthUpdated market bids asks

def Rejected (outputs : List Output) : Prop :=
  ∃ channel identifier orderId status error code,
    (channel, Reply.order identifier orderId status error code) ∈ replies outputs ∧
      (error.isSome ∨ status = some "unfilled")

theorem noTrace_of_moves {s s' : EngineState} (h : Moves s s' []) : NoTrace s s' [] := by
  refine ⟨balance_eq_of_holding h.toPays.holding_eq, fun asset => ?_, ?_, h.venue.feeSchedule, by simp⟩
  · exact ⟨_, le_refl _, h.venue.book asset⟩
  · exact le_of_eq h.venue.nextOrderId.symm

theorem Answered.noTrace {builtins : Builtins} {s s' : EngineState} {msg : OrderMsg}
    {outputs : List Output} (h : Answered builtins s msg s' outputs) (hv : s.Valid)
    (hrejected : Rejected outputs) : NoTrace s s' (executions outputs) := by
  cases h with
  | @refused _ reply hmoves hdeclined =>
      have hreply : executions [reply] = [] := by
        rcases hdeclined with ⟨⟨error, rfl⟩, _⟩ | ⟨rfl, _⟩
        · rfl
        · rfl
      rw [hreply]
      exact noTrace_of_moves hmoves
  | @placed side fs m p bids asks hadmitted _ hplaced =>
      have hqty : 0 < msg.qty.toInt.toNat := by
        have hpositive := hadmitted.wellFormed.positive
        omega
      obtain ⟨channel, identifier, orderId, status, error, code, hmem, hstatus⟩ := hrejected
      rw [replies_placed, List.mem_singleton] at hmem
      cases hmem
      have hunfilled : orderStatus msg.qty.toInt.toNat p.settlement = "unfilled" := by
        rcases hstatus with herror | hstatus
        · cases herror
        · exact Option.some.inj hstatus
      obtain ⟨hnone, hzero⟩ := (orderStatus_unfilled hqty).mp hunfilled
      have hfs : fs = [] := hplaced.fills_nil hv hzero
      have hrests : remainderOf msg ⟨s.nextOrderId, msg.userId, side⟩ m = none :=
        Option.map_eq_none_iff.mp (hplaced.resting.symm.trans hnone)
      rw [executions_placed msg hplaced.resting, hrests]
      rw [hrests] at hplaced
      subst hfs
      obtain ⟨hbalance, hbook⟩ := hplaced.untouched
      refine ⟨hbalance, fun asset => ?_, ?_, hplaced.executed.feeSchedule, ?_⟩
      · by_cases hasset : asset = p.asset
        · subst hasset
          exact ⟨_, Nat.le_max_left .., hbook⟩
        · exact ⟨_, le_refl _, hplaced.executed.book_other asset hasset⟩
      · rw [hplaced.executed.nextOrderId]
        omega
      · intro e he
        rw [hplaced.events] at he
        simp only [Matching.trades, restingEvents, List.map_nil, Option.map_none, Option.toList_none,
          List.nil_append, List.mem_singleton] at he
        exact ⟨_, _, _, he⟩

/-- **No trace.** In a state that a run reaches, an order that overflows nothing is answered, the same in
both builds; and if it is answered with an error, or that nothing was filled, then all balances, resting
orders, levels and queues are as before, and neither a trade nor a created order was published. -/
theorem run_rejection_leaves_no_trace (builtins : Builtins) (fees : FeeSchedule) (msgs : List Msg)
    (hover : run (u64 true) builtins (.new fees) msgs ≠ .error .overflow) :
    ∃ s outputs, (∀ checks, run (u64 checks) builtins (.new fees) msgs = .ok (s, outputs)) ∧
      ∀ msg : OrderMsg, handleOrder (u64 true) s builtins msg ≠ .error .overflow →
        ∃ s' outputs', (∀ checks, handleOrder (u64 checks) s builtins msg = .ok (s', outputs')) ∧
          (Rejected outputs' → NoTrace s s' (executions outputs')) := by
  obtain ⟨s, outputs, hrun, hruns⟩ := runs_of_ne_overflow hover
  obtain ⟨hcov, hv⟩ := hruns.covered
  refine ⟨s, outputs, hrun, fun msg hfits => ?_⟩
  obtain ⟨⟨s', outputs'⟩, hhandle, hanswered⟩ :=
    (handleOrder_answers builtins s hcov hv msg).ok_of_fits hfits
  exact ⟨s', outputs', fun checks => handleOrder_agrees checks s _ builtins _ hhandle,
    hanswered.noTrace hv⟩

/-- An order that is filled at once or not at all, above the best bid. -/
def killedAsk : OrderMsg := ⟨2, "SOL", "ask", .limit, 101, 10, none, .fok, "q", "d"⟩

def Reply.isUnfilled : Reply → Bool
  | .order _ _ status _ _ => status = some "unfilled"
  | _ => false

/-- The ask is killed after its coins were locked, and they are available again. -/
theorem run_rejection_leaves_no_trace_killedAsk :
    ∃ s s' outputs, handleOrder (u64 false) s .noSlippage killedAsk = .ok (s', outputs) ∧
      NoTrace s s' (executions outputs) ∧ s'.nextOrderId = s.nextOrderId + 1 := by
  obtain ⟨s, outputs₀, hrun, hreject⟩ := run_rejection_leaves_no_trace .noSlippage ⟨10, 20⟩
    (session.take 3) (ne_overflow_of_overflowed (by decide +kernel))
  obtain ⟨r, hr, htest⟩ := exists_of_returns
    (run (u64 true) .noSlippage (.new ⟨10, 20⟩) (session.take 3))
    (fun r => returns (fun r' => (replies r'.2).any (fun x => x.2.isUnfilled)
        && decide (r'.1.nextOrderId = r.1.nextOrderId + 1))
      (handleOrder (u64 true) r.1 .noSlippage killedAsk)) (by decide +kernel)
  rw [hrun true] at hr
  cases hr
  obtain ⟨r', hhandle, htest⟩ := exists_of_returns _ _ htest
  obtain ⟨s', outputs, hrun', hnone⟩ := hreject killedAsk (by rw [hhandle]; simp)
  have hsame := (hrun' true).symm.trans hhandle
  cases hsame
  rw [Bool.and_eq_true] at htest
  obtain ⟨⟨channel, reply⟩, hmem, hunfilled⟩ := List.any_eq_true.mp htest.1
  cases reply with
  | order identifier orderId status error code =>
      have hrejected : Rejected outputs :=
        ⟨channel, identifier, orderId, status, error, code, hmem, Or.inr (of_decide_eq_true hunfilled)⟩
      exact ⟨s, s', outputs, hrun' false, hnone hrejected, of_decide_eq_true htest.2⟩
  | _ => cases hunfilled

/-! ### True replies -/

section Truth

variable (s s' : EngineState)

/-- The order that a message has left to rest, under the id that was next before it. -/
def newOrder : Option Order :=
  Asset.all.findSome? fun asset => (s'.book asset).orders[s.nextOrderId]?

def restedQty : Nat := ((newOrder s s').map Order.remainingQty).getD 0

/-- What a reply without an error says of the order of a message: which status it has for the quantity
that was traded and the quantity that rests, and under which id it rests. The order that rests is the only
new one, and the sender's. -/
structure TellsTruth (msg : OrderMsg) (traded : Nat) (orderId : Option Nat) (status : Option String) :
    Prop where
  within : traded + restedQty s s' ≤ msg.qty.toInt.toNat
  rests : status = some "open" ↔ 0 < restedQty s s'
  whole : 0 < restedQty s s' → traded + restedQty s s' = msg.qty.toInt.toNat
  filled : status = some "filled" ↔ restedQty s s' = 0 ∧ traded = msg.qty.toInt.toNat
  part : status = some "partially_filled" ↔
    restedQty s s' = 0 ∧ 0 < traded ∧ traded < msg.qty.toInt.toNat
  unfilled : status = some "unfilled" ↔ restedQty s s' = 0 ∧ traded = 0
  named : 0 < restedQty s s' → ∃ o, newOrder s s' = some o ∧ orderId = some o.orderId ∧
    o.userId = msg.userId
  unnamed : restedQty s s' = 0 → orderId = none
  only : ∀ (asset : Asset) (id : Nat) (o : Order), (s'.book asset).orders[id]? = some o →
    (s.book asset).orders[id]? = none → newOrder s s' = some o

variable {s s'}

/-- Where the books are as they were, nothing new rests. -/
theorem newOrder_of_same (hv : s.Valid) (h : SameVenue s s') : newOrder s s' = none := by
  apply List.findSome?_eq_none_iff.mpr
  intro asset _
  rw [h.book]
  exact hv.get_next asset

theorem Executed.newOrder_eq {asset : Asset} {taker : Taker} {past : Nat → Bool} {qty : Nat}
    {fs : List (Order × Nat)} {m : Matching} {resting : Option Order}
    (h : Executed s s' asset taker past qty fs m resting) (hv : s.Valid) :
    newOrder s s' = resting := by
  have hself := h.get_new hv
  have hother : ∀ a, a ≠ asset → (s'.book a).orders[s.nextOrderId]? = none := by
    intro a ha
    rw [h.book_other a ha]
    exact hv.get_next a
  simp only [newOrder, Asset.all, List.findSome?_cons, List.findSome?_nil]
  cases asset with
  | sol =>
      rw [hself, hother .btc (by decide), hother .eth (by decide)]
      cases resting <;> rfl
  | btc =>
      rw [hself, hother .sol (by decide), hother .eth (by decide)]
      cases resting <;> rfl
  | eth =>
      rw [hself, hother .sol (by decide), hother .btc (by decide)]
      cases resting <;> rfl

/-- The reply to an executed order tells the truth, as long as the quantity that it counts is right. -/
theorem Executed.tellsTruth {msg : OrderMsg} {side : Side} {asset : Asset} {past : Nat → Bool}
    {fs : List (Order × Nat)} {m : Matching} {settled : Settlement}
    (h : Executed s s' asset ⟨s.nextOrderId, msg.userId, side⟩ past msg.qty.toInt.toNat fs m
      (remainderOf msg ⟨s.nextOrderId, msg.userId, side⟩ m)) (hv : s.Valid)
    (hresting : settled.resting
      = (remainderOf msg ⟨s.nextOrderId, msg.userId, side⟩ m).map Orderbook.accepted)
    (hsum : settled.filledQty + m.remainingQty = msg.qty.toInt.toNat)
    (hqty : 0 < msg.qty.toInt.toNat) :
    TellsTruth s s' msg settled.filledQty (settled.resting.map OrderAccepted.orderId)
      (some (orderStatus msg.qty.toInt.toNat settled)) := by
  have hnew := h.newOrder_eq hv
  have honly : ∀ (a : Asset) (id : Nat) (o : Order), (s'.book a).orders[id]? = some o →
      (s.book a).orders[id]? = none → newOrder s s' = some o := by
    intro a id o hget hnone
    rcases h.rested (hv.book asset) hget with ⟨o₀, hget₀, _⟩ | ⟨_, hrest, _⟩
    · rw [hnone] at hget₀
      cases hget₀
    · exact hnew.trans hrest
  cases hrest : remainderOf msg ⟨s.nextOrderId, msg.userId, side⟩ m with
  | none =>
      have hnone : settled.resting = none := by rw [hresting, hrest]; rfl
      have hzero : restedQty s s' = 0 := by simp [restedQty, hnew, hrest]
      refine ⟨by omega, ?_, by omega, ?_, ?_, ?_, by omega, ?_, honly⟩
      · simp [orderStatus_open, hnone, hzero]
      · simp [orderStatus_filled, hnone, hzero]
      · rw [Option.some.injEq, orderStatus_partly]
        simp only [hnone, hzero, true_and]
        omega
      · rw [Option.some.injEq, orderStatus_unfilled hqty]
        simp [hnone, hzero]
      · simp [hnone]
  | some o =>
      obtain ⟨hleft, price, _, ho⟩ := h.leaves o hrest
      have hsome : settled.resting = some (Orderbook.accepted o) := by rw [hresting, hrest]; rfl
      have hrests : restedQty s s' = m.remainingQty := by
        simp [restedQty, hnew, hrest, ho, Orderbook.leftover]
      refine ⟨by omega, ?_, by omega, ?_, ?_, ?_, ?_, by omega, honly⟩
      · simp [orderStatus_open, hsome, hrests, hleft]
      · simp [orderStatus_filled, hsome, hrests, Nat.ne_of_gt hleft]
      · simp [orderStatus_partly, hsome, hrests, Nat.ne_of_gt hleft]
      · rw [Option.some.injEq, orderStatus_unfilled hqty]
        simp [hsome, hrests, Nat.ne_of_gt hleft]
      · intro _
        refine ⟨o, hnew.trans hrest, ?_, ?_⟩
        · rw [hsome]
          rfl
        · rw [ho]
          rfl

/-- The reply to a placed order tells the truth. -/
theorem Placed.tellsTruth {msg : OrderMsg} {side : Side} {past : Nat → Bool}
    {fs : List (Order × Nat)} {m : Matching} {p : Placement}
    (h : Placed s msg side past msg.qty.toInt.toNat fs m
      (remainderOf msg ⟨s.nextOrderId, msg.userId, side⟩ m) p) (hv : s.Valid)
    (hqty : 0 < msg.qty.toInt.toNat) :
    TellsTruth s p.state msg p.settlement.filledQty
      (p.settlement.resting.map OrderAccepted.orderId)
      (some (orderStatus msg.qty.toInt.toNat p.settlement)) :=
  h.executed.tellsTruth hv h.resting h.filled_add hqty

/-- So does the reply to an order that was killed without a trace. -/
theorem tellsTruth_unfilled {msg : OrderMsg} (hv : s.Valid) (h : SameVenue s s')
    (hqty : 0 < msg.qty.toInt.toNat) : TellsTruth s s' msg 0 none (some "unfilled") := by
  have hnew := newOrder_of_same hv h
  have hzero : restedQty s s' = 0 := by simp [restedQty, hnew]
  refine ⟨by omega, by simp [hzero], by omega, ?_, by simp, by simp [hzero], by omega, by simp, ?_⟩
  · simp only [Option.some.injEq, String.reduceEq, false_iff]
    omega
  · intro asset id o hget hnone
    rw [h.book, hnone] at hget
    cases hget

theorem Answered.tellsTruth {builtins : Builtins} {msg : OrderMsg} {outputs : List Output}
    (h : Answered builtins s msg s' outputs) (hv : s.Valid) :
    ∃ orderId status error code, replies outputs
        = [("response-queue" ++ msg.queueId, .order msg.identifier orderId status error code)] ∧
      (error = none → TellsTruth s s' msg (tradedQty outputs) orderId status) := by
  cases h with
  | @refused _ reply hmoves hdeclined =>
      rcases hdeclined with ⟨⟨error, rfl⟩, _⟩ | ⟨rfl, asset, side, hunfilled⟩
      · exact ⟨none, none, some error, some 400, rfl, by simp⟩
      · have hpositive := hunfilled.wellFormed.positive
        exact ⟨none, some "unfilled", none, none, rfl,
          fun _ => tellsTruth_unfilled hv hmoves.venue (by omega)⟩
  | @placed side fs m p bids asks hadmitted _ hplaced =>
      have hqty : 0 < msg.qty.toInt.toNat := by
        have hpositive := hadmitted.wellFormed.positive
        omega
      refine ⟨_, _, none, none, replies_placed msg p bids asks, fun _ => ?_⟩
      have htraded : tradedQty (p.settlement.events.map .execution ++ createdEvents msg p
          ++ [placedReply msg p, .execution (.depthUpdated p.asset.market bids asks)])
          = p.settlement.filledQty := by
        rw [tradedQty_placed msg hplaced.resting hplaced.reports, hplaced.filledQty]
      rw [htraded]
      exact hplaced.tellsTruth hv hqty

end Truth

/-- **True replies.** In a state that a run reaches, an order that overflows nothing is answered once, in
both builds, on the queue and with the identifier of its message; and a reply without an error tells the
truth about what was traded and what rests. -/
theorem run_replies_truly (builtins : Builtins) (fees : FeeSchedule) (msgs : List Msg)
    (hover : run (u64 true) builtins (.new fees) msgs ≠ .error .overflow) :
    ∃ s outputs, (∀ checks, run (u64 checks) builtins (.new fees) msgs = .ok (s, outputs)) ∧
      ∀ msg : OrderMsg, handleOrder (u64 true) s builtins msg ≠ .error .overflow →
        ∃ s' outputs', (∀ checks, handleOrder (u64 checks) s builtins msg = .ok (s', outputs')) ∧
          ∃ orderId status error code, replies outputs'
              = [("response-queue" ++ msg.queueId, .order msg.identifier orderId status error code)] ∧
            (error = none → TellsTruth s s' msg (tradedQty outputs') orderId status) := by
  obtain ⟨s, outputs, hrun, hruns⟩ := runs_of_ne_overflow hover
  obtain ⟨hcov, hv⟩ := hruns.covered
  refine ⟨s, outputs, hrun, fun msg hfits => ?_⟩
  obtain ⟨⟨s', outputs'⟩, hhandle, hanswered⟩ :=
    (handleOrder_answers builtins s hcov hv msg).ok_of_fits hfits
  exact ⟨s', outputs', fun checks => handleOrder_agrees checks s _ builtins _ hhandle,
    hanswered.tellsTruth hv⟩

/-- Of a bid for ten, four are bought and six rest. -/
theorem run_replies_truly_partBid :
    ∃ s s' outputs orderId status, handleOrder (u64 false) s .noSlippage partBid
        = .ok (s', outputs) ∧
      TellsTruth s s' partBid (tradedQty outputs) orderId status ∧
      tradedQty outputs = 4 ∧ restedQty s s' = 6 := by
  obtain ⟨s, outputs₀, hrun, htruth⟩ := run_replies_truly .noSlippage ⟨100, 200⟩ offer
    (ne_overflow_of_overflowed (by decide +kernel))
  obtain ⟨r, hr, htest⟩ := exists_of_returns
    (run (u64 true) .noSlippage (.new ⟨100, 200⟩) offer)
    (fun r => returns (fun r' => decide (tradedQty r'.2 = 4 ∧ restedQty r.1 r'.1 = 6)
        && !answeredWithError r'.2)
      (handleOrder (u64 true) r.1 .noSlippage partBid)) (by decide +kernel)
  rw [hrun true] at hr
  cases hr
  obtain ⟨r', hhandle, htest⟩ := exists_of_returns _ _ htest
  obtain ⟨s', outputs, hrun', orderId, status, error, code, hreplies, htells⟩ :=
    htruth partBid (by rw [hhandle]; simp)
  have hsame := (hrun' true).symm.trans hhandle
  cases hsame
  rw [Bool.and_eq_true] at htest
  obtain ⟨htraded, hrested⟩ := of_decide_eq_true htest.1
  cases error with
  | none => exact ⟨s, s', outputs, orderId, status, hrun' false, htells rfl, htraded, hrested⟩
  | some error =>
      rw [answeredWithError_of_replies hreplies] at htest
      cases htest.2

end CexRs
