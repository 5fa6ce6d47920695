import CexRs.Listener
import CexRs.Proof.Quotes
import CexRs.Proof.Reference

/-!
# Private order updates

For each trade the listener sends an update to the buyer and one to the seller. It takes the buyer for
the taker and the seller for the maker, and the engine reports that nothing remains of the taker. So the
updates are about the recipients' own orders, with the quantities that are left of them, exactly if the
taker buys and is filled at once.
-/

namespace CexRs

open FixedWidth OrderedMap EngineState

/-! ### Updates that concern their recipient -/

namespace Trade

variable (t : Trade)

def buyerOrderId : Nat :=
  match t.takerSide with
  | .bid => t.takerOrderId
  | .ask => t.makerOrderId

def sellerOrderId : Nat :=
  match t.takerSide with
  | .bid => t.makerOrderId
  | .ask => t.takerOrderId

def fill (unfilled : Nat → Nat) : Nat → Nat := fun id =>
  if id = t.makerOrderId ∨ id = t.takerOrderId then unfilled id - t.qty else unfilled id

end Trade

def WsServerMsg.Concerns (orderId unfilled : Nat) : WsServerMsg → Prop
  | .orderUpdate id _ _ _ remainingQty status =>
      id = orderId ∧ remainingQty = unfilled ∧ (status = "filled" ↔ unfilled = 0)
  | _ => False

def privately (messages : List (Recipient × WsServerMsg)) : List (Nat × WsServerMsg) :=
  messages.filterMap fun
    | (.user userId, message) => some (userId, message)
    | (.topic _, _) => none

/-- For an event that reports a trade the buyer and the seller are sent one update each, about their own
order and what is left of it. -/
def SendsOwn (casing : Casing) (now : Int) (unfilled : Nat → Nat) (t : Trade)
    (event : ExecutionEvent) : Prop :=
  ∃ toBuyer toSeller, privately (forward casing now event) = [(t.buyer, toBuyer), (t.seller, toSeller)] ∧
    toBuyer.Concerns t.buyerOrderId (unfilled t.buyerOrderId) ∧
    toSeller.Concerns t.sellerOrderId (unfilled t.sellerOrderId)

/-- The same for every trade of a list, in turn: what is unfilled of an order goes down by each. -/
def SendsAllOwn (casing : Casing) (now : Int) : (Nat → Nat) → List Trade → List ExecutionEvent → Prop
  | _, [], [] => True
  | unfilled, t :: ts, event :: events =>
      SendsOwn casing now (t.fill unfilled) t event ∧ SendsAllOwn casing now (t.fill unfilled) ts events
  | _, _, _ => False

/-- What is unfilled of each order of a market before a message is handled: all of the new order, and of
a resting one what rests. -/
def unfilledBefore (s : EngineState) (msg : OrderMsg) (asset : Asset) (id : Nat) : Nat :=
  if id = s.nextOrderId then msg.qty.toInt.toNat
  else (((s.book asset).getOrder id).map Order.remainingQty).getD 0

def UpdatesOwn (A : Arith) (builtins : Builtins) (now : Int) (s : EngineState) (msg : OrderMsg)
    (outputs : List Output) : Prop :=
  ∀ p side, judgeOrder A s builtins msg = .ok (.placed p) → Side.ofString? msg.side = some side →
    ∃ book ts resting, bookCall A builtins s msg p.asset side
        = .ok (book, .ok (Orderbook.outcome ts resting)) ∧
      SendsAllOwn builtins.toCasing now (unfilledBefore s msg p.asset) ts (tradeEvents outputs)

/-! ### What the listener makes of a trade -/

section Sends

variable {casing : Casing} {now : Int} {ob : Orderbook} {asset : Asset} {taker : Taker} {f : Order × Nat}
  {event : ExecutionEvent} {unfilled : Nat → Nat}

theorem fillStatus_eq (remainingQty : Nat) : fillStatus remainingQty = "filled" ↔ remainingQty = 0 := by
  unfold fillStatus
  split
  · next hzero => simp [hzero]
  · next hpos => simp [hpos]

/-- The updates for a trade of a sell are swapped, and those for a trade of a buy say that nothing is
left of it. -/
theorem SendsOwn.filled (hne : taker.orderId ≠ f.1.orderId)
    (hreports : (Matching.fillTrade taker f).Reports ob asset event)
    (h : SendsOwn casing now unfilled (Matching.fillTrade taker f) event) :
    taker.side = .bid ∧ unfilled taker.orderId = 0 := by
  obtain ⟨_, _, _, rfl⟩ := hreports
  obtain ⟨toBuyer, toSeller, hsent, hbuyer, _⟩ := h
  simp only [forward, privately, List.filterMap_cons, List.filterMap_nil, List.cons.injEq,
    Prod.mk.injEq] at hsent
  obtain ⟨⟨_, rfl⟩, _⟩ := hsent
  obtain ⟨hid, hleft, _⟩ := hbuyer
  cases hside : taker.side with
  | bid =>
      rw [Matching.fillTrade_bid hside] at hleft
      exact ⟨rfl, hleft.symm⟩
  | ask =>
      rw [Matching.fillTrade_ask hside] at hid
      exact absurd hid hne

theorem sendsOwn_bid (hside : taker.side = .bid)
    (hreports : (Matching.fillTrade taker f).Reports ob asset event)
    (htaker : unfilled taker.orderId = 0)
    (hmaker : ((ob.getOrder f.1.orderId).map Order.remainingQty).getD 0 = unfilled f.1.orderId) :
    SendsOwn casing now unfilled (Matching.fillTrade taker f) event := by
  obtain ⟨_, _, _, rfl⟩ := hreports
  rw [Matching.fillTrade_bid hside]
  refine ⟨_, _, rfl, ⟨rfl, htaker.symm, ?_⟩, rfl, hmaker, ?_⟩
  · exact iff_of_true rfl htaker
  · rw [fillStatus_eq]
    exact iff_of_eq (congrArg (· = 0) hmaker)

end Sends

/-! ### What the listener makes of an order -/

def MatchResult.trade? : MatchResult → Option Trade
  | .trade t => some t
  | .orderAccepted _ => none

theorem Orderbook.outcome_trades {ts ts' : List Trade} {resting resting' : Option Order}
    (h : Orderbook.outcome ts resting = Orderbook.outcome ts' resting') : ts = ts' := by
  have htrades : ∀ (ts : List Trade) (resting : Option Order),
      (Orderbook.outcome ts resting).filterMap MatchResult.trade? = ts := by
    intro ts resting
    have hts : MatchResult.trade? ∘ MatchResult.trade = some := rfl
    rw [Orderbook.outcome, List.filterMap_append, List.filterMap_map, hts, List.filterMap_some]
    cases resting <;> simp [MatchResult.trade?]
  rw [← htrades ts resting, h, htrades]

section Orders

variable {A : Arith} {builtins : Builtins} {s : EngineState} {msg : OrderMsg} {side : Side}
  {found : Bool} {fs : List (Order × Nat)} {m : Matching} {p : Placement}

/-- The updates of an order concern their recipients' own orders if it does not trade, or if it is a buy
that is filled at once. -/
theorem Enters.sendsAllOwn_iff (h : Enters A builtins s msg side found fs m p) (hv : s.Valid)
    (casing : Casing) (now : Int) :
    SendsAllOwn casing now (unfilledBefore s msg p.asset)
        (Matching.trades ⟨s.nextOrderId, msg.userId, side⟩ fs) p.settlement.events ↔
      fs = [] ∨ side = .bid ∧ ∃ o, fs = [(o, msg.qty.toInt.toNat)] := by
  have hfills := h.filled.executed.took.fills
  have hreports := h.filled.reports
  have hremaining := hfills.remaining
  simp only at hremaining
  have hmaker : ∀ f ∈ fs, _ := fun f hf => h.filled.executed.maker hv (o := f.1) (n := f.2) hf
  constructor
  · intro hall
    cases fs with
    | nil => exact Or.inl rfl
    | cons f fs =>
        right
        generalize p.settlement.events = events at hreports hall
        cases hreports with
        | @cons _ event _ events hreport _ =>
            obtain ⟨hown, _⟩ := hall
            obtain ⟨_, hpos, hne⟩ := hmaker f (List.mem_cons_self ..)
            obtain ⟨hbid, hzero⟩ := SendsOwn.filled hne.symm hreport hown
            simp only at hbid
            subst hbid
            have hleft : msg.qty.toInt.toNat - f.2 = 0 := by
              simpa [Trade.fill, Matching.fillTrade, Taker.trade, unfilledBefore] using hzero
            rw [List.map_cons, List.sum_cons] at hremaining
            have hrest : fs = [] := by
              cases fs with
              | nil => rfl
              | cons f' fs =>
                  obtain ⟨_, hpos', _⟩ := hmaker f' (by simp)
                  rw [List.map_cons, List.sum_cons] at hremaining
                  omega
            subst hrest
            simp only [List.map_nil, List.sum_nil] at hremaining
            have hqty : f.2 = msg.qty.toInt.toNat := by omega
            exact ⟨rfl, f.1, by rw [← hqty]⟩
  · rintro (rfl | ⟨rfl, o, rfl⟩)
    · generalize p.settlement.events = events at hreports
      cases hreports
      trivial
    · generalize p.settlement.events = events at hreports
      cases hreports with
      | @cons _ event _ events hreport hnone =>
          cases hnone
          obtain ⟨hget, hpos, hne⟩ := hmaker _ (List.mem_cons_self ..)
          refine ⟨sendsOwn_bid rfl hreport ?_ ?_, trivial⟩
          · simp [Trade.fill, Matching.fillTrade, Taker.trade, unfilledBefore]
          · have hleft := h.filled.executed.get_maker hv (List.mem_cons_self ..)
            simp only [Orderbook.getOrder]
            rw [hleft]
            have hbefore : unfilledBefore s msg p.asset o.orderId = o.remainingQty := by
              simp only [unfilledBefore, Orderbook.getOrder]
              rw [if_neg hne, hget]
              rfl
            simp only [Trade.fill, Matching.fillTrade, Taker.trade, true_or, if_true, hbefore]
            split
            · rfl
            · simp only [Option.map_none, Option.getD_none]
              omega

/-- An order that crosses nothing, or falls short and is killed, or is a buy that the first order it
crosses can fill. -/
def AtOnce (builtins : Builtins) (s : EngineState) (msg : OrderMsg) (asset : Asset) (side : Side) :
    Prop :=
  crossedOrders builtins s msg asset side = [] ∨
    msg.orderType = .limit ∧ FallsShort builtins s msg asset side ∨
    side = .bid ∧ ∃ o rest, crossedOrders builtins s msg asset side = o :: rest ∧
      msg.qty.toInt.toNat ≤ o.remainingQty

theorem Enters.atOnce_iff {checks : Bool} (h : Enters (u64 checks) builtins s msg side found fs m p)
    (hv : s.Valid) (hsmall : SmallQuantities s) (hmarket : msg.orderType = .market → found = true) :
    (fs = [] ∨ side = .bid ∧ ∃ o, fs = [(o, msg.qty.toInt.toNat)]) ↔
      AtOnce builtins s msg p.asset side := by
  have hpositive := h.wellFormed.positive
  have hdecided : msg.orderType = .limit → msg.timeInForce = .fok →
      found = decide (msg.qty.toInt.toNat ≤ crossedQty builtins s msg p.asset side) := by
    intro hlimit hfok
    apply Except.ok.inj
    rw [← h.decided.fok hfok]
    apply foundEnough_eq checks (hv.book p.asset) hpositive (hsmall p.asset)
    intro htype
    rw [hlimit] at htype
    cases htype
  cases found with
  | false =>
      have hlimit : msg.orderType = .limit := by
        cases htype : msg.orderType with
        | limit => rfl
        | market => cases hmarket htype
      have hfok : msg.timeInForce = .fok := by
        by_contra hfok
        cases h.decided.other hfok
      have hlt := of_decide_eq_false (hdecided hlimit hfok).symm
      exact iff_of_true (Or.inl (h.filled.killed rfl)) (Or.inr (Or.inl ⟨hlimit, hfok, by omega⟩))
  | true =>
      have hgreedy := h.greedy (hv.book p.asset) rfl
      have hlong : ¬ (msg.orderType = .limit ∧ FallsShort builtins s msg p.asset side) := by
        rintro ⟨hlimit, hfok, hlt⟩
        have hle := of_decide_eq_true (hdecided hlimit hfok).symm
        omega
      cases hcrossed : crossedOrders builtins s msg p.asset side with
      | nil =>
          rw [hcrossed] at hgreedy
          exact iff_of_true (Or.inl hgreedy) (Or.inl hcrossed)
      | cons o rest =>
          rw [hcrossed, Greedy.fills_cons _ (by omega)] at hgreedy
          subst hgreedy
          simp only [AtOnce, hcrossed, hlong, List.cons_ne_nil, false_or, List.cons.injEq, Prod.mk.injEq]
          apply and_congr_right
          intro _
          constructor
          · rintro ⟨o', ⟨rfl, hmin⟩, _⟩
            exact ⟨o, rest, ⟨rfl, rfl⟩, by omega⟩
          · rintro ⟨o', rest', ⟨rfl, rfl⟩, hle⟩
            have hmin : min msg.qty.toInt.toNat o.remainingQty = msg.qty.toInt.toNat := by omega
            refine ⟨o, ⟨rfl, hmin⟩, ?_⟩
            rw [hmin, Nat.sub_self, Greedy.fills_zero]

theorem updatesOwn_iff {checks : Bool} {s' : EngineState} {outputs : List Output} (hv : s.Valid)
    (hsmall : SmallQuantities s) (now : Int)
    (hhandle : handleOrder (u64 checks) s builtins msg = .ok (s', outputs)) :
    UpdatesOwn (u64 checks) builtins now s msg outputs ↔
      ∀ asset side, Passes (u64 checks) builtins s msg asset side →
        AtOnce builtins s msg asset side := by
  unfold handleOrder at hhandle
  obtain ⟨verdict, hjudge, hafter⟩ := bind_ok hhandle
  cases verdict with
  | refused state reply =>
      have hnone : ∀ asset side, ¬ Passes (u64 checks) builtins s msg asset side := by
        intro asset side hpasses
        exact judgeOrder_sorted hpasses.wellFormed hjudge hpasses
      apply iff_of_true
      · intro p side hplaced
        rw [hjudge] at hplaced
        cases hplaced
      · intro asset side hpasses
        exact absurd hpasses (hnone asset side)
  | placed p =>
      obtain ⟨side, found, fs, m, henters, hpasses, hmarket, hcall⟩ := judgeOrder_enters hv.book hjudge
      obtain ⟨depth, hevent, hafter⟩ := bind_ok hafter
      obtain ⟨bids, asks, rfl⟩ := (depthEvent_venue (u64 checks) p.state p.asset).of_ok hevent
      cases hafter
      have howns := (henters.sendsAllOwn_iff hv builtins.toCasing now).trans
        (henters.atOnce_iff hv hsmall hmarket)
      have hform := henters.wellFormed
      constructor
      · intro hupdates asset' side' hpasses'
        obtain ⟨book, ts, resting, hcall', hsends⟩ := hupdates p side hjudge hform.side
        rw [hcall] at hcall'
        have hresults := Except.ok.inj (Prod.mk.inj (Except.ok.inj hcall')).2
        rw [tradeEvents_placed henters.filled.resting henters.filled.reports,
          ← Orderbook.outcome_trades hresults] at hsends
        have hasset := Option.some.inj (hform.asset.symm.trans hpasses'.wellFormed.asset)
        have hside := Option.some.inj (hform.side.symm.trans hpasses'.wellFormed.side)
        subst hasset hside
        exact howns.mp hsends
      · intro hcondition p' side' hplaced' hside'
        rw [hjudge] at hplaced'
        cases hplaced'
        have hside := Option.some.inj (hform.side.symm.trans hside')
        subst hside
        refine ⟨_, _, _, hcall, ?_⟩
        rw [tradeEvents_placed henters.filled.resting henters.filled.reports]
        exact howns.mpr (hcondition p.asset side hpasses)

end Orders

/-! ### Runs -/

/-- **Private order updates.** In a state that a run reaches, in either build, the updates that the
listener sends for an order's trades concern their recipients' own orders exactly if the order does not
get to the book, crosses nothing, falls short and is killed, or is a buy that the first order it crosses
can fill. -/
theorem run_updates_own_iff (checks : Bool) (builtins : Builtins) (fees : FeeSchedule)
    (msgs : List Msg) {s : EngineState} {outputs₀ : List Output}
    (hrun : run (u64 checks) builtins (.new fees) msgs = .ok (s, outputs₀)) (now : Int) (msg : OrderMsg)
    {s' : EngineState} {outputs : List Output}
    (hhandle : handleOrder (u64 checks) s builtins msg = .ok (s', outputs)) :
    UpdatesOwn (u64 checks) builtins now s msg outputs ↔
      ∀ asset side, Passes (u64 checks) builtins s msg asset side →
        AtOnce builtins s msg asset side := by
  obtain ⟨hv, hsmall⟩ := run_valid_small checks builtins fees msgs hrun
  exact updatesOwn_iff hv hsmall now hhandle

def wholeBid : OrderMsg := ⟨1, "SOL", "bid", .limit, 100, 4, none, .gtc, "q", "d"⟩

theorem run_updates_own_iff_wholeBid :
    ∃ s s' outputs, handleOrder (u64 false) s .noSlippage wholeBid = .ok (s', outputs) ∧
      (tradeEvents outputs).length = 1 ∧
      UpdatesOwn (u64 false) .noSlippage 0 s wholeBid outputs := by
  obtain ⟨⟨s, outputs₀⟩, hrun, htest⟩ := exists_of_returns
    (run (u64 false) .noSlippage (.new ⟨10, 20⟩) offer)
    (fun r => (match crossedOrders .noSlippage r.1 wholeBid .sol .bid with
      | o :: _ => decide (4 ≤ o.remainingQty)
      | [] => false) && returns (fun r' => decide ((tradeEvents r'.2).length = 1))
        (handleOrder (u64 false) r.1 .noSlippage wholeBid)) (by decide +kernel)
  rw [Bool.and_eq_true] at htest
  obtain ⟨hcrossed, htest⟩ := htest
  obtain ⟨⟨s', outputs⟩, hhandle, htest⟩ := exists_of_returns _ _ htest
  refine ⟨s, s', outputs, hhandle, of_decide_eq_true htest, ?_⟩
  apply (run_updates_own_iff false .noSlippage ⟨10, 20⟩ offer hrun 0 wholeBid hhandle).mpr
  intro asset side hpasses
  have hasset : asset = .sol := (Option.some.inj hpasses.wellFormed.asset).symm
  have hside : side = .bid := (Option.some.inj hpasses.wellFormed.side).symm
  subst hasset hside
  split at hcrossed
  · next o rest heq =>
    have hle : wholeBid.qty.toInt.toNat ≤ o.remainingQty := of_decide_eq_true hcrossed
    exact Or.inr (Or.inr ⟨rfl, o, rest, heq, hle⟩)
  · cases hcrossed

/-- The buyer whose bid rests is told of the seller's order. -/
theorem sale_updates_swapped :
    ∃ s outputs₀ s' outputs, run (u64 false) .noSlippage (.new ⟨10, 20⟩) (session.take 3)
        = .ok (s, outputs₀) ∧
      handleOrder (u64 false) s .noSlippage wholeAsk = .ok (s', outputs) ∧
      ¬ UpdatesOwn (u64 false) .noSlippage 0 s wholeAsk outputs := by
  obtain ⟨⟨s, outputs₀⟩, hrun, htest⟩ := exists_of_returns
    (run (u64 false) .noSlippage (.new ⟨10, 20⟩) (session.take 3))
    (fun r => decide (crossedQty .noSlippage r.1 wholeAsk .sol .ask = 10) &&
      returns (Verdict.places fun p => decide (p.asset = .sol) &&
          returns (fun _ => true) (handleOrder (u64 false) r.1 .noSlippage wholeAsk))
        (judgeOrder (u64 false) r.1 .noSlippage wholeAsk)) (by decide +kernel)
  rw [Bool.and_eq_true] at htest
  obtain ⟨hcrossed, htest⟩ := htest
  have hcrossed := of_decide_eq_true hcrossed
  obtain ⟨p, hjudge, htest⟩ := exists_of_places _ _ htest
  rw [Bool.and_eq_true] at htest
  obtain ⟨hasset, hreturns⟩ := htest
  obtain ⟨⟨s', outputs⟩, hhandle, _⟩ := exists_of_returns _ _ hreturns
  obtain ⟨hv, hsmall⟩ := run_valid_small false .noSlippage ⟨10, 20⟩ (session.take 3) hrun
  refine ⟨s, outputs₀, s', outputs, hrun, hhandle, fun hupdates => ?_⟩
  obtain ⟨side, _, _, _, henters, hpasses, _⟩ := judgeOrder_enters hv.book hjudge
  have hside : side = .ask := (Option.some.inj henters.wellFormed.side).symm
  subst hside
  rw [of_decide_eq_true hasset] at hpasses
  rcases (updatesOwn_iff hv hsmall 0 hhandle).mp hupdates .sol .ask hpasses with
    hnil | ⟨_, _, hlt⟩ | ⟨hbid, _⟩
  · rw [crossedQty, hnil] at hcrossed
    cases hcrossed
  · rw [hcrossed] at hlt
    exact absurd hlt (by decide)
  · cases hbid

end CexRs
