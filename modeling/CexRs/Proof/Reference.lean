import CexRs.Proof.Admission
import CexRs.Proof.ImmediateOrCancel

/-!
# Settlement against a reference

The code locks an upper bound, settles trade by trade out of it, and gives back a computed excess. The
reference posts each trade to the accounts that bear it in the end: a maker's funds are locked, a taker
pays out of what is available, and of the sender's funds only what the remainder needs ends up locked.
-/

namespace CexRs

open FixedWidth OrderedMap Journal EngineState

/-! ### The reference -/

def Trade.reference (fees : FeeSchedule) (asset : Asset) (t : Trade) : List (Posting Account) :=
  [⟨⟨t.buyer, .stock asset.symbol, false⟩, t.qty⟩,
    ⟨⟨t.buyer, .usd, decide (t.takerSide = .ask)⟩,
      -(t.value + fees.feeOfBuyer t.takerSide t.value)⟩,
    ⟨⟨t.seller, .stock asset.symbol, decide (t.takerSide = .bid)⟩, -t.qty⟩,
    ⟨⟨t.seller, .usd, false⟩, t.value - min t.value (fees.feeOfSeller t.takerSide t.value)⟩,
    ⟨⟨0, .usd, false⟩,
      fees.feeOfBuyer t.takerSide t.value + fees.feeOfSeller t.takerSide t.value⟩]

/-- What the remainder of an order moves from available to locked: the cost and the maker fee of a bid,
the quantity of an ask. -/
def Order.reference (fees : FeeSchedule) (asset : Asset) (o : Order) : List (Posting Account) :=
  lockPostings o.userId (funds o.side asset) (o.held fees)

/-- What an accepted order comes to, given its trades and the order that is left to rest, if any. -/
def settlementReference (fees : FeeSchedule) (asset : Asset) (ts : List Trade)
    (resting : Option Order) : List (Posting Account) :=
  ts.flatMap (Trade.reference fees asset) ++ resting.elim [] (Order.reference fees asset)

/-! ### The journal and the reference -/

section Net

variable (fees : FeeSchedule) (asset : Asset) (k : Account)

theorem net_lock_add (user : Nat) (currency : Currency) (a b : Nat) :
    net (· = k) (lockPostings user currency (a + b))
      = net (· = k) (lockPostings user currency a) + net (· = k) (lockPostings user currency b) := by
  simp only [lockPostings, net_cons, net_nil]
  split <;> split <;> omega

theorem net_unlock_eq (user : Nat) (currency : Currency) (n : Nat) :
    net (· = k) (unlockPostings user currency n) = -net (· = k) (lockPostings user currency n) := by
  simp only [unlockPostings, lockPostings, net_cons, net_nil]
  split <;> split <;> omega

theorem net_lock_zero (user : Nat) (currency : Currency) :
    net (· = k) (lockPostings user currency 0) = 0 := by
  simp [lockPostings]

/-- What a taker's trade takes out of locked funds, the reference takes out of available ones. -/
theorem net_reference (taker : Taker) (f : Order × Nat) :
    net (· = k) ((Matching.fillTrade taker f).reference fees asset)
      = net (· = k) (lockPostings taker.userId (funds taker.side asset)
          (spentOf fees taker.side [Matching.fillTrade taker f]))
        + net (· = k) ((Matching.fillTrade taker f).postings fees asset) := by
  have hproceeds : ∀ value fee : Nat, ((value - fee : Nat) : Int) = value - min value fee := by
    intro value fee
    omega
  have hneg : ∀ (c : Prop) [Decidable c] (n : Int), (if c then -n else 0) = -(if c then n else 0) := by
    intro c _ n
    split <;> simp
  cases hside : taker.side with
  | bid =>
      rw [Matching.fillTrade_bid hside]
      simp only [Trade.reference, Trade.postings, Trade.debit, Trade.proceeds, Trade.toll, lockPostings,
        spentOf, funds, net_cons, net_nil, hproceeds, hneg, List.map_cons, List.map_nil, List.sum_cons,
        List.sum_nil, decide_true, reduceCtorEq, decide_false, Nat.cast_add, Nat.add_zero]
      ring
  | ask =>
      rw [Matching.fillTrade_ask hside]
      simp only [Trade.reference, Trade.postings, Trade.debit, Trade.proceeds, Trade.toll, lockPostings,
        spentOf, funds, net_cons, net_nil, hproceeds, hneg, List.map_cons, List.map_nil, List.sum_cons,
        List.sum_nil, decide_true, reduceCtorEq, decide_false, Nat.cast_add, Nat.add_zero]
      ring

theorem spentOf_cons (side : Side) (t : Trade) (ts : List Trade) :
    spentOf fees side (t :: ts) = spentOf fees side [t] + spentOf fees side ts := by
  cases side <;> simp [spentOf]

theorem net_references (taker : Taker) (fs : List (Order × Nat)) :
    net (· = k) ((Matching.trades taker fs).flatMap (Trade.reference fees asset))
      = net (· = k) (lockPostings taker.userId (funds taker.side asset)
          (spentOf fees taker.side (Matching.trades taker fs)))
        + net (· = k) (journal fees asset (Matching.trades taker fs)) := by
  induction fs with
  | nil =>
      have hzero : spentOf fees taker.side (Matching.trades taker []) = 0 := by
        cases taker.side <;> rfl
      rw [hzero, net_lock_zero]
      rfl
  | cons f fs ih =>
      have htrades : Matching.trades taker (f :: fs)
          = Matching.fillTrade taker f :: Matching.trades taker fs := rfl
      rw [htrades, List.flatMap_cons, net_append, ih, net_reference,
        spentOf_cons fees taker.side _ (Matching.trades taker fs), net_lock_add]
      simp only [journal, List.flatMap_cons, net_append]
      ring

end Net

/-- **One order.** What is locked, settled and given back for a placed order adds up to the
reference. -/
theorem Placed.posts_reference {s : EngineState} {msg : OrderMsg} {side : Side} {past : Nat → Bool}
    {qty : Nat} {fs : List (Order × Nat)} {m : Matching} {resting : Option Order} {p : Placement}
    (h : Placed s msg side past qty fs m resting p) :
    Posts holding s p.state (settlementReference s.feeSchedule p.asset
      (Matching.trades ⟨s.nextOrderId, msg.userId, side⟩ fs) resting) := by
  intro k
  have hposts := h.pays.posts k
  have hrest : net (· = k) (resting.elim [] (Order.reference s.feeSchedule p.asset))
      = net (· = k) (lockPostings msg.userId (funds side p.asset) (heldOf s.feeSchedule resting)) := by
    cases resting with
    | none => exact (net_lock_zero k _ _).symm
    | some o =>
        obtain ⟨_, price, _, rfl⟩ := h.executed.leaves o rfl
        rfl
  rw [net_append, net_append, net_unlock_eq, h.balanced, net_lock_add, net_lock_add] at hposts
  rw [settlementReference, net_append, net_references, hrest, hposts]
  ring

/-! ### The trades are those of the book -/

theorem Trade.Reports.eq {ob ob' : Orderbook} {asset : Asset} {fees : FeeSchedule} {t t' : Trade}
    (hside : t.takerSide = t'.takerSide) (h : t.Reports ob asset (t'.event fees ob' asset)) :
    t = t' := by
  obtain ⟨_, _, _, heq⟩ := h
  simp only [Trade.event, ExecutionEvent.tradeExecuted.injEq] at heq
  obtain ⟨hmaker, htaker, hbuyer, hseller, _, hprice, hqty, _⟩ := heq
  cases t
  cases t'
  simp only at *
  subst hmaker htaker hbuyer hseller hprice hqty hside
  rfl

theorem accepted_injective : Function.Injective Orderbook.accepted := by
  intro o o' h
  simp only [Orderbook.accepted, OrderAccepted.mk.injEq] at h
  cases o
  cases o'
  simp_all

/-- The trades and the remainder of a placed order can be read off what it reports. -/
theorem Placed.enters_eq {A : Arith} {builtins : Builtins} {s : EngineState} {msg : OrderMsg}
    {side : Side} {past : Nat → Bool} {qty : Nat} {found : Bool} {fs fs' : List (Order × Nat)}
    {m m' : Matching} {resting : Option Order} {p : Placement}
    (h : Placed s msg side past qty fs m resting p)
    (henters : Enters A builtins s msg side found fs' m' p) :
    Matching.trades ⟨s.nextOrderId, msg.userId, side⟩ fs'
        = Matching.trades ⟨s.nextOrderId, msg.userId, side⟩ fs ∧
      remainderOf msg ⟨s.nextOrderId, msg.userId, side⟩ m' = resting := by
  constructor
  · have hreports := henters.filled.reports
    rw [h.events, List.forall₂_map_right_iff] at hreports
    rw [← List.forall₂_eq_eq_eq]
    unfold Matching.trades at hreports ⊢
    rw [List.forall₂_map_left_iff, List.forall₂_map_right_iff] at hreports ⊢
    apply hreports.imp
    intro f f' hreport
    apply Trade.Reports.eq _ hreport
    cases side <;> rfl
  · have hresting := henters.filled.resting.symm.trans h.resting
    exact Option.map_injective accepted_injective hresting

/-- **Settlement equals its reference.** In a state that a run reaches, an order that is accepted, with no
overflow on the way, changes the balances by the reference of the trades that the book made and of the
remainder that it left to rest, and by nothing else. -/
theorem run_settles_by_reference (builtins : Builtins) (fees : FeeSchedule) (msgs : List Msg)
    (hover : run (u64 true) builtins (.new fees) msgs ≠ .error .overflow) :
    ∃ s outputs, (∀ checks, run (u64 checks) builtins (.new fees) msgs = .ok (s, outputs)) ∧
      ∀ (msg : OrderMsg) (p : Placement),
        judgeOrder (u64 true) s builtins msg = .ok (.placed p) →
        handleOrder (u64 true) s builtins msg ≠ .error .overflow →
        ∃ side ts resting s' outputs', WellFormed msg p.asset side ∧
          (∀ checks, handleOrder (u64 checks) s builtins msg = .ok (s', outputs')) ∧
          bookCall (u64 true) builtins s msg p.asset side
            = .ok (s'.book p.asset, .ok (Orderbook.outcome ts resting)) ∧
          Posts holding s s' (settlementReference s.feeSchedule p.asset ts resting) := by
  obtain ⟨s, outputs, hrun, hruns⟩ := runs_of_ne_overflow hover
  obtain ⟨hcov, hv⟩ := hruns.covered
  refine ⟨s, outputs, hrun, ?_⟩
  intro msg p hjudge hfits
  obtain ⟨side, fs, m, hadmitted, _, hplaced⟩ :=
    (judgeOrder_spec s builtins msg hcov hv).of_ok hjudge
  obtain ⟨side', found, fs', m', henters, _, _, hcall⟩ := judgeOrder_enters hv.book hjudge
  have hside : side = side' :=
    Option.some.inj (hadmitted.wellFormed.side.symm.trans henters.wellFormed.side)
  subst hside
  obtain ⟨htrades, hrests⟩ := hplaced.enters_eq henters
  rw [htrades, hrests] at hcall
  obtain ⟨⟨s', outputs'⟩, hhandle, _⟩ := (handleOrder_spec builtins s hcov hv msg).ok_of_fits hfits
  have hstate : s' = p.state := by
    have hafter := hhandle
    unfold handleOrder at hafter
    rw [hjudge, ok_bind] at hafter
    obtain ⟨depth, _, hdone⟩ := bind_ok hafter
    cases hdone
    rfl
  subst hstate
  exact ⟨side, _, _, p.state, outputs', hadmitted.wellFormed,
    fun checks => handleOrder_agrees checks s _ builtins _ hhandle, hcall, hplaced.posts_reference⟩

def offer : List Msg :=
  [.onramp ⟨1, 2000, "q", "a"⟩, .deposit ⟨2, "sol", 10, "q", "b"⟩,
    .order ⟨2, "SOL", "ask", .limit, 100, 4, none, .gtc, "q", "c"⟩]

/-- Of the 2000, 408 pay for the four that the buyer gets and 606 are locked for the six that it still
wants. -/
theorem run_settles_by_reference_partBid :
    ∃ s p s' outputs ts resting, judgeOrder (u64 true) s .noSlippage partBid = .ok (.placed p) ∧
      handleOrder (u64 false) s .noSlippage partBid = .ok (s', outputs) ∧
      Posts holding s s' (settlementReference s.feeSchedule p.asset ts resting) ∧
      s'.usd 1 = ⟨986, 606⟩ := by
  obtain ⟨s, outputs, hrun, hreference⟩ := run_settles_by_reference .noSlippage ⟨100, 200⟩ offer
    (ne_overflow_of_overflowed (by decide +kernel))
  obtain ⟨r, hr, htest⟩ := exists_of_returns
    (run (u64 true) .noSlippage (.new ⟨100, 200⟩) offer)
    (fun r => returns (Verdict.places fun _ =>
        returns (fun r' : EngineState × List Output => decide (r'.1.usd 1 = ⟨986, 606⟩))
          (handleOrder (u64 true) r.1 .noSlippage partBid))
      (judgeOrder (u64 true) r.1 .noSlippage partBid)) (by decide +kernel)
  rw [hrun true] at hr
  cases hr
  obtain ⟨p, hjudge, htest⟩ := exists_of_places _ _ htest
  obtain ⟨r', hhandle, htest⟩ := exists_of_returns _ _ htest
  obtain ⟨side, ts, resting, s', outputs', _, hrun', _, hposts⟩ := hreference partBid p hjudge
    (by rw [hhandle]; simp)
  have hsame := (hrun' true).symm.trans hhandle
  cases hsame
  exact ⟨s, p, s', outputs', ts, resting, hjudge, hrun' false, hposts, of_decide_eq_true htest⟩

end CexRs
