import CexRs.Proof.Coverage
import CexRs.Proof.Liquidity

/-!
# Placing an order

The money side of an accepted order in the checked build, from a state whose resting orders are
covered: funds are locked, the trades are settled, the excess is given back, and nothing underflows on
the way. What was locked is what the trades took, what the remainder needs, and what was given back.
-/

namespace CexRs

open FixedWidth OrderedMap Journal EngineState

namespace EngineState

/-- What a user's resting bids need in all books, and what the resting asks need in one. -/
def usdNeed (s : EngineState) (user : Nat) : Nat :=
  (Asset.all.map fun asset => Matching.weigh (bidNeed s.feeSchedule user) (s.book asset)).sum

def assetNeed (s : EngineState) (user : Nat) (asset : Asset) : Nat :=
  Matching.weigh (askNeed user) (s.book asset)

/-- Every resting order is covered by locked funds, and no asset is locked for anything else. -/
structure Covered (s : EngineState) : Prop where
  usd : ∀ user, s.usdNeed user ≤ s.holding ⟨user, .usd, true⟩
  asset : ∀ user asset, s.holding ⟨user, .stock asset.symbol, true⟩ = s.assetNeed user asset

theorem weigh_le_usdNeed (s : EngineState) (user : Nat) (asset : Asset) :
    Matching.weigh (bidNeed s.feeSchedule user) (s.book asset) ≤ s.usdNeed user := by
  cases asset <;> simp [usdNeed, Asset.all] <;> omega

theorem usdNeed_of_same {s s' : EngineState} (h : SameVenue s s') (user : Nat) :
    s'.usdNeed user = s.usdNeed user := by
  simp [usdNeed, Asset.all, h.book, h.feeSchedule]

theorem usdNeed_of_book {s s' : EngineState} {asset : Asset}
    (hfees : s'.feeSchedule = s.feeSchedule)
    (hother : ∀ asset', asset' ≠ asset → s'.book asset' = s.book asset') (user : Nat) :
    s'.usdNeed user + Matching.weigh (bidNeed s.feeSchedule user) (s.book asset)
      = s.usdNeed user + Matching.weigh (bidNeed s.feeSchedule user) (s'.book asset) := by
  have hsol := hother .sol
  have hbtc := hother .btc
  have heth := hother .eth
  cases asset <;> simp_all [usdNeed, Asset.all] <;> omega

end EngineState

/-! ### Locking and giving back -/

def funds : Side → Asset → Currency
  | .bid, _ => .usd
  | .ask, asset => .stock asset.symbol

def lockPostings (user : Nat) (currency : Currency) (n : Nat) : List (Posting Account) :=
  [⟨⟨user, currency, false⟩, -n⟩, ⟨⟨user, currency, true⟩, n⟩]

def unlockPostings (user : Nat) (currency : Currency) (n : Nat) : List (Posting Account) :=
  [⟨⟨user, currency, true⟩, -n⟩, ⟨⟨user, currency, false⟩, n⟩]

theorem moves_unlock_zero (s : EngineState) (user : Nat) (currency : Currency) :
    Moves s s (unlockPostings user currency 0) :=
  ⟨((Moves.refl s).toPays.zero _).zero _, SameVenue.refl s⟩

section Lock

variable (s : EngineState) (user : Nat) (asset : Asset) (n : Nat)

theorem lockUsd_spec : Meets Overflows (lockUsd (u64 true) s user n) fun r =>
    Moves s r.1 (if r.2 then lockPostings user .usd n else []) ∧
      (r.2 = true ↔ n ≤ s.holding ⟨user, .usd, false⟩) := by
  unfold lockUsd
  refine (touch_moves s user .usd).bind fun s₁ h₁ => ?_
  have hholding := h₁.toPays.holding_eq ⟨user, .usd, false⟩
  split
  · next hlt =>
    change s₁.holding ⟨user, .usd, false⟩ < n at hlt
    exact ⟨h₁, by simp; omega⟩
  · next hle =>
    have hle : n ≤ s₁.holding ⟨user, .usd, false⟩ := Nat.le_of_not_lt hle
    refine (lock_moves s₁ user .usd hle).bind fun s₂ h₂ => ?_
    exact ⟨h₁.trans h₂, by simp; omega⟩

theorem lockAsset_spec : Meets Overflows (lockAsset (u64 true) s user asset n) fun r =>
    Moves s r.1 (if r.2 then lockPostings user (.stock asset.symbol) n else []) ∧
      (r.2 = true ↔ n ≤ s.holding ⟨user, .stock asset.symbol, false⟩) := by
  unfold lockAsset
  refine (touch_moves s user (.stock asset.symbol)).bind fun s₁ h₁ => ?_
  have hholding := h₁.toPays.holding_eq ⟨user, .stock asset.symbol, false⟩
  split
  · next hlt =>
    change s₁.holding ⟨user, .stock asset.symbol, false⟩ < n at hlt
    exact ⟨h₁, by simp; omega⟩
  · next hle =>
    have hle : n ≤ s₁.holding ⟨user, .stock asset.symbol, false⟩ := Nat.le_of_not_lt hle
    refine (lock_moves s₁ user (.stock asset.symbol) hle).bind fun s₂ h₂ => ?_
    exact ⟨h₁.trans h₂, by simp; omega⟩

theorem refundUsd_spec (hle : n ≤ s.holding ⟨user, .usd, true⟩) :
    Meets Overflows (refundUsd (u64 true) s user n)
      fun s' => Moves s s' (unlockPostings user .usd n) := by
  unfold refundUsd
  split
  · exact unlock_moves s user .usd hle
  · next hzero =>
    rw [Nat.eq_zero_of_not_pos hzero]
    exact moves_unlock_zero s user .usd

theorem refundAsset_spec (hle : n ≤ s.holding ⟨user, .stock asset.symbol, true⟩) :
    Meets Overflows (refundAsset (u64 true) s user asset n)
      fun s' => Moves s s' (unlockPostings user (.stock asset.symbol) n) := by
  unfold refundAsset
  split
  · exact unlock_moves s user (.stock asset.symbol) hle
  · next hzero =>
    rw [Nat.eq_zero_of_not_pos hzero]
    exact moves_unlock_zero s user (.stock asset.symbol)

end Lock

theorem net_lock_locked (user user' : Nat) (currency currency' : Currency) (n : Nat) :
    net (· = ⟨user', currency', true⟩) (lockPostings user currency n)
      = if user = user' ∧ currency = currency' then (n : Int) else 0 := by
  simp [lockPostings]

theorem net_unlock_locked (user user' : Nat) (currency currency' : Currency) (n : Nat) :
    net (· = ⟨user', currency', true⟩) (unlockPostings user currency n)
      = if user = user' ∧ currency = currency' then -(n : Int) else 0 := by
  simp [unlockPostings]

/-! ### Spending and holding back -/

def spentOf (fees : FeeSchedule) (side : Side) (ts : List Trade) : Nat :=
  match side with
  | .bid => (ts.map (Trade.debit fees)).sum
  | .ask => (ts.map Trade.qty).sum

/-- What the remainder of an order holds back of the funds it locked. -/
def Order.held (fees : FeeSchedule) (o : Order) : Nat :=
  match o.side with
  | .bid => o.cost + fees.makerFee o.cost
  | .ask => o.remainingQty

def heldOf (fees : FeeSchedule) (resting : Option Order) : Nat := resting.elim 0 (Order.held fees)

theorem pays_setBook (s : EngineState) (asset : Asset) (ob : Orderbook) :
    Pays s (s.setBook asset ob) [] :=
  pays_of_eq (usdBalance_setBook ..) (stockBalance_setBook ..)

theorem pays_issued (s : EngineState) (asset : Asset) (ob : Orderbook) :
    Pays s (s.issued asset ob) [] :=
  pays_of_eq (usdBalance_setBook ..) (stockBalance_setBook ..)

theorem Covers.issued {s : EngineState} {asset : Asset} {ts : List Trade} (h : Covers s asset ts)
    {ob : Orderbook} : Covers (s.issued asset ob) asset ts := by
  have hholding := (pays_issued s asset ob).holding_eq
  constructor
  · intro u
    rw [EngineState.issued, feeSchedule_setBook, ← EngineState.issued, hholding]
    exact h.buyer u
  · intro u
    rw [hholding]
    exact h.seller u

section Place

variable {s s₁ : EngineState} {user : Nat} {side : Side} {asset : Asset} {lock qty : Nat}
  {past : Nat → Bool} {fs : List (Order × Nat)} {m : Matching}

/-- The trades of an order are covered: makers by what their orders need, the taker by its lock. -/
theorem trades_covered (hcov : s.Covered) (hv : (s.book asset).Valid)
    (hlock : Moves s s₁ (lockPostings user (funds side asset) lock))
    (htook : (s.book asset).Took ⟨s.nextOrderId, user, side⟩ past qty fs m)
    (hspent : spentOf s.feeSchedule side (Matching.trades ⟨s.nextOrderId, user, side⟩ fs) ≤ lock) :
    Covers s₁ asset (Matching.trades ⟨s.nextOrderId, user, side⟩ fs) := by
  have hvi := hv.issue s.nextOrderId
  have hfees := hlock.venue.feeSchedule
  have husd : ∀ u, (s₁.holding ⟨u, .usd, true⟩ : Int) = s.holding ⟨u, .usd, true⟩
      + if user = u ∧ funds side asset = .usd then (lock : Int) else 0 := by
    intro u
    rw [hlock.posts, net_lock_locked]
  have hstock : ∀ u, (s₁.holding ⟨u, .stock asset.symbol, true⟩ : Int)
      = s.holding ⟨u, .stock asset.symbol, true⟩
        + if user = u ∧ funds side asset = .stock asset.symbol then (lock : Int) else 0 := by
    intro u
    rw [hlock.posts, net_lock_locked]
  cases side with
  | bid =>
      simp only [funds, reduceCtorEq, and_false, and_true, if_false] at husd hstock
      refine ⟨fun u => ?_, fun u => ?_⟩
      · have husd := husd u
        rw [hfees, Matching.paidBy_bid rfl]
        simp only [spentOf] at hspent
        split
        · next huser =>
            simp only at huser
            rw [if_pos huser] at husd
            omega
        · omega
      · have hgiven := Matching.Fills.askNeed_eq rfl htook.fills hvi u
        have hneed := hcov.asset u asset
        have hstock := hstock u
        rw [assetNeed] at hneed
        simp only [Orderbook.weigh_countTo] at hgiven hneed
        omega
  | ask =>
      simp only [funds, reduceCtorEq, and_false, and_true, if_false] at husd hstock
      refine ⟨fun u => ?_, fun u => ?_⟩
      · have hpaid := Matching.Fills.bidNeed_le rfl htook.fills hvi s.feeSchedule u
        have hneed := hcov.usd u
        have hbook := s.weigh_le_usdNeed u asset
        have husd := husd u
        simp only [Orderbook.weigh_countTo] at hpaid hbook
        rw [hfees]
        omega
      · have hstock := hstock u
        rw [Matching.givenBy_ask rfl]
        simp only [spentOf, Matching.sum_qty_trades] at hspent
        split
        · next huser =>
            simp only at huser
            rw [if_pos huser] at hstock
            omega
        · omega

theorem settle_spec (hcov : s.Covered) (hv : (s.book asset).Valid)
    (hlock : Moves s s₁ (lockPostings user (funds side asset) lock))
    (htook : (s.book asset).Took ⟨s.nextOrderId, user, side⟩ past qty fs m)
    (hspent : spentOf s.feeSchedule side (Matching.trades ⟨s.nextOrderId, user, side⟩ fs) ≤ lock)
    (resting : Option Order) :
    Meets Overflows (settleResults (u64 true) (s₁.issued asset (m.book.restAll resting)) asset side
        (Orderbook.outcome m.results resting))
      (Cleared (s₁.issued asset (m.book.restAll resting)) asset side
        (Matching.trades ⟨s.nextOrderId, user, side⟩ fs) resting) := by
  have hcover := trades_covered hcov hv hlock htook hspent
  have hresults : m.results = Matching.trades ⟨s.nextOrderId, user, side⟩ fs := by
    simpa [Matching.trades] using htook.fills.results_eq
  rw [hresults]
  exact settleResults_spec _ asset side _ resting hcover.issued

theorem net_journal_taker (fees : FeeSchedule) (id : Nat) :
    net (· = ⟨user, funds side asset, true⟩) (journal fees asset (Matching.trades ⟨id, user, side⟩ fs))
      = -(spentOf fees side (Matching.trades ⟨id, user, side⟩ fs) : Int) := by
  cases side with
  | bid =>
      rw [funds, net_journal_usd_locked, Matching.paidBy_bid rfl, if_pos rfl]
      rfl
  | ask =>
      rw [funds, net_journal_stock_locked, if_pos rfl, Matching.givenBy_ask rfl, if_pos rfl,
        ← Matching.sum_qty_trades ⟨id, user, .ask⟩]
      rfl

end Place

structure Placed (s : EngineState) (msg : OrderMsg) (side : Side) (past : Nat → Bool) (qty : Nat)
    (fs : List (Order × Nat)) (m : Matching) (resting : Option Order) (p : Placement) : Prop where
  executed : Executed s p.state p.asset ⟨s.nextOrderId, msg.userId, side⟩ past qty fs m resting
  pays : Pays s p.state (lockPostings msg.userId (funds side p.asset) p.lock
    ++ journal s.feeSchedule p.asset (Matching.trades ⟨s.nextOrderId, msg.userId, side⟩ fs)
    ++ unlockPostings msg.userId (funds side p.asset) p.refund)
  afforded : p.lock ≤ s.holding ⟨msg.userId, funds side p.asset, false⟩
  offered : side = .ask → p.lock = qty
  balanced : p.lock = spentOf s.feeSchedule side
      (Matching.trades ⟨s.nextOrderId, msg.userId, side⟩ fs)
    + heldOf s.feeSchedule resting + p.refund
  takes : fs = Orderbook.takes msg.timeInForce qty
    (Matching.reach ⟨s.nextOrderId, msg.userId, side⟩ past (s.book p.asset))
  rests : resting = remainderOf msg ⟨s.nextOrderId, msg.userId, side⟩ m
  filledQty : p.settlement.filledQty = (fs.map Prod.snd).sum
  resting : p.settlement.resting = resting.map Orderbook.accepted
  events : p.settlement.events
    = (Matching.trades ⟨s.nextOrderId, msg.userId, side⟩ fs).map fun t =>
      t.event s.feeSchedule (p.state.book p.asset) p.asset

section Placed

variable {s s₁ : EngineState} {msg : OrderMsg} {side : Side} {asset : Asset} {lock refund qty : Nat}
  {past : Nat → Bool} {fs : List (Order × Nat)} {m : Matching} {resting : Option Order}
  {settled : Settlement}

/-- What is left of the lock once the trades are settled. -/
theorem cleared_holding (hlock : Moves s s₁ (lockPostings msg.userId (funds side asset) lock))
    (hcleared : Cleared (s₁.issued asset (m.book.restAll resting)) asset side
      (Matching.trades ⟨s.nextOrderId, msg.userId, side⟩ fs) resting settled) :
    settled.state.holding ⟨msg.userId, funds side asset, true⟩
        + spentOf s.feeSchedule side (Matching.trades ⟨s.nextOrderId, msg.userId, side⟩ fs)
      = s.holding ⟨msg.userId, funds side asset, true⟩ + lock := by
  have hfees : (s₁.issued asset (m.book.restAll resting)).feeSchedule = s.feeSchedule := by
    simp [issued, hlock.venue.feeSchedule]
  have hpays := (hlock.toPays.trans (pays_issued s₁ asset _)).trans hcleared.moves.toPays
  have hposts := hpays.posts ⟨msg.userId, funds side asset, true⟩
  rw [net_append, net_append, net_lock_locked, hfees, net_journal_taker] at hposts
  simp at hposts
  omega

theorem placed_of_cleared {state : EngineState}
    (hlock : Moves s s₁ (lockPostings msg.userId (funds side asset) lock))
    (hafforded : lock ≤ s.holding ⟨msg.userId, funds side asset, false⟩)
    (hoffered : side = .ask → lock = qty)
    (htook : (s.book asset).Took ⟨s.nextOrderId, msg.userId, side⟩ past qty fs m)
    (hleaves : ∀ o, resting = some o → 0 < m.remainingQty ∧
      ∃ price, 0 < price ∧ o = Orderbook.leftover ⟨s.nextOrderId, msg.userId, side⟩ price m)
    (hcleared : Cleared (s₁.issued asset (m.book.restAll resting)) asset side
      (Matching.trades ⟨s.nextOrderId, msg.userId, side⟩ fs) resting settled)
    (hrefund : Moves settled.state state (unlockPostings msg.userId (funds side asset) refund))
    (htakes : fs = Orderbook.takes msg.timeInForce qty
      (Matching.reach ⟨s.nextOrderId, msg.userId, side⟩ past (s.book asset)))
    (hrests : resting = remainderOf msg ⟨s.nextOrderId, msg.userId, side⟩ m)
    (hbalanced : lock = spentOf s.feeSchedule side
        (Matching.trades ⟨s.nextOrderId, msg.userId, side⟩ fs)
      + heldOf s.feeSchedule resting + refund) :
    Placed s msg side past qty fs m resting
      { asset, state, lock, refund, settlement := settled } := by
  have hfees : (s₁.issued asset (m.book.restAll resting)).feeSchedule = s.feeSchedule := by
    simp [issued, hlock.venue.feeSchedule]
  have hexec : Executed s₁ (s₁.issued asset (m.book.restAll resting)) asset
      ⟨s.nextOrderId, msg.userId, side⟩ past qty fs m resting :=
    executed_issued hlock.venue.nextOrderId.symm ((hlock.venue.book asset).symm ▸ htook) hleaves
  have hpays := ((hlock.toPays.trans (pays_issued s₁ asset _)).trans hcleared.moves.toPays).trans
    hrefund.toPays
  rw [hfees] at hpays
  refine ⟨?_, ?_, hafforded, hoffered, hbalanced, htakes, hrests, ?_, hcleared.resting, ?_⟩
  · exact ((hexec.before hlock.venue).after hcleared.moves.venue).after hrefund.venue
  · simpa using hpays
  · rw [hcleared.filledQty, Matching.sum_qty_trades]
  · rw [hcleared.events, hfees]
    simp only [hrefund.venue.book, hcleared.moves.venue.book]

end Placed

/-! ### Limit orders -/

section Limit

variable {s : EngineState} {ob : Orderbook} {id user price qty : Nat} {side : Side}
  {fs : List (Order × Nat)} {m : Matching}

theorem sum_debit_bid (fees : FeeSchedule) (fs : List (Order × Nat)) :
    ((Matching.trades ⟨id, user, .bid⟩ fs).map (Trade.debit fees)).sum
      = (fs.map fun f => f.1.price * f.2).sum
        + ((fs.map fun f => f.1.price * f.2).map (bpsFee fees.takerFeeBps)).sum := by
  simp only [Matching.trades, List.map_map, ← List.sum_map_add]
  congr 1

/-- What the trades of a bid cost, and the taker fee on all of it, covers them. -/
theorem spentOf_bid_le (fees : FeeSchedule) (fs : List (Order × Nat)) :
    spentOf fees .bid (Matching.trades ⟨id, user, .bid⟩ fs)
      ≤ Orderbook.fillCost fs + fees.takerFee (Orderbook.fillCost fs) := by
  have hfees := sum_bpsFee_le fees.takerFeeBps (fs.map fun f => f.1.price * f.2)
  rw [spentOf, sum_debit_bid]
  simp only [Orderbook.fillCost, FeeSchedule.takerFee]
  omega

/-- No fill of a limit bid is above its price. -/
theorem sum_cost_le (hv : ob.Valid)
    (htook : ob.Took ⟨id, user, .bid⟩ (Orderbook.pastLimit .bid price) qty fs m) :
    (fs.map fun f => f.1.price * f.2).sum ≤ price * (fs.map Prod.snd).sum := by
  rw [← List.sum_map_mul_left]
  apply List.sum_le_sum
  rintro ⟨o, n⟩ hmem
  obtain ⟨_, _, hcross, _⟩ := htook.fills.mem (hv.issue _) hmem
  simp only [Orderbook.pastLimit, decide_eq_false_iff_not, Nat.not_lt] at hcross
  exact Nat.mul_le_mul_right n hcross

/-- What a limit bid locks covers its trades and its remainder. -/
theorem limit_reserve (hv : ob.Valid) (fees : FeeSchedule) (tif : TimeInForce)
    (htook : ob.Took ⟨id, user, .bid⟩ (Orderbook.pastLimit .bid price) qty fs m) :
    spentOf fees .bid (Matching.trades ⟨id, user, .bid⟩ fs)
        + heldOf fees (Orderbook.remainder ⟨id, user, .bid⟩ price tif m)
      ≤ price * qty + fees.maxFee (price * qty) := by
  have hremaining := htook.fills.remaining
  simp only at hremaining
  have hcost := sum_cost_le hv htook
  have hwhole : price * qty = price * m.remainingQty + price * (fs.map Prod.snd).sum := by
    rw [← hremaining, Nat.mul_add]
  have hheld : heldOf fees (Orderbook.remainder ⟨id, user, .bid⟩ price tif m)
      ≤ price * m.remainingQty + fees.makerFee (price * m.remainingQty) := by
    unfold Orderbook.remainder
    split
    · simp [heldOf, Order.held, Orderbook.leftover, Order.cost]
    · simp [heldOf]
  have htaker : ((fs.map fun f => f.1.price * f.2).map (bpsFee fees.takerFeeBps)).sum
      ≤ fees.maxFee (fs.map fun f => f.1.price * f.2).sum :=
    (sum_bpsFee_le _ _).trans (bpsFee_le_of_le (Nat.le_max_left ..) _)
  have hmaker : fees.makerFee (price * m.remainingQty) ≤ fees.maxFee (price * m.remainingQty) :=
    bpsFee_le_of_le (Nat.le_max_right ..) _
  have hmono : fees.maxFee (fs.map fun f => f.1.price * f.2).sum
      ≤ fees.maxFee (price * (fs.map Prod.snd).sum) := bpsFee_mono _ hcost
  have hadd : fees.maxFee (price * m.remainingQty) + fees.maxFee (price * (fs.map Prod.snd).sum)
      ≤ fees.maxFee (price * qty) := hwhole ▸ bpsFee_add_le _ _ _
  rw [spentOf, sum_debit_bid]
  omega

theorem neededLocked_spec (fees : FeeSchedule) {resting : Option Order}
    (hside : ∀ o, resting = some o → o.side = .bid) :
    Meets Overflows (neededLocked (u64 true) fees (resting.map Orderbook.accepted))
      fun needed => needed = heldOf fees resting := by
  cases resting with
  | none => rfl
  | some o =>
      refine meets_bind.mpr (meets_mul rfl fun _ => ?_)
      refine (calcMakerFee_spec fees _).bind ?_
      rintro _ rfl
      refine meets_add rfl fun _ => ?_
      simp [heldOf, Order.held, hside o rfl, Order.cost, Orderbook.accepted]

/-- An ask locks its quantity: what was sold, what rests and what is given back. -/
theorem ask_balanced (price : Nat) (fees : FeeSchedule) (tif : TimeInForce) {past : Nat → Bool}
    (htook : ob.Took ⟨id, user, .ask⟩ past qty fs m) :
    qty = spentOf fees .ask (Matching.trades ⟨id, user, .ask⟩ fs)
      + heldOf fees (Orderbook.remainder ⟨id, user, .ask⟩ price tif m)
      + (if tif ≠ .gtc then qty - (fs.map Prod.snd).sum else 0) := by
  have hremaining := htook.fills.remaining
  simp only at hremaining
  rw [spentOf, Matching.sum_qty_trades]
  unfold Orderbook.remainder
  by_cases htif : tif = .gtc
  · by_cases hpos : 0 < m.remainingQty
    · simp only [hpos, htif, and_self, if_true, heldOf, Option.elim_some, Order.held,
        Orderbook.leftover, ne_eq, not_true_eq_false, if_false]
      omega
    · simp only [hpos, htif, false_and, if_false, heldOf, Option.elim_none, ne_eq,
        not_true_eq_false]
      omega
  · simp only [htif, and_false, if_false, heldOf, Option.elim_none, ne_eq, not_false_eq_true, if_true]
    omega

/-- What a limit order locks: its cost and reserve if it is a bid, its quantity if it is an ask. -/
def stake (side : Side) (totalLock qty : Nat) : Nat :=
  match side with
  | .bid => totalLock
  | .ask => qty

/-- What the search decides in the checked build is what the order takes. -/
theorem took_takes {past : Nat → Bool} {found : Bool} {tif : TimeInForce} (hv : ob.Valid)
    (htook : ob.Took ⟨id, user, side⟩ past qty fs m)
    (hfound : tif = .fok → found = decide (qty
      ≤ ((Matching.reach ⟨id, user, side⟩ past ob).map Order.remainingQty).sum))
    (hother : tif ≠ .fok → found = true)
    (hstopped : found = true → Matching.Stopped ⟨id, user, side⟩ past m)
    (hkilled : found = false → fs = []) :
    fs = Orderbook.takes tif qty (Matching.reach ⟨id, user, side⟩ past ob) := by
  have hgreedy : found = true → fs = Greedy.fills Order.remainingQty qty
      (Matching.reach ⟨id, user, side⟩ past ob) := by
    intro h
    have hfills := (htook.fills.greedy (hv.issue id) (hstopped h)).1
    simpa using hfills
  unfold Orderbook.takes
  split
  · next hshort =>
    apply hkilled
    rw [hfound hshort.1]
    exact decide_eq_false (by omega)
  · next hshort =>
    apply hgreedy
    by_cases hfok : tif = .fok
    · rw [hfound hfok]
      apply decide_eq_true
      by_contra hlt
      exact hshort ⟨hfok, by omega⟩
    · exact hother hfok

/-- A limit order whose lock covers it is placed exactly, unless something overflows. -/
theorem placeLimit_spec (side : Side) {s₁ : EngineState} {msg : OrderMsg} {asset : Asset}
    {lock : Nat} (hcov : s.Covered) (hv : (s.book asset).Valid) (hlimit : msg.orderType = .limit)
    (hprice : 0 < msg.price.toInt.toNat) (hqty : 0 < qty)
    (hlock : Moves s s₁ (lockPostings msg.userId (funds side asset) (stake side lock qty)))
    (hafforded : stake side lock qty ≤ s.holding ⟨msg.userId, funds side asset, false⟩)
    (henough : side = .bid → msg.price.toInt.toNat * qty
      + s.feeSchedule.maxFee (msg.price.toInt.toNat * qty) ≤ lock) :
    Meets Overflows (placeLimit (u64 true) s₁ msg asset side msg.price.toInt.toNat qty lock) fun p =>
      p.asset = asset ∧ p.lock = stake side lock qty ∧ ∃ fs m, Placed s msg side
        (Orderbook.pastLimit side msg.price.toInt.toNat) qty fs m
        (remainderOf msg ⟨s.nextOrderId, msg.userId, side⟩ m) p := by
  have hbook := hlock.venue.book asset
  have hnext := hlock.venue.nextOrderId
  have hover : Overflows .overflow := rfl
  refine meets_placeLimit (u64 true) s₁ msg asset hover (hbook.symm ▸ hv) side hprice hqty lock ?_
  rintro - found fs m hfound htook hstopped hkilled resting rfl
  rw [hbook, hnext] at htook hfound
  rw [hnext] at hstopped ⊢
  have htakes : fs = Orderbook.takes msg.timeInForce qty (Matching.reach
      ⟨s.nextOrderId, msg.userId, side⟩ (Orderbook.pastLimit side msg.price.toInt.toNat)
      (s.book asset)) := by
    apply took_takes hv htook _ hfound.2 hstopped hkilled
    intro hfok
    have hspec := (Orderbook.canFillQuantity_spec (hv.issue s.nextOrderId)
      ⟨s.nextOrderId, msg.userId, side⟩ msg.price.toInt.toNat hqty).of_ok (hfound.1 hfok)
    simpa using hspec
  have hrests : Orderbook.remainder ⟨s.nextOrderId, msg.userId, side⟩ msg.price.toInt.toNat
      msg.timeInForce m = remainderOf msg ⟨s.nextOrderId, msg.userId, side⟩ m := by
    simp [remainderOf, hlimit]
  have hleaves : ∀ o, remainderOf msg ⟨s.nextOrderId, msg.userId, side⟩ m = some o → _ :=
    fun o ho => remainder_resting hprice (hrests.trans ho)
  cases side with
  | bid =>
      have hreserve := limit_reserve hv s.feeSchedule msg.timeInForce htook
      have hcover := henough rfl
      rw [hrests] at hreserve ⊢
      refine (settle_spec hcov hv hlock htook (by simp only [stake]; omega) _).bind
        fun settled hcleared => ?_
      have hfees : settled.state.feeSchedule = s.feeSchedule := by
        rw [hcleared.moves.venue.feeSchedule]
        simp [issued, hlock.venue.feeSchedule]
      have hbids : ∀ o, remainderOf msg ⟨s.nextOrderId, msg.userId, .bid⟩ m = some o →
          o.side = .bid := by
        intro o ho
        obtain ⟨_, _, _, rfl⟩ := hleaves o ho
        rfl
      have hneeded := neededLocked_spec s.feeSchedule hbids
      rw [← hcleared.resting, ← hfees] at hneeded
      refine hneeded.bind ?_
      rintro _ rfl
      have hspent := hcleared.spent
      simp only [issued, feeSchedule_setBook, hlock.venue.feeSchedule, if_true] at hspent
      have hholding := cleared_holding hlock hcleared
      simp only [spentOf, stake] at hreserve hholding
      rw [hfees]
      refine (refundUsd_spec settled.state msg.userId _ (by
        simp only [funds] at hholding
        omega)).bind fun state hstate => ?_
      refine ⟨rfl, rfl, fs, m, placed_of_cleared hlock hafforded (by simp) htook hleaves hcleared
        hstate htakes rfl ?_⟩
      simp only [spentOf]
      omega
  | ask =>
      have hbalanced := ask_balanced msg.price.toInt.toNat s.feeSchedule msg.timeInForce htook
      rw [hrests] at hbalanced ⊢
      refine (settle_spec hcov hv hlock htook (by simp only [stake]; omega) _).bind
        fun settled hcleared => ?_
      have hfilled := hcleared.filledQty
      rw [Matching.sum_qty_trades] at hfilled
      have hremaining := htook.fills.remaining
      simp only at hremaining
      have hholding := cleared_holding hlock hcleared
      simp only [stake] at hholding
      refine meets_bind.mpr (meets_sub (by omega) ?_)
      rw [hfilled]
      refine (refundAsset_spec settled.state msg.userId asset _ (by
        simp only [funds] at hholding
        omega)).bind fun state hstate => ?_
      exact ⟨rfl, rfl, fs, m, placed_of_cleared hlock hafforded (fun _ => rfl) htook hleaves hcleared
        hstate htakes rfl hbalanced⟩

end Limit

/-! ### Orders of every kind -/

section Asks

variable (builtins : Builtins) (s : EngineState) (msg : OrderMsg) (asset : Asset) (side : Side)

def crossedOrders : List Order :=
  Matching.reach ⟨s.nextOrderId, msg.userId, side⟩ (orderPast builtins s msg asset side) (s.book asset)

def crossedQty : Nat := ((crossedOrders builtins s msg asset side).map Order.remainingQty).sum

def FallsShort : Prop :=
  msg.timeInForce = .fok ∧ crossedQty builtins s msg asset side < msg.qty.toInt.toNat

def limitCost : Nat := msg.price.toInt.toNat * msg.qty.toInt.toNat

def marketCost : Nat :=
  Orderbook.fillCost (Greedy.fills Order.remainingQty msg.qty.toInt.toNat
    (crossedOrders builtins s msg asset .bid))

def orderLock : Nat :=
  match side, msg.orderType with
  | .bid, .limit => limitCost msg + s.feeSchedule.maxFee (limitCost msg)
  | .bid, .market => marketCost builtins s msg asset
      + s.feeSchedule.takerFee (marketCost builtins s msg asset)
  | .ask, _ => msg.qty.toInt.toNat

structure Admitted : Prop where
  wellFormed : WellFormed msg asset side
  found : msg.orderType = .market → ¬ FallsShort builtins s msg asset side
  liquid : msg.orderType = .market → side = .bid → 0 < crossedQty builtins s msg asset side
  afforded : orderLock builtins s msg asset side ≤ s.holding ⟨msg.userId, funds side asset, false⟩

/-- A fill-or-kill market order that finds too little. -/
structure Unfilled : Prop where
  wellFormed : WellFormed msg asset side
  market : msg.orderType = .market
  short : FallsShort builtins s msg asset side

def Declined (reply : Output) : Prop :=
  (∃ error, reply = replyError msg.queueId msg.identifier error 400) ∧
      (∀ asset side, ¬ Admitted builtins s msg asset side ∧ ¬ Unfilled builtins s msg asset side) ∨
    reply = unfilledReply msg ∧ ∃ asset side, Unfilled builtins s msg asset side

/-- What an order comes to: a refusal that moves nothing, or a placement that does exactly what the
side, the limit and the quantity of the order say. -/
def JudgedAs : Verdict → Prop
  | .refused s' reply => Moves s s' [] ∧ Declined builtins s msg reply
  | .placed p => ∃ side fs m, Admitted builtins s msg p.asset side ∧
      p.lock = orderLock builtins s msg p.asset side ∧
      Placed s msg side (orderPast builtins s msg p.asset side) msg.qty.toInt.toNat fs m
        (remainderOf msg ⟨s.nextOrderId, msg.userId, side⟩ m) p

end Asks

def Verdict.places (test : Placement → Bool) : Verdict → Bool
  | .refused _ _ => false
  | .placed p => test p

theorem exists_of_places (x : Except Fault Verdict) (test : Placement → Bool)
    (h : returns (Verdict.places test) x = true) : ∃ p, x = .ok (.placed p) ∧ test p = true := by
  obtain ⟨verdict, hreturns, htest⟩ := exists_of_returns x _ h
  cases verdict with
  | refused s' reply => cases htest
  | placed p => exact ⟨p, hreturns, htest⟩

section Orders

variable (s : EngineState) (builtins : Builtins) (msg : OrderMsg) (asset : Asset)

/-- An error for one reading of the message is an error: there is no other. -/
theorem declined_error {side : Side} (hasset : Asset.ofString? msg.asset = some asset)
    (hside : Side.ofString? msg.side = some side) (error : String)
    (hno : ¬ Admitted builtins s msg asset side ∧ ¬ Unfilled builtins s msg asset side) :
    Declined builtins s msg (replyError msg.queueId msg.identifier error 400) := by
  have hsame : ∀ {asset' side'}, WellFormed msg asset' side' → asset' = asset ∧ side' = side := by
    intro asset' side' h
    have hasset' := h.asset
    have hside' := h.side
    rw [hasset] at hasset'
    rw [hside] at hside'
    cases hasset'
    cases hside'
    exact ⟨rfl, rfl⟩
  refine Or.inl ⟨⟨error, rfl⟩, fun asset' side' => ⟨fun h => ?_, fun h => ?_⟩⟩
  · obtain ⟨rfl, rfl⟩ := hsame h.wellFormed
    exact hno.1 h
  · obtain ⟨rfl, rfl⟩ := hsame h.wellFormed
    exact hno.2 h

/-- A message that cannot be read as an order is answered with an error. -/
theorem declined_unread (error : String) (hno : ∀ asset side, ¬ WellFormed msg asset side) :
    Declined builtins s msg (replyError msg.queueId msg.identifier error 400) :=
  Or.inl ⟨⟨error, rfl⟩, fun asset side => ⟨fun h => hno asset side h.wellFormed,
    fun h => hno asset side h.wellFormed⟩⟩

theorem handleLimit_spec (hcov : s.Covered) (hv : s.Valid) (hlimit : msg.orderType = .limit)
    (side : Side) (hasset : Asset.ofString? msg.asset = some asset)
    (hside : Side.ofString? msg.side = some side) (hqty : 0 < msg.qty.toInt) :
    Meets Overflows (handleLimit (u64 true) s msg asset side msg.qty.toInt.toNat)
      (JudgedAs builtins s msg) := by
  have hpos : 0 < msg.qty.toInt.toNat := by omega
  have hpast : orderPast builtins s msg asset side
      = Orderbook.pastLimit side msg.price.toInt.toNat := by
    simp [orderPast, hlimit]
  have hunfilled : ¬ Unfilled builtins s msg asset side := by
    intro h
    have hmarket := h.market
    rw [hlimit] at hmarket
    cases hmarket
  unfold handleLimit
  split
  · next hprice =>
    refine ⟨Moves.refl s, declined_error s builtins msg asset hasset hside _ ⟨fun h => ?_, hunfilled⟩⟩
    have hpriced := h.wellFormed.priced hlimit
    omega
  · next hprice =>
    have hprice' : 0 < msg.price.toInt.toNat := by omega
    have hform : WellFormed msg asset side := ⟨hasset, hside, hqty, fun _ => by omega⟩
    have hadmits : orderLock builtins s msg asset side
        ≤ s.holding ⟨msg.userId, funds side asset, false⟩ → Admitted builtins s msg asset side :=
      fun h => ⟨hform, by simp [hlimit], by simp [hlimit], h⟩
    refine meets_bind.mpr (meets_mul rfl fun _ => ?_)
    refine meets_bind.mpr (meets_mul rfl fun _ => ?_)
    refine meets_bind.mpr (meets_add rfl fun _ => ?_)
    cases side with
    | bid =>
        have hlock : orderLock builtins s msg asset .bid
            = limitCost msg + s.feeSchedule.maxFee (limitCost msg) := by
          simp [orderLock, hlimit]
        refine (lockUsd_spec s _ _).bind ?_
        rintro ⟨s₁, enough⟩ ⟨h₁, hafforded⟩
        cases enough with
        | false =>
            refine ⟨h₁, declined_error s builtins msg asset hasset hside _ ⟨fun h => ?_, hunfilled⟩⟩
            have hle := h.afforded
            rw [hlock] at hle
            exact absurd (hafforded.mpr hle) (by simp)
        | true =>
            refine (placeLimit_spec .bid hcov (hv.book asset) hlimit hprice' hpos h₁
              (hafforded.mp rfl) (fun _ => Nat.le_refl _)).bind fun p hp => ?_
            obtain ⟨rfl, hplock, fs, m, hplaced⟩ := hp
            exact ⟨.bid, fs, m, hadmits (hlock ▸ hafforded.mp rfl), hplock.trans hlock.symm,
              hpast ▸ hplaced⟩
    | ask =>
        have hlock : orderLock builtins s msg asset .ask = msg.qty.toInt.toNat := rfl
        refine (lockAsset_spec s _ asset _).bind ?_
        rintro ⟨s₁, enough⟩ ⟨h₁, hafforded⟩
        cases enough with
        | false =>
            refine ⟨h₁, declined_error s builtins msg asset hasset hside _ ⟨fun h => ?_, hunfilled⟩⟩
            have hle := h.afforded
            rw [hlock] at hle
            exact absurd (hafforded.mpr hle) (by simp)
        | true =>
            refine (placeLimit_spec .ask hcov (hv.book asset) hlimit hprice' hpos h₁
              (hafforded.mp rfl) (fun h => by cases h)).bind fun p hp => ?_
            obtain ⟨rfl, hplock, fs, m, hplaced⟩ := hp
            exact ⟨.ask, fs, m, hadmits (hafforded.mp rfl), hplock, hpast ▸ hplaced⟩

/-- What a market order that is let through takes. -/
theorem market_takes {side : Side} {fs : List (Order × Nat)}
    (hshort : ¬ FallsShort builtins s msg asset side)
    (hgreedy : fs = Greedy.fills Order.remainingQty msg.qty.toInt.toNat
      (crossedOrders builtins s msg asset side)) :
    fs = Orderbook.takes msg.timeInForce msg.qty.toInt.toNat
      (crossedOrders builtins s msg asset side) := by
  unfold FallsShort crossedQty at hshort
  rw [Orderbook.takes, if_neg hshort, hgreedy]

section Searches

variable (hv : s.Valid) (hmarket : msg.orderType = .market) (hqty : 0 < msg.qty.toInt.toNat)

include hv hmarket hqty

/-- A market sell finds too little exactly if it is fill-or-kill and falls short. -/
theorem fillableForSell_spec : Meets Overflows (fillableForSell (u64 true) (s.book asset)
    msg.timeInForce msg.qty.toInt.toNat (worstPrice builtins msg (s.book asset).bestBid))
      fun fillable => fillable < msg.qty.toInt.toNat ↔ FallsShort builtins s msg asset .ask := by
  have hpast : orderPast builtins s msg asset .ask = Orderbook.pastWorst .ask
      (worstPrice builtins msg (s.book asset).bestBid) := by
    simp [orderPast, hmarket, Orderbook.best, Side.opposite]
  unfold fillableForSell
  split
  · next hfok =>
    refine (Orderbook.fillableQtyForMarketSell_spec (hv.book asset) hqty _
      ⟨s.nextOrderId, msg.userId, .ask⟩ rfl).imp fun fillable _ hfillable => ?_
    simp only [FallsShort, crossedQty, crossedOrders, hpast, hfok, true_and]
    omega
  · next hfok => simp [FallsShort, hfok]

/-- A market buy is quoted what the orders it crosses cost. -/
theorem quote_spec : Meets Overflows ((s.book asset).quoteCostForMarketBuy (u64 true)
    msg.qty.toInt.toNat (worstPrice builtins msg (s.book asset).bestAsk)) fun r =>
      r = (marketCost builtins s msg asset,
        min msg.qty.toInt.toNat (crossedQty builtins s msg asset .bid)) := by
  have hpast : orderPast builtins s msg asset .bid = Orderbook.pastWorst .bid
      (worstPrice builtins msg (s.book asset).bestAsk) := by
    simp [orderPast, hmarket, Orderbook.best, Side.opposite]
  refine (Orderbook.quoteCostForMarketBuy_spec (hv.book asset) hqty _
    ⟨s.nextOrderId, msg.userId, .bid⟩ rfl).imp fun r _ hr => ?_
  simp only [Greedy.sum_fills, ← hpast] at hr
  exact hr

end Searches

theorem handleMarketSell_spec (hcov : s.Covered) (hv : s.Valid) (hmarket : msg.orderType = .market)
    (hform : WellFormed msg asset .ask) :
    Meets Overflows (handleMarketSell (u64 true) s builtins msg asset msg.qty.toInt.toNat)
      (JudgedAs builtins s msg) := by
  have hqty : 0 < msg.qty.toInt.toNat := by
    have hpositive := hform.positive
    omega
  have hpast : orderPast builtins s msg asset .ask = Orderbook.pastWorst .ask
      (worstPrice builtins msg (s.book asset).bestBid) := by
    simp [orderPast, hmarket, Orderbook.best, Side.opposite]
  have hrests : ∀ m, remainderOf msg ⟨s.nextOrderId, msg.userId, .ask⟩ m = none := by
    simp [remainderOf, hmarket]
  unfold handleMarketSell
  refine (fillableForSell_spec s builtins msg asset hv hmarket hqty).bind fun fillable hdecided => ?_
  split
  · next hlt =>
    exact ⟨Moves.refl s, Or.inr ⟨rfl, asset, .ask, hform, hmarket, hdecided.mp hlt⟩⟩
  · next hle =>
    have hshort := fun h => hle (hdecided.mpr h)
    refine (lockAsset_spec s _ asset _).bind ?_
    rintro ⟨s₁, enough⟩ ⟨h₁, hafforded⟩
    cases enough with
    | false =>
        refine ⟨h₁, declined_error s builtins msg asset hform.asset hform.side _
          ⟨fun h => ?_, fun h => hshort h.short⟩⟩
        exact absurd (hafforded.mpr h.afforded) (by simp)
    | true =>
        have hbook := h₁.venue.book asset
        have hnext := h₁.venue.nextOrderId
        have hafforded := hafforded.mp rfl
        have hlock : Moves s s₁ (lockPostings msg.userId (funds .ask asset) msg.qty.toInt.toNat) := h₁
        dsimp only
        rw [if_neg (by simp), meets_bind]
        refine meets_placeMarket (u64 true) s₁ msg asset (show Overflows .overflow from rfl)
          (hbook.symm ▸ hv.book asset) .ask hqty (worstPrice builtins msg (s.book asset).bestBid) ?_
        intro _ fs m htook _ hgreedy
        rw [hbook, hnext, ← hpast] at htook hgreedy
        have hremaining := htook.fills.remaining
        simp only at hremaining
        have hspent : spentOf s.feeSchedule .ask (Matching.trades ⟨s.nextOrderId, msg.userId, .ask⟩ fs)
            = (fs.map Prod.snd).sum := Matching.sum_qty_trades _ _
        refine (settle_spec hcov (hv.book asset) hlock htook (by omega) none).imp
          fun settled _ hcleared => ?_
        have hfilled := hcleared.filledQty
        rw [Matching.sum_qty_trades] at hfilled
        have hholding := cleared_holding hlock hcleared
        refine meets_bind.mpr (meets_sub (by omega) ?_)
        refine (refundAsset_spec settled.state msg.userId asset _ (by
          simp only [funds] at hholding
          omega)).bind fun state hstate => ?_
        have hadmitted : Admitted builtins s msg asset .ask :=
          ⟨hform, fun _ => hshort, by simp, hafforded⟩
        refine ⟨.ask, fs, m, hadmitted, rfl, ?_⟩
        rw [hrests]
        refine placed_of_cleared hlock hafforded (fun _ => rfl) htook (by simp) hcleared hstate
          (market_takes s builtins msg asset hshort hgreedy) (hrests m).symm ?_
        simp only [heldOf, Option.elim_none]
        omega

theorem handleMarketBuy_spec (hcov : s.Covered) (hv : s.Valid) (hmarket : msg.orderType = .market)
    (hform : WellFormed msg asset .bid) :
    Meets Overflows (handleMarketBuy (u64 true) s builtins msg asset msg.qty.toInt.toNat)
      (JudgedAs builtins s msg) := by
  have hqty : 0 < msg.qty.toInt.toNat := by
    have hpositive := hform.positive
    omega
  have hpast : orderPast builtins s msg asset .bid = Orderbook.pastWorst .bid
      (worstPrice builtins msg (s.book asset).bestAsk) := by
    simp [orderPast, hmarket, Orderbook.best, Side.opposite]
  have hrests : ∀ m, remainderOf msg ⟨s.nextOrderId, msg.userId, .bid⟩ m = none := by
    simp [remainderOf, hmarket]
  have hlocks : orderLock builtins s msg asset .bid = marketCost builtins s msg asset
      + s.feeSchedule.takerFee (marketCost builtins s msg asset) := by
    simp [orderLock, hmarket]
  unfold handleMarketBuy
  refine (quote_spec s builtins msg asset hv hmarket hqty).bind ?_
  rintro _ rfl
  dsimp only
  split
  · next hkilled =>
    have hshort : FallsShort builtins s msg asset .bid := ⟨hkilled.1, by omega⟩
    exact ⟨Moves.refl s, Or.inr ⟨rfl, asset, .bid, hform, hmarket, hshort⟩⟩
  · next hfound =>
    have hshort : ¬ FallsShort builtins s msg asset .bid := by
      rintro ⟨hfok, hlt⟩
      exact hfound ⟨hfok, by omega⟩
    split
    · next hzero =>
      refine ⟨Moves.refl s, declined_error s builtins msg asset hform.asset hform.side _
        ⟨fun h => ?_, fun h => hshort h.short⟩⟩
      have hliquid := h.liquid hmarket rfl
      omega
    · next hliquid =>
      refine (calcTakerFee_spec _ _).bind ?_
      rintro _ rfl
      refine meets_bind.mpr (meets_add rfl fun _ => ?_)
      refine (lockUsd_spec s _ _).bind ?_
      rintro ⟨s₁, enough⟩ ⟨h₁, hafforded⟩
      cases enough with
      | false =>
          refine ⟨h₁, declined_error s builtins msg asset hform.asset hform.side _
            ⟨fun h => ?_, fun h => hshort h.short⟩⟩
          have hle := h.afforded
          rw [hlocks] at hle
          exact absurd (hafforded.mpr hle) (by simp)
      | true =>
          have hbook := h₁.venue.book asset
          have hnext := h₁.venue.nextOrderId
          dsimp only
          rw [if_neg (by simp), meets_bind]
          refine meets_placeMarket (u64 true) s₁ msg asset (show Overflows .overflow from rfl)
            (hbook.symm ▸ hv.book asset) .bid hqty (worstPrice builtins msg (s.book asset).bestAsk) ?_
          intro _ fs m htook _ hgreedy
          rw [hbook, hnext, ← hpast] at htook hgreedy
          have hcost : marketCost builtins s msg asset = Orderbook.fillCost fs := by
            rw [hgreedy]
            rfl
          have hafforded := hafforded.mp rfl
          have hlock : Moves s s₁ (lockPostings msg.userId (funds .bid asset)
            (marketCost builtins s msg asset
              + s.feeSchedule.takerFee (marketCost builtins s msg asset))) := h₁
          have hspent : spentOf s.feeSchedule .bid
              (Matching.trades ⟨s.nextOrderId, msg.userId, .bid⟩ fs)
              ≤ marketCost builtins s msg asset
                + s.feeSchedule.takerFee (marketCost builtins s msg asset) := by
            rw [hcost]
            exact spentOf_bid_le s.feeSchedule fs
          refine (settle_spec hcov (hv.book asset) hlock htook hspent none).imp
            fun settled _ hcleared => ?_
          have hsettled := hcleared.spent
          simp only [issued, feeSchedule_setBook, hlock.venue.feeSchedule, if_true] at hsettled
          have hholding := cleared_holding hlock hcleared
          simp only [spentOf] at hspent hholding
          refine (refundUsd_spec settled.state msg.userId _ (by
            simp only [funds] at hholding
            omega)).bind fun state hstate => ?_
          have hadmitted : Admitted builtins s msg asset .bid :=
            ⟨hform, fun _ => hshort, fun _ _ => by omega, hlocks ▸ hafforded⟩
          refine ⟨.bid, fs, m, hadmitted, hlocks.symm, ?_⟩
          rw [hrests]
          refine placed_of_cleared hlock hafforded (by simp) htook (by simp) hcleared hstate
            (market_takes s builtins msg asset hshort hgreedy) (hrests m).symm ?_
          simp only [spentOf, heldOf, Option.elim_none]
          omega

/-- **An order, exactly.** From a covered state, an order that does not overflow is refused or placed
exactly as its side, its limit and its quantity say. -/
theorem judgeOrder_spec (hcov : s.Covered) (hv : s.Valid) :
    Meets Overflows (judgeOrder (u64 true) s builtins msg) (JudgedAs builtins s msg) := by
  unfold judgeOrder
  cases hasset : Asset.ofString? msg.asset with
  | none =>
      refine ⟨Moves.refl s, declined_unread s builtins msg _ fun asset side h => ?_⟩
      exact absurd (hasset.symm.trans h.asset) (by simp)
  | some asset =>
      cases hside : Side.ofString? msg.side with
      | none =>
          refine ⟨Moves.refl s, declined_unread s builtins msg _ fun asset side h => ?_⟩
          exact absurd (hside.symm.trans h.side) (by simp)
      | some side =>
          dsimp only
          split
          · next hqty =>
            refine ⟨Moves.refl s, declined_unread s builtins msg _ fun asset side h => ?_⟩
            have hpositive := h.positive
            omega
          · next hqty =>
            have hqty : 0 < msg.qty.toInt := by omega
            cases htype : msg.orderType with
            | limit => exact handleLimit_spec s builtins msg asset hcov hv htype side hasset hside hqty
            | market =>
                have hform : WellFormed msg asset side := ⟨hasset, hside, hqty, by simp [htype]⟩
                cases side with
                | ask => exact handleMarketSell_spec s builtins msg asset hcov hv htype hform
                | bid => exact handleMarketBuy_spec s builtins msg asset hcov hv htype hform

end Orders

end CexRs
