import CexRs.Proof.SettlementBounds

/-!
# Orders within the word

A bound on an order, stated on the state before it in exact numbers, under which the handlers of the
checked build do not overflow: the amount that the order locks, the accounts that its trades credit and
the level that its remainder joins all stay within the word.
-/

namespace CexRs

open FixedWidth OrderedMap Journal EngineState

def Orderbook.Sized (fees : FeeSchedule) (ob : Orderbook) : Prop :=
  ∀ (id : Nat) (o : Order), ob.orders[id]? = some o → o.remainingQty < 2 ^ 63 ∧ fees.Sized o.cost

/-! ### Locking and giving back -/

section Lock

variable (s : EngineState) (user : Nat) (asset : Asset) {n : Nat}

theorem lockUsd_fits (h : n ≤ s.holding ⟨user, .usd, false⟩ →
    s.holding ⟨user, .usd, true⟩ + n < 2 ^ 64) : Fits (lockUsd (u64 true) s user n) := by
  unfold lockUsd
  apply (touch_moves s user .usd).fits_bind (fits_balanceMut s user .usd (fits_ok _))
  intro s₁ h₁
  split
  · exact fits_ok _
  · next hle =>
    have hle : n ≤ s₁.holding ⟨user, .usd, false⟩ := Nat.le_of_not_lt hle
    rw [h₁.toPays.holding_eq] at hle
    have hroom := h hle
    rw [← h₁.toPays.holding_eq] at hroom
    exact Fits.bind (lock_fits s₁ user .usd hroom) fun _ _ => fits_ok _

theorem lockAsset_fits (h : n ≤ s.holding ⟨user, .stock asset.symbol, false⟩ →
    s.holding ⟨user, .stock asset.symbol, true⟩ + n < 2 ^ 64) :
    Fits (lockAsset (u64 true) s user asset n) := by
  unfold lockAsset
  apply (touch_moves s user (.stock asset.symbol)).fits_bind
    (fits_balanceMut s user (.stock asset.symbol) (fits_ok _))
  intro s₁ h₁
  split
  · exact fits_ok _
  · next hle =>
    have hle : n ≤ s₁.holding ⟨user, .stock asset.symbol, false⟩ := Nat.le_of_not_lt hle
    rw [h₁.toPays.holding_eq] at hle
    have hroom := h hle
    rw [← h₁.toPays.holding_eq] at hroom
    exact Fits.bind (lock_fits s₁ user (.stock asset.symbol) hroom) fun _ _ => fits_ok _

theorem refundUsd_fits (h : s.holding ⟨user, .usd, false⟩ + n < 2 ^ 64) :
    Fits (refundUsd (u64 true) s user n) := by
  unfold refundUsd
  split
  · exact unlock_fits s user .usd h
  · exact fits_ok _

theorem refundAsset_fits (h : s.holding ⟨user, .stock asset.symbol, false⟩ + n < 2 ^ 64) :
    Fits (refundAsset (u64 true) s user asset n) := by
  unfold refundAsset
  split
  · exact unlock_fits s user (.stock asset.symbol) h
  · exact fits_ok _

end Lock

/-! ### Settling -/

section Settle

variable {s s₁ : EngineState} {user : Nat} {side : Side} {asset : Asset} {lock qty : Nat}
  {past : Nat → Bool} {fs : List (Order × Nat)} {m : Matching}

/-- A trade is worth no more than the order it is made with. -/
theorem trades_sized {fees : FeeSchedule} (hsized : (s.book asset).Sized fees)
    (hv : (s.book asset).Valid) (htook : (s.book asset).Took ⟨s.nextOrderId, user, side⟩ past qty fs m) :
    ∀ t ∈ Matching.trades ⟨s.nextOrderId, user, side⟩ fs, fees.Sized t.value := by
  intro t ht
  obtain ⟨⟨o, n⟩, hmem, rfl⟩ := List.mem_map.mp ht
  obtain ⟨hget, _, _, _, hn⟩ := htook.fills.mem (hv.issue _) hmem
  have hvalue : (Matching.fillTrade ⟨s.nextOrderId, user, side⟩ (o, n)).value = o.price * n := by
    cases side <;> rfl
  rw [hvalue]
  exact (hsized _ _ hget).2.mono (Nat.mul_le_mul_left _ hn)

/-- Locking takes from an available account, so it leaves room for what there was room for. -/
theorem Absorbs.locked {ps : List (Posting Account)} (h : s.Absorbs ps)
    (hlock : Moves s s₁ (lockPostings user (funds side asset) lock)) : s₁.Absorbs ps := by
  apply h.of_le
  intro k hk
  have hpost := hlock.posts k
  have hle : net (· = k) (lockPostings user (funds side asset) lock) ≤ 0 := by
    obtain ⟨user', currency', locked⟩ := k
    simp only at hk
    subst hk
    simp only [lockPostings, net_cons, net_nil, Account.mk.injEq, Bool.true_eq_false, and_false,
      if_false]
    split <;> omega
  omega

theorem settle_fits (hcov : s.Covered) (hv : (s.book asset).Valid)
    (hlock : Moves s s₁ (lockPostings user (funds side asset) lock))
    (htook : (s.book asset).Took ⟨s.nextOrderId, user, side⟩ past qty fs m)
    (hspent : spentOf s.feeSchedule side (Matching.trades ⟨s.nextOrderId, user, side⟩ fs) ≤ lock)
    (resting : Option Order) (hsized : (s.book asset).Sized s.feeSchedule)
    (habsorbs : s.Absorbs (journal s.feeSchedule asset
      (Matching.trades ⟨s.nextOrderId, user, side⟩ fs)))
    (hqty : qty < 2 ^ 64) (hword : lock < 2 ^ 64) :
    Fits (settleResults (u64 true) (s₁.issued asset (m.book.restAll resting)) asset side
      (Orderbook.outcome m.results resting)) := by
  have hcover := trades_covered hcov hv hlock htook hspent
  have hresults : m.results = Matching.trades ⟨s.nextOrderId, user, side⟩ fs := by
    simpa [Matching.trades] using htook.fills.results_eq
  have hfees : (s₁.issued asset (m.book.restAll resting)).feeSchedule = s.feeSchedule := by
    simp [issued, hlock.venue.feeSchedule]
  have hholding := (pays_issued s₁ asset (m.book.restAll resting)).holding_eq
  have hremaining := htook.fills.remaining
  simp only at hremaining
  rw [hresults]
  apply settleResults_fits _ asset side _ resting hcover.issued
  refine ⟨?_, ?_, ?_, ?_⟩
  · rw [hfees]
    exact trades_sized hsized hv htook
  · rw [hfees]
    apply (Absorbs.locked habsorbs hlock).of_le
    intro k _
    exact (hholding k).le
  · rw [Matching.sum_qty_trades]
    simp only
    omega
  · rintro rfl
    rw [hfees]
    simp only [spentOf] at hspent
    simp only
    omega

/-- What an order gets back, it had before. -/
theorem refund_room {msg : OrderMsg} {resting : Option Order} {settled : Settlement} {refund : Nat}
    (hlock : Moves s s₁ (lockPostings msg.userId (funds side asset) lock))
    (hcleared : Cleared (s₁.issued asset (m.book.restAll resting)) asset side
      (Matching.trades ⟨s.nextOrderId, msg.userId, side⟩ fs) resting settled)
    (hroom : s.Room (journal s.feeSchedule asset
      (Matching.trades ⟨s.nextOrderId, msg.userId, side⟩ fs)) ⟨msg.userId, funds side asset, false⟩)
    (hle : refund ≤ lock) :
    settled.state.holding ⟨msg.userId, funds side asset, false⟩ + refund < 2 ^ 64 := by
  have hfees : (s₁.issued asset (m.book.restAll resting)).feeSchedule = s.feeSchedule := by
    simp [issued, hlock.venue.feeSchedule]
  have hpays := (hlock.toPays.trans (pays_issued s₁ asset _)).trans hcleared.moves.toPays
  have hposts := hpays.posts ⟨msg.userId, funds side asset, false⟩
  have hnet : net (· = ⟨msg.userId, funds side asset, false⟩)
      (lockPostings msg.userId (funds side asset) lock) = -(lock : Int) := by
    simp [lockPostings]
  rw [net_append, net_append, hnet, net_nil, hfees] at hposts
  unfold Room at hroom
  omega

end Settle

/-! ### Bounds on an order -/

section Bounds

variable (builtins : Builtins) (s : EngineState) (msg : OrderMsg) (asset : Asset) (side : Side)

def orderTrades : List Trade :=
  Matching.trades ⟨s.nextOrderId, msg.userId, side⟩ (Orderbook.takes msg.timeInForce
    msg.qty.toInt.toNat (crossedOrders builtins s msg asset side))

/-- The bounds within which an order can be handled: its price times its quantity, or the cost it is
quoted, with the fees on it; and, if it is let through, its id, the locked funds of its owner, the
accounts that its trades credit, and the level at which its remainder rests. -/
structure OrderFits : Prop where
  limit : msg.orderType = .limit → 0 < msg.price.toInt → s.feeSchedule.Sized (limitCost msg)
  quote : msg.orderType = .market → side = .bid → marketCost builtins s msg asset < 2 ^ 64
  reserve : msg.orderType = .market → side = .bid → ¬ FallsShort builtins s msg asset side →
    marketCost builtins s msg asset * s.feeSchedule.takerFeeBps < 2 ^ 64 ∧
      orderLock builtins s msg asset side < 2 ^ 64
  counter : Admitted builtins s msg asset side → s.nextOrderId + 1 < 2 ^ 64
  lock : Admitted builtins s msg asset side → s.holding ⟨msg.userId, funds side asset, true⟩
    + orderLock builtins s msg asset side < 2 ^ 64
  trades : Admitted builtins s msg asset side →
    s.Absorbs (journal s.feeSchedule asset (orderTrades builtins s msg asset side))
  owner : Admitted builtins s msg asset side →
    s.Room (journal s.feeSchedule asset (orderTrades builtins s msg asset side))
      ⟨msg.userId, funds side asset, false⟩
  level : Admitted builtins s msg asset side → msg.orderType = .limit → msg.timeInForce = .gtc →
    Matching.weigh (Orderbook.levelWeight side msg.price.toInt.toNat) (s.book asset)
      + Greedy.unfilled Order.remainingQty msg.qty.toInt.toNat
        (crossedOrders builtins s msg asset side) < 2 ^ 64

end Bounds

/-! ### Limit orders -/

theorem neededLocked_fits {fees : FeeSchedule} {resting : Option Order}
    (h : ∀ o, resting = some o → fees.Sized o.cost) :
    Fits (neededLocked (u64 true) fees (resting.map Orderbook.accepted)) := by
  cases resting with
  | none => exact fits_ok _
  | some o =>
      have hsized := h o rfl
      have hmul : (u64 true).mul o.price o.remainingQty = .ok o.cost := u64_mul hsized.lt
      have hsum : o.cost + fees.makerFee o.cost < 2 ^ 64 :=
        lt_of_le_of_lt (Nat.add_le_add_left (makerFee_le fees _) _) hsized.sum
      simp only [neededLocked, Option.map_some, Orderbook.accepted]
      rw [hmul, ok_bind, calcMakerFee_eq hsized.maker, ok_bind]
      exact fits_add hsum

theorem placeLimit_eq (s : EngineState) (msg : OrderMsg) (asset : Asset)
    (hv : (s.book asset).Valid) (hid : s.nextOrderId + 1 < 2 ^ 64) (side : Side) {price qty : Nat}
    (hprice : 0 < price) (hqty : 0 < qty) (hword : qty < 2 ^ 63)
    (hsized : (s.book asset).Sized s.feeSchedule) (lock : Nat) :
    ∃ fs m, (s.book asset).Took ⟨s.nextOrderId, msg.userId, side⟩ (Orderbook.pastLimit side price)
        qty fs m ∧
      fs = Orderbook.takes msg.timeInForce qty (Matching.reach ⟨s.nextOrderId, msg.userId, side⟩
        (Orderbook.pastLimit side price) (s.book asset)) ∧
      ∀ resting, resting
          = Orderbook.remainder ⟨s.nextOrderId, msg.userId, side⟩ price msg.timeInForce m →
        placeLimit (u64 true) s msg asset side price qty lock
          = settleResults (u64 true) (s.issued asset (m.book.restAll resting)) asset side
              (Orderbook.outcome m.results resting) >>= reconcile (u64 true) msg asset side qty lock := by
  have hspec := Orderbook.addOrderWithId_spec (A := u64 true) hv s.nextOrderId msg.userId side hid
    hprice hqty msg.timeInForce
  obtain ⟨_, hrun, found, fs, m, hfound, htook, hstopped, hkilled, rfl⟩ := hspec.ok_of_fits
    (Orderbook.addOrderWithId_fits hv hid msg.userId side hprice hqty hword
      (fun id o hget => (hsized id o hget).1) msg.timeInForce)
  refine ⟨fs, m, htook, took_takes hv htook ?_ hfound.2 hstopped hkilled, ?_⟩
  · intro hfok
    have hdecided := (Orderbook.canFillQuantity_spec (hv.issue s.nextOrderId)
      ⟨s.nextOrderId, msg.userId, side⟩ price hqty).of_ok (hfound.1 hfok)
    simpa using hdecided
  · rintro resting rfl
    unfold placeLimit
    rw [drawOrderId_of_lt _ s hid, ok_bind]
    dsimp only
    rw [book_nextOrderId, hrun]
    rfl

theorem placeLimit_fits (side : Side) {s s₁ : EngineState} {msg : OrderMsg} {asset : Asset}
    {lock price qty : Nat} (hcov : s.Covered) (hv : (s.book asset).Valid)
    (hid : s.nextOrderId + 1 < 2 ^ 64) (hprice : 0 < price) (hqty : 0 < qty) (hword : qty < 2 ^ 63)
    (hsized : (s.book asset).Sized s.feeSchedule)
    (hcost : s.feeSchedule.Sized (price * qty))
    (hlock : Moves s s₁ (lockPostings msg.userId (funds side asset) (stake side lock qty)))
    (henough : side = .bid → lock = price * qty + s.feeSchedule.maxFee (price * qty))
    {ts : List Trade} (hts : ts = Matching.trades ⟨s.nextOrderId, msg.userId, side⟩
      (Orderbook.takes msg.timeInForce qty (Matching.reach ⟨s.nextOrderId, msg.userId, side⟩
        (Orderbook.pastLimit side price) (s.book asset))))
    (habsorbs : s.Absorbs (journal s.feeSchedule asset ts))
    (hroom : s.Room (journal s.feeSchedule asset ts) ⟨msg.userId, funds side asset, false⟩) :
    Fits (placeLimit (u64 true) s₁ msg asset side price qty lock) := by
  have hbook := hlock.venue.book asset
  have hnext := hlock.venue.nextOrderId
  have hfees₁ := hlock.venue.feeSchedule
  obtain ⟨fs, m, htook, hfs, hrun⟩ := placeLimit_eq s₁ msg asset (hbook.symm ▸ hv)
    (hnext.symm ▸ hid) side hprice hqty hword (hfees₁.symm ▸ hbook.symm ▸ hsized) lock
  rw [hbook, hnext] at htook hfs
  rw [hnext] at hrun
  rw [hrun _ rfl]
  subst hts
  rw [← hfs] at habsorbs hroom
  have hqty64 : qty < 2 ^ 64 := by omega
  cases side with
  | bid =>
      have hreserve := limit_reserve hv s.feeSchedule msg.timeInForce htook
      have hcover := henough rfl
      have hlock64 : lock < 2 ^ 64 := hcover ▸ hcost.sum
      have hspent : spentOf s.feeSchedule .bid (Matching.trades ⟨s.nextOrderId, msg.userId, .bid⟩ fs)
          ≤ stake .bid lock qty := by
        simp only [stake]
        omega
      apply (settle_spec hcov hv hlock htook hspent _).fits_bind
        (settle_fits hcov hv hlock htook hspent _ hsized habsorbs hqty64 hlock64)
      intro settled hcleared
      have hfees : settled.state.feeSchedule = s.feeSchedule := by
        rw [hcleared.moves.venue.feeSchedule]
        simp [issued, hlock.venue.feeSchedule]
      have hneeded : Fits (neededLocked (u64 true) settled.state.feeSchedule settled.resting) := by
        rw [hcleared.resting, hfees]
        apply neededLocked_fits
        intro o ho
        unfold Orderbook.remainder at ho
        split at ho
        · cases ho
          have hremaining := htook.fills.remaining
          simp only at hremaining
          apply hcost.mono
          exact Nat.mul_le_mul_left price (by simp only [Orderbook.leftover]; omega)
        · cases ho
      apply hneeded.bind
      intro needed _
      apply Fits.bind (refundUsd_fits settled.state msg.userId _) fun _ _ => fits_ok _
      apply refund_room hlock hcleared hroom
      simp only [stake]
      omega
  | ask =>
      have hbalanced := ask_balanced price s.feeSchedule msg.timeInForce htook
      have hspent : spentOf s.feeSchedule .ask (Matching.trades ⟨s.nextOrderId, msg.userId, .ask⟩ fs)
          ≤ stake .ask lock qty := by
        simp only [stake]
        omega
      apply (settle_spec hcov hv hlock htook hspent _).fits_bind
        (settle_fits hcov hv hlock htook hspent _ hsized habsorbs hqty64 hqty64)
      intro settled hcleared
      have hfilled := hcleared.filledQty
      rw [Matching.sum_qty_trades] at hfilled
      have hremaining := htook.fills.remaining
      simp only at hremaining
      simp only [reconcile]
      rw [(u64 true).sub_of_le (by omega), ok_bind]
      apply Fits.bind (refundAsset_fits settled.state msg.userId asset _) fun _ _ => fits_ok _
      apply refund_room hlock hcleared hroom
      simp only [stake]
      split <;> omega

/-! ### Orders of every kind -/

section Orders

variable (s : EngineState) (builtins : Builtins) (msg : OrderMsg) (asset : Asset) (hcov : s.Covered)
  (hv : s.Valid) (hsized : ∀ asset, (s.book asset).Sized s.feeSchedule) (hqty : 0 < msg.qty.toInt)

include hcov hv hsized hqty

omit hcov hv hsized in
theorem qty_bounds : 0 < msg.qty.toInt.toNat ∧ msg.qty.toInt.toNat < 2 ^ 63 := by
  have hlt := msg.qty.toInt_lt
  omega

theorem handleLimit_fits (hlimit : msg.orderType = .limit) (side : Side)
    (hasset : Asset.ofString? msg.asset = some asset) (hside : Side.ofString? msg.side = some side)
    (hfits : OrderFits builtins s msg asset side) :
    Fits (handleLimit (u64 true) s msg asset side msg.qty.toInt.toNat) := by
  obtain ⟨hpos, hword⟩ := qty_bounds msg hqty
  unfold handleLimit
  split
  · exact fits_ok _
  · next hprice =>
    have hprice : 0 < msg.price.toInt := by omega
    have hprice' : 0 < msg.price.toInt.toNat := by omega
    have hcost := hfits.limit hlimit hprice
    have hmul : (u64 true).mul msg.price.toInt.toNat msg.qty.toInt.toNat = .ok (limitCost msg) :=
      u64_mul hcost.lt
    have hsum : (u64 true).add (limitCost msg)
        (limitCost msg * max s.feeSchedule.takerFeeBps s.feeSchedule.makerFeeBps / 10000)
        = .ok (limitCost msg + s.feeSchedule.maxFee (limitCost msg)) := u64_add hcost.sum
    dsimp only
    rw [hmul, ok_bind, u64_mul hcost.product, ok_bind, hsum, ok_bind]
    have hadmits : orderLock builtins s msg asset side
        ≤ s.holding ⟨msg.userId, funds side asset, false⟩ → Admitted builtins s msg asset side :=
      fun h => ⟨⟨hasset, hside, hqty, fun _ => hprice⟩, by simp [hlimit], by simp [hlimit], h⟩
    have htrades : orderTrades builtins s msg asset side
        = Matching.trades ⟨s.nextOrderId, msg.userId, side⟩ (Orderbook.takes msg.timeInForce
          msg.qty.toInt.toNat (Matching.reach ⟨s.nextOrderId, msg.userId, side⟩
            (Orderbook.pastLimit side msg.price.toInt.toNat) (s.book asset))) := by
      simp [orderTrades, crossedOrders, orderPast, hlimit]
    cases side with
    | bid =>
        have hlock : orderLock builtins s msg asset .bid
            = limitCost msg + s.feeSchedule.maxFee (limitCost msg) := by
          simp [orderLock, hlimit]
        have hlocked := fun h => hfits.lock (hadmits h)
        rw [hlock] at hlocked hadmits
        apply (lockUsd_spec s _ _).fits_bind (lockUsd_fits s _ hlocked)
        rintro ⟨s₁, enough⟩ ⟨h₁, hafforded⟩
        cases enough with
        | false => exact fits_ok _
        | true =>
            have hadmitted := hadmits (hafforded.mp rfl)
            exact Fits.bind (placeLimit_fits .bid hcov (hv.book asset)
              (hfits.counter hadmitted) hprice' hpos hword (hsized asset) hcost h₁ (fun _ => rfl)
              htrades (hfits.trades hadmitted)
              (hfits.owner hadmitted)) fun _ _ => fits_ok _
    | ask =>
        have hlock : orderLock builtins s msg asset .ask = msg.qty.toInt.toNat := rfl
        have hlocked := fun h => hfits.lock (hadmits h)
        rw [hlock] at hlocked hadmits
        apply (lockAsset_spec s _ asset _).fits_bind (lockAsset_fits s _ asset hlocked)
        rintro ⟨s₁, enough⟩ ⟨h₁, hafforded⟩
        cases enough with
        | false => exact fits_ok _
        | true =>
            have hadmitted := hadmits (hafforded.mp rfl)
            exact Fits.bind (placeLimit_fits .ask hcov (hv.book asset)
              (hfits.counter hadmitted) hprice' hpos hword (hsized asset) hcost h₁ (fun h => by cases h)
              htrades (hfits.trades hadmitted)
              (hfits.owner hadmitted)) fun _ _ => fits_ok _

omit hcov hsized in
/-- A market order that is not killed makes the greedy trades. -/
theorem placeMarket_trades (hmarket : msg.orderType = .market) (hid : s.nextOrderId + 1 < 2 ^ 64)
    (side : Side) {s₁ : EngineState} (hvenue : SameVenue s s₁)
    (hshort : ¬ FallsShort builtins s msg asset side) :
    ∃ fs m, (s.book asset).Took ⟨s.nextOrderId, msg.userId, side⟩
        (orderPast builtins s msg asset side) msg.qty.toInt.toNat fs m ∧
      orderTrades builtins s msg asset side
        = Matching.trades ⟨s.nextOrderId, msg.userId, side⟩ fs ∧
      fs = Greedy.fills Order.remainingQty msg.qty.toInt.toNat
        (crossedOrders builtins s msg asset side) ∧
      placeMarket (u64 true) s₁ msg asset side msg.qty.toInt.toNat
          (worstPrice builtins msg ((s.book asset).best side.opposite))
        = settleResults (u64 true) (s₁.issued asset (m.book.restAll none)) asset side
            (Orderbook.outcome m.results none) := by
  have hbook := hvenue.book asset
  have hnext := hvenue.nextOrderId
  obtain ⟨fs, m, htook, _, hgreedy, hrun⟩ := placeMarket_eq (u64 true) s₁ msg asset
    (hbook.symm ▸ hv.book asset) (hnext.symm ▸ hid) side (qty_bounds msg hqty).1
    (worstPrice builtins msg ((s.book asset).best side.opposite))
  have hpast : orderPast builtins s msg asset side = Orderbook.pastWorst side
      (worstPrice builtins msg ((s.book asset).best side.opposite)) := by
    simp [orderPast, hmarket]
  rw [hbook, hnext, ← hpast] at htook hgreedy
  refine ⟨fs, m, htook, ?_, hgreedy, hrun⟩
  rw [orderTrades, ← market_takes s builtins msg asset hshort hgreedy]

theorem handleMarketSell_fits (hmarket : msg.orderType = .market) (hform : WellFormed msg asset .ask)
    (hfits : OrderFits builtins s msg asset .ask) :
    Fits (handleMarketSell (u64 true) s builtins msg asset msg.qty.toInt.toNat) := by
  obtain ⟨hpos, hword⟩ := qty_bounds msg hqty
  have hqty64 : msg.qty.toInt.toNat < 2 ^ 64 := by omega
  have hfillable : Fits (fillableForSell (u64 true) (s.book asset) msg.timeInForce
      msg.qty.toInt.toNat (worstPrice builtins msg (s.book asset).bestBid)) := by
    unfold fillableForSell
    split
    · exact Orderbook.fillableQtyForMarketSell_fits (hv.book asset) hpos hqty64 _
    · exact fits_ok _
  unfold handleMarketSell
  apply (fillableForSell_spec s builtins msg asset hv hmarket hpos).fits_bind hfillable
  intro fillable hdecided
  split
  · exact fits_ok _
  · next hle =>
    have hshort := fun h => hle (hdecided.mpr h)
    have hadmits : msg.qty.toInt.toNat ≤ s.holding ⟨msg.userId, .stock asset.symbol, false⟩ →
        Admitted builtins s msg asset .ask := fun h => ⟨hform, fun _ => hshort, by simp, h⟩
    apply (lockAsset_spec s _ asset _).fits_bind
      (lockAsset_fits s _ asset fun h => hfits.lock (hadmits h))
    rintro ⟨s₁, enough⟩ ⟨h₁, hafforded⟩
    cases enough with
    | false => exact fits_ok _
    | true =>
        have hadmitted := hadmits (hafforded.mp rfl)
        have hlock : Moves s s₁ (lockPostings msg.userId (funds .ask asset) msg.qty.toInt.toNat) := h₁
        obtain ⟨fs, m, htook, htrades, _, hplace⟩ := placeMarket_trades s builtins msg asset hv hqty
          hmarket (hfits.counter hadmitted) .ask h₁.venue hshort
        have habsorbs := hfits.trades hadmitted
        have hroom := hfits.owner hadmitted
        rw [htrades] at habsorbs hroom
        have hremaining := htook.fills.remaining
        simp only at hremaining
        have hspent : spentOf s.feeSchedule .ask
            (Matching.trades ⟨s.nextOrderId, msg.userId, .ask⟩ fs) ≤ msg.qty.toInt.toNat := by
          rw [spentOf, Matching.sum_qty_trades]
          omega
        dsimp only
        rw [if_neg (by simp)]
        change Fits (placeMarket (u64 true) s₁ msg asset .ask msg.qty.toInt.toNat
          (worstPrice builtins msg ((s.book asset).best Side.ask.opposite)) >>= _)
        rw [hplace]
        apply (settle_spec hcov (hv.book asset) hlock htook hspent none).fits_bind
          (settle_fits hcov (hv.book asset) hlock htook hspent none (hsized asset) habsorbs hqty64
            hqty64)
        intro settled hcleared
        have hfilled := hcleared.filledQty
        rw [Matching.sum_qty_trades] at hfilled
        rw [(u64 true).sub_of_le (by omega), ok_bind]
        apply Fits.bind (refundAsset_fits settled.state msg.userId asset _) fun _ _ => fits_ok _
        exact refund_room hlock hcleared hroom (Nat.sub_le ..)

theorem handleMarketBuy_fits (hmarket : msg.orderType = .market) (hform : WellFormed msg asset .bid)
    (hfits : OrderFits builtins s msg asset .bid) :
    Fits (handleMarketBuy (u64 true) s builtins msg asset msg.qty.toInt.toNat) := by
  obtain ⟨hpos, hword⟩ := qty_bounds msg hqty
  have hqty64 : msg.qty.toInt.toNat < 2 ^ 64 := by omega
  have hpast : orderPast builtins s msg asset .bid = Orderbook.pastWorst .bid
      (worstPrice builtins msg (s.book asset).bestAsk) := by
    simp [orderPast, hmarket, Orderbook.best, Side.opposite]
  have hquoted := hfits.quote hmarket rfl
  rw [marketCost, crossedOrders, hpast] at hquoted
  have hquote := Orderbook.quoteCostForMarketBuy_fits (hv.book asset) hpos hqty64 _
    ⟨s.nextOrderId, msg.userId, .bid⟩ rfl hquoted
  unfold handleMarketBuy
  apply (quote_spec s builtins msg asset hv hmarket hpos).fits_bind hquote
  rintro _ rfl
  dsimp only
  split
  · exact fits_ok _
  · next hfound =>
    split
    · exact fits_ok _
    · next hliquid =>
      have hshort : ¬ FallsShort builtins s msg asset .bid := by
        rintro ⟨hfok, hlt⟩
        exact hfound ⟨hfok, by omega⟩
      obtain ⟨hproduct, hsum⟩ := hfits.reserve hmarket rfl hshort
      have hlock : orderLock builtins s msg asset .bid = marketCost builtins s msg asset
          + s.feeSchedule.takerFee (marketCost builtins s msg asset) := by
        simp [orderLock, hmarket]
      have hadmits : orderLock builtins s msg asset .bid ≤ s.holding ⟨msg.userId, .usd, false⟩ →
          Admitted builtins s msg asset .bid :=
        fun h => ⟨hform, fun _ => hshort, fun _ _ => by omega, h⟩
      have hlocked := fun h => hfits.lock (hadmits h)
      rw [hlock] at hsum hlocked hadmits
      rw [calcTakerFee_eq hproduct, ok_bind, u64_add hsum, ok_bind]
      apply (lockUsd_spec s _ _).fits_bind (lockUsd_fits s _ hlocked)
      rintro ⟨s₁, enough⟩ ⟨h₁, hafforded⟩
      cases enough with
      | false => exact fits_ok _
      | true =>
          have hadmitted := hadmits (hafforded.mp rfl)
          obtain ⟨fs, m, htook, htrades, hgreedy, hplace⟩ := placeMarket_trades s builtins msg asset
            hv hqty hmarket (hfits.counter hadmitted) .bid h₁.venue hshort
          have habsorbs := hfits.trades hadmitted
          have hroom := hfits.owner hadmitted
          rw [htrades] at habsorbs hroom
          have hmoves : Moves s s₁ (lockPostings msg.userId (funds .bid asset)
            (marketCost builtins s msg asset
              + s.feeSchedule.takerFee (marketCost builtins s msg asset))) := h₁
          have hspent : spentOf s.feeSchedule .bid
              (Matching.trades ⟨s.nextOrderId, msg.userId, .bid⟩ fs)
              ≤ marketCost builtins s msg asset
                + s.feeSchedule.takerFee (marketCost builtins s msg asset) := by
            rw [marketCost, ← hgreedy]
            exact spentOf_bid_le s.feeSchedule fs
          dsimp only
          rw [if_neg (by simp)]
          change Fits (placeMarket (u64 true) s₁ msg asset .bid msg.qty.toInt.toNat
            (worstPrice builtins msg ((s.book asset).best Side.bid.opposite)) >>= _)
          rw [hplace]
          apply (settle_spec hcov (hv.book asset) hmoves htook hspent none).fits_bind
            (settle_fits hcov (hv.book asset) hmoves htook hspent none (hsized asset) habsorbs hqty64
              hsum)
          intro settled hcleared
          apply Fits.bind (refundUsd_fits settled.state msg.userId _) fun _ _ => fits_ok _
          exact refund_room hmoves hcleared hroom (Nat.sub_le ..)

end Orders

theorem judgeOrder_fits (s : EngineState) (builtins : Builtins) (msg : OrderMsg) (hcov : s.Covered)
    (hv : s.Valid) (hsized : ∀ asset, (s.book asset).Sized s.feeSchedule)
    (hfits : ∀ asset side, Asset.ofString? msg.asset = some asset →
      Side.ofString? msg.side = some side → 0 < msg.qty.toInt →
      OrderFits builtins s msg asset side) : Fits (judgeOrder (u64 true) s builtins msg) := by
  unfold judgeOrder
  cases hasset : Asset.ofString? msg.asset with
  | none => exact fits_ok _
  | some asset =>
      cases hside : Side.ofString? msg.side with
      | none => exact fits_ok _
      | some side =>
          dsimp only
          split
          · exact fits_ok _
          · next hqty =>
            have hqty : 0 < msg.qty.toInt := by omega
            have hfits := hfits asset side hasset hside hqty
            cases htype : msg.orderType with
            | limit =>
                exact handleLimit_fits s builtins msg asset hcov hv hsized hqty htype side hasset hside
                  hfits
            | market =>
                have hform : WellFormed msg asset side := ⟨hasset, hside, hqty, by simp [htype]⟩
                cases side with
                | ask =>
                    exact handleMarketSell_fits s builtins msg asset hcov hv hsized hqty htype hform hfits
                | bid =>
                    exact handleMarketBuy_fits s builtins msg asset hcov hv hsized hqty htype hform hfits

end CexRs
