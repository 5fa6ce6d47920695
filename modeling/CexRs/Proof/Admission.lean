import CexRs.Proof.Placing

/-!
# Orders that reach the book

Which orders pass the tests that come before the book is called, in any build, and what the call then
returns. The tests read the message and the state as it was.
-/

namespace CexRs

open FixedWidth OrderedMap EngineState

/-! ### The tests -/

section Passes

variable (A : Arith) (builtins : Builtins) (s : EngineState) (msg : OrderMsg) (asset : Asset)
  (side : Side)

def lockAmount : Except Fault Nat :=
  match side, msg.orderType with
  | .bid, .limit => do
      let cost ← A.mul msg.price.toInt.toNat msg.qty.toInt.toNat
      let product ← A.mul cost (max s.feeSchedule.takerFeeBps s.feeSchedule.makerFeeBps)
      A.add cost (product / 10000)
  | .bid, .market => do
      let (requiredUsd, _) ← (s.book asset).quoteCostForMarketBuy A msg.qty.toInt.toNat
        (worstPrice builtins msg (s.book asset).bestAsk)
      A.add requiredUsd (← s.feeSchedule.calcTakerFee A requiredUsd)
  | .ask, _ => pure msg.qty.toInt.toNat

structure Passes : Prop where
  wellFormed : WellFormed msg asset side
  found : msg.orderType = .market → msg.timeInForce = .fok →
    foundEnough A builtins s msg asset side = .ok true
  liquid : msg.orderType = .market → side = .bid → ∃ cost qty, 0 < qty ∧
    (s.book asset).quoteCostForMarketBuy A msg.qty.toInt.toNat
      (worstPrice builtins msg (s.book asset).bestAsk) = .ok (cost, qty)
  afforded : ∃ amount, lockAmount A builtins s msg asset side = .ok amount ∧
    amount ≤ s.holding ⟨msg.userId, funds side asset, false⟩

end Passes

section Sorted

variable {A : Arith} {builtins : Builtins} {s : EngineState} {msg : OrderMsg} {asset : Asset}
  {side : Side} {verdict : Verdict}

theorem lockUsd_enough {user amount : Nat} {s₁ : EngineState} {enough : Bool}
    (h : lockUsd A s user amount = .ok (s₁, enough)) :
    enough = true ↔ amount ≤ s.holding ⟨user, .usd, false⟩ := by
  unfold lockUsd at h
  obtain ⟨s₀, htouch, h⟩ := bind_ok h
  have htouch : s.balanceMut user .usd pure = .ok s₀ := htouch
  have hholding := ((touch_moves s user .usd).of_ok htouch).toPays.holding_eq ⟨user, .usd, false⟩
  rw [← hholding]
  have havailable : s₀.holding ⟨user, .usd, false⟩ = (s₀.usd user).available := rfl
  split at h
  · next hlt =>
    cases h
    simp only [Bool.false_eq_true, false_iff]
    omega
  · next hle =>
    obtain ⟨s₂, _, h⟩ := bind_ok h
    cases h
    simp only [true_iff]
    omega

theorem lockAsset_enough {user amount : Nat} {s₁ : EngineState} {enough : Bool}
    (h : lockAsset A s user asset amount = .ok (s₁, enough)) :
    enough = true ↔ amount ≤ s.holding ⟨user, .stock asset.symbol, false⟩ := by
  unfold lockAsset at h
  obtain ⟨s₀, htouch, h⟩ := bind_ok h
  have htouch : s.balanceMut user (.stock asset.symbol) pure = .ok s₀ := htouch
  have hholding := ((touch_moves s user (.stock asset.symbol)).of_ok htouch).toPays.holding_eq
    ⟨user, .stock asset.symbol, false⟩
  rw [← hholding]
  have havailable : s₀.holding ⟨user, .stock asset.symbol, false⟩
      = (s₀.asset user asset).available := rfl
  split at h
  · next hlt =>
    cases h
    simp only [Bool.false_eq_true, false_iff]
    omega
  · next hle =>
    obtain ⟨s₂, _, h⟩ := bind_ok h
    cases h
    simp only [true_iff]
    omega

def Sorted (A : Arith) (builtins : Builtins) (s : EngineState) (msg : OrderMsg) (asset : Asset)
    (side : Side) : Verdict → Prop
  | .placed _ => Passes A builtins s msg asset side
  | .refused _ _ => ¬ Passes A builtins s msg asset side

/-- An order that is found and liquid passes if its sender can afford it. -/
theorem passes_iff (hform : WellFormed msg asset side)
    (hfound : msg.orderType = .market → msg.timeInForce = .fok →
      foundEnough A builtins s msg asset side = .ok true)
    (hliquid : msg.orderType = .market → side = .bid → ∃ cost qty, 0 < qty ∧
      (s.book asset).quoteCostForMarketBuy A msg.qty.toInt.toNat
        (worstPrice builtins msg (s.book asset).bestAsk) = .ok (cost, qty))
    {amount : Nat} (hamount : lockAmount A builtins s msg asset side = .ok amount) :
    Passes A builtins s msg asset side ↔
      amount ≤ s.holding ⟨msg.userId, funds side asset, false⟩ := by
  constructor
  · rintro ⟨_, _, _, amount', hamount', hle⟩
    rw [hamount] at hamount'
    cases hamount'
    exact hle
  · intro hle
    exact ⟨hform, hfound, hliquid, amount, hamount, hle⟩

theorem handleLimit_sorted (hlimit : msg.orderType = .limit)
    (hasset : Asset.ofString? msg.asset = some asset) (hside : Side.ofString? msg.side = some side)
    (hqty : 0 < msg.qty.toInt)
    (h : handleLimit A s msg asset side msg.qty.toInt.toNat = .ok verdict) :
    Sorted A builtins s msg asset side verdict := by
  unfold handleLimit at h
  split at h
  · next hprice =>
    cases h
    intro hpasses
    have hpriced := hpasses.wellFormed.priced hlimit
    omega
  · next hprice =>
    obtain ⟨cost, hcost, h⟩ := bind_ok h
    obtain ⟨product, hproduct, h⟩ := bind_ok h
    obtain ⟨total, htotal, h⟩ := bind_ok h
    have hform : WellFormed msg asset side := ⟨hasset, hside, hqty, fun _ => by omega⟩
    have hfunds : ∀ {amount}, lockAmount A builtins s msg asset side = .ok amount →
        (Passes A builtins s msg asset side ↔
          amount ≤ s.holding ⟨msg.userId, funds side asset, false⟩) :=
      passes_iff hform (by simp [hlimit]) (by simp [hlimit])
    cases side with
    | bid =>
        obtain ⟨⟨s₁, enough⟩, hlock, h⟩ := bind_ok h
        have henough := lockUsd_enough hlock
        have hamount : lockAmount A builtins s msg asset .bid = .ok total := by
          simp only [lockAmount, hlimit]
          rw [hcost, ok_bind, hproduct, ok_bind]
          exact htotal
        cases enough with
        | false =>
            cases h
            exact fun hpasses => Bool.false_ne_true (henough.mpr ((hfunds hamount).mp hpasses))
        | true =>
            obtain ⟨p, _, h⟩ := bind_ok h
            cases h
            exact (hfunds hamount).mpr (henough.mp rfl)
    | ask =>
        obtain ⟨⟨s₁, enough⟩, hlock, h⟩ := bind_ok h
        have henough := lockAsset_enough hlock
        have hamount : lockAmount A builtins s msg asset .ask = .ok msg.qty.toInt.toNat := rfl
        cases enough with
        | false =>
            cases h
            exact fun hpasses => Bool.false_ne_true (henough.mpr ((hfunds hamount).mp hpasses))
        | true =>
            obtain ⟨p, _, h⟩ := bind_ok h
            cases h
            exact (hfunds hamount).mpr (henough.mp rfl)

theorem handleMarketSell_sorted (hmarket : msg.orderType = .market)
    (hform : WellFormed msg asset .ask)
    (h : handleMarketSell A s builtins msg asset msg.qty.toInt.toNat = .ok verdict) :
    Sorted A builtins s msg asset .ask verdict := by
  unfold handleMarketSell at h
  obtain ⟨fillable, hfillable, h⟩ := bind_ok h
  have hfound : msg.timeInForce = .fok → foundEnough A builtins s msg asset .ask
      = .ok (decide (msg.qty.toInt.toNat ≤ fillable)) := by
    intro hfok
    simp only [fillableForSell, if_pos hfok] at hfillable
    simp only [foundEnough, hmarket]
    rw [hfillable]
    rfl
  split at h
  · next hshort =>
    cases h
    have hfok : msg.timeInForce = .fok := by
      by_contra hfok
      simp only [fillableForSell, if_neg hfok] at hfillable
      cases hfillable
      exact Nat.lt_irrefl _ hshort
    intro hpasses
    have hyes := (hfound hfok).symm.trans (hpasses.found hmarket hfok)
    simp only [Except.ok.injEq, decide_eq_true_eq] at hyes
    omega
  · next henough =>
    obtain ⟨⟨s₁, enough⟩, hlock, h⟩ := bind_ok h
    have hafforded := lockAsset_enough hlock
    have hfunds := passes_iff hform (fun _ hfok => by rw [hfound hfok, decide_eq_true (by omega)])
      (by simp) (show lockAmount A builtins s msg asset .ask = .ok msg.qty.toInt.toNat from rfl)
    cases enough with
    | false =>
        cases h
        exact fun hpasses => Bool.false_ne_true (hafforded.mpr (hfunds.mp hpasses))
    | true =>
        obtain ⟨settled, _, h⟩ := bind_ok h
        obtain ⟨unfilled, _, h⟩ := bind_ok h
        obtain ⟨state, _, h⟩ := bind_ok h
        cases h
        exact hfunds.mpr (hafforded.mp rfl)

theorem handleMarketBuy_sorted (hmarket : msg.orderType = .market)
    (hform : WellFormed msg asset .bid)
    (h : handleMarketBuy A s builtins msg asset msg.qty.toInt.toNat = .ok verdict) :
    Sorted A builtins s msg asset .bid verdict := by
  unfold handleMarketBuy at h
  obtain ⟨⟨requiredUsd, fillableQty⟩, hquote, h⟩ := bind_ok h
  have hfound : foundEnough A builtins s msg asset .bid
      = .ok (decide (msg.qty.toInt.toNat ≤ fillableQty)) := by
    simp only [foundEnough, hmarket]
    rw [hquote]
    rfl
  dsimp only at h
  split at h
  · next hshort =>
    cases h
    intro hpasses
    have hyes := hfound.symm.trans (hpasses.found hmarket hshort.1)
    simp only [Except.ok.injEq, decide_eq_true_eq] at hyes
    omega
  · next henough =>
    split at h
    · next hzero =>
      cases h
      intro hpasses
      obtain ⟨_, qty, hpos, hquote'⟩ := hpasses.liquid hmarket rfl
      rw [hquote] at hquote'
      cases hquote'
      omega
    · next hliquid =>
      obtain ⟨fee, hfee, h⟩ := bind_ok h
      obtain ⟨total, htotal, h⟩ := bind_ok h
      obtain ⟨⟨s₁, enough⟩, hlock, h⟩ := bind_ok h
      have hafforded := lockUsd_enough hlock
      have hamount : lockAmount A builtins s msg asset .bid = .ok total := by
        simp only [lockAmount, hmarket]
        rw [hquote, ok_bind]
        dsimp only
        rw [hfee, ok_bind]
        exact htotal
      have hyes : msg.timeInForce = .fok →
          foundEnough A builtins s msg asset .bid = .ok true := by
        intro hfok
        rw [hfound, decide_eq_true]
        by_contra hlt
        exact henough ⟨hfok, by omega⟩
      have hfunds := passes_iff hform (fun _ => hyes)
        (fun _ _ => ⟨requiredUsd, fillableQty, by omega, hquote⟩) hamount
      cases enough with
      | false =>
          cases h
          exact fun hpasses => Bool.false_ne_true (hafforded.mpr (hfunds.mp hpasses))
      | true =>
          obtain ⟨settled, _, h⟩ := bind_ok h
          obtain ⟨state, _, h⟩ := bind_ok h
          cases h
          exact hfunds.mpr (hafforded.mp rfl)

/-- In any build, an order that can be read is placed exactly if it passes the tests. -/
theorem judgeOrder_sorted (hform : WellFormed msg asset side)
    (h : judgeOrder A s builtins msg = .ok verdict) : Sorted A builtins s msg asset side verdict := by
  have hpositive := hform.positive
  unfold judgeOrder at h
  rw [hform.asset, hform.side] at h
  dsimp only at h
  rw [if_neg (by omega)] at h
  cases htype : msg.orderType with
  | limit =>
      rw [htype] at h
      exact handleLimit_sorted htype hform.asset hform.side hform.positive h
  | market =>
      rw [htype] at h
      cases side with
      | ask => exact handleMarketSell_sorted htype hform h
      | bid => exact handleMarketBuy_sorted htype hform h

end Sorted

/-! ### The book call -/

def bookCall (A : Arith) (builtins : Builtins) (s : EngineState) (msg : OrderMsg) (asset : Asset)
    (side : Side) : Except Fault (Orderbook × Except OrderbookError (List MatchResult)) :=
  match msg.orderType with
  | .limit => (s.book asset).addOrderWithId A s.nextOrderId msg.userId side msg.price.toInt.toNat
      msg.qty.toInt.toNat msg.timeInForce
  | .market => (s.book asset).executeMarketOrderWithId A s.nextOrderId msg.userId side
      msg.qty.toInt.toNat (worstPrice builtins msg ((s.book asset).best side.opposite))

section Enters

variable {A : Arith} {builtins : Builtins} {s : EngineState} {msg : OrderMsg} {side : Side}
  {found : Bool} {fs : List (Order × Nat)} {m : Matching} {p : Placement}

/-- Unless it is killed, an order is filled greedily by what it crosses. -/
theorem Enters.greedy (h : Enters A builtins s msg side found fs m p)
    (hv : (s.book p.asset).Valid) (hfound : found = true) :
    fs = Greedy.fills Order.remainingQty msg.qty.toInt.toNat
      (crossedOrders builtins s msg p.asset side) := by
  have hgreedy := (h.filled.executed.took.fills.greedy (hv.issue _) (h.filled.stopped hfound)).1
  rwa [Orderbook.reach_countTo] at hgreedy

theorem Enters.unique (h : Enters A builtins s msg side true fs m p) (hv : (s.book p.asset).Valid)
    {fs' : List (Order × Nat)} {m' : Matching}
    (hm : ((s.book p.asset).issue s.nextOrderId).Matched ⟨s.nextOrderId, msg.userId, side⟩
      (orderPast builtins s msg p.asset side) msg.qty.toInt.toNat fs' m') : m' = m := by
  have hgreedy := (hm.fills.greedy (hv.issue _) hm.stopped).1
  rw [Orderbook.reach_countTo] at hgreedy
  have hfs : fs' = fs := hgreedy.trans (h.greedy hv rfl).symm
  subst hfs
  exact h.filled.executed.took.fills.unique hm.fills

theorem Enters.results (h : Enters A builtins s msg side found fs m p) :
    m.results = Matching.trades ⟨s.nextOrderId, msg.userId, side⟩ fs := by
  simpa [Matching.trades] using h.filled.executed.took.fills.results_eq

/-- The book call of an order that is let through, in any build. -/
theorem Enters.bookCall_eq (h : Enters A builtins s msg side found fs m p)
    (hv : (s.book p.asset).Valid) (hmarket : msg.orderType = .market → found = true) :
    bookCall A builtins s msg p.asset side = .ok (p.state.book p.asset,
      .ok (Orderbook.outcome (Matching.trades ⟨s.nextOrderId, msg.userId, side⟩ fs)
        (remainderOf msg ⟨s.nextOrderId, msg.userId, side⟩ m))) := by
  have hpositive := h.wellFormed.positive
  have hqty : 0 < msg.qty.toInt.toNat := by omega
  have hadd := A.add_of_lt h.counted
  have hbook := h.filled.executed.book_self
  cases htype : msg.orderType with
  | limit =>
      have hpriced := h.wellFormed.priced htype
      have hpast : orderPast builtins s msg p.asset side
          = Orderbook.pastLimit side msg.price.toInt.toNat := by
        simp [orderPast, htype]
      obtain ⟨fs', m', hm, hrun⟩ := Orderbook.addOrderWithId_eq hv s.nextOrderId msg.userId side hadd
        (show 0 < msg.price.toInt.toNat by omega) hqty
      have hsearch : (if msg.timeInForce = .fok then
          ((s.book p.asset).issue s.nextOrderId).canFillQuantity A side msg.price.toInt.toNat
            msg.qty.toInt.toNat
          else pure true) = .ok found := by
        by_cases hfok : msg.timeInForce = .fok
        · rw [if_pos hfok]
          have hdecided := h.decided.fok hfok
          simp only [foundEnough, htype] at hdecided
          exact hdecided
        · rw [if_neg hfok, h.decided.other hfok]
          rfl
      simp only [bookCall, htype]
      rw [hrun, hsearch, ok_bind, hbook]
      simp only [remainderOf, htype]
      cases found with
      | true =>
          have hsame : m' = m := h.unique hv (hpast ▸ hm)
          rw [hsame, h.results]
          rfl
      | false =>
          have hnil := h.filled.killed rfl
          subst hnil
          have hkilled : msg.timeInForce = .fok := by
            by_contra hfok
            cases h.decided.other hfok
          have hfills := h.filled.executed.took.fills
          cases hfills
          simp [Orderbook.remainder, hkilled, Orderbook.restAll, Orderbook.outcome, Matching.trades]
  | market =>
      have hpast : orderPast builtins s msg p.asset side = Orderbook.pastWorst side
          (worstPrice builtins msg ((s.book p.asset).best side.opposite)) := by
        simp [orderPast, htype]
      obtain ⟨fs', m', hm, hrun⟩ := Orderbook.executeMarketOrderWithId_eq hv s.nextOrderId msg.userId
        side hadd hqty (worstPrice builtins msg ((s.book p.asset).best side.opposite))
      have hfound := hmarket htype
      subst hfound
      have hsame : m' = m := h.unique hv (hpast ▸ hm)
      simp only [bookCall, htype]
      rw [hrun, hsame, hbook, h.results]
      simp [remainderOf, htype, Orderbook.restAll]

end Enters

/-- An order that is placed has passed the tests, and its trades are those of the book call. -/
theorem judgeOrder_enters {A : Arith} {builtins : Builtins} {s : EngineState} {msg : OrderMsg}
    {p : Placement} (hv : ∀ asset, (s.book asset).Valid)
    (h : judgeOrder A s builtins msg = .ok (.placed p)) :
    ∃ side found fs m, Enters A builtins s msg side found fs m p ∧
      Passes A builtins s msg p.asset side ∧ (msg.orderType = .market → found = true) ∧
      bookCall A builtins s msg p.asset side
        = .ok (p.state.book p.asset,
          .ok (Orderbook.outcome (Matching.trades ⟨s.nextOrderId, msg.userId, side⟩ fs)
            (remainderOf msg ⟨s.nextOrderId, msg.userId, side⟩ m))) := by
  obtain ⟨side, found, fs, m, henters⟩ := (judgeOrder_venue A msg hv).of_ok h
  have hpasses : Passes A builtins s msg p.asset side := judgeOrder_sorted henters.wellFormed h
  have hmarket : msg.orderType = .market → found = true := by
    intro hmarket
    by_cases hfok : msg.timeInForce = .fok
    · have hfound := (henters.decided.fok hfok).symm.trans (hpasses.found hmarket hfok)
      exact Except.ok.inj hfound
    · exact henters.decided.other hfok
  exact ⟨side, found, fs, m, henters, hpasses, hmarket, henters.bookCall_eq (hv p.asset) hmarket⟩

end CexRs
