import CexRs.Proof.LockCoverage

/-!
# GTC and cancel

A GTC limit order whose remainder is cancelled at once leaves the engine exactly as the same order with
IOC does. The two runs settle the same trades in states that differ in one book, and what one gives
back at once the other gives back in two parts.
-/

namespace CexRs

open FixedWidth OrderedMap Journal EngineState

/-! ### States with the same money -/

structure SameMoney (s s' : EngineState) : Prop where
  usdBalance : s'.usdBalance = s.usdBalance
  stockBalance : s'.stockBalance = s.stockBalance
  feeSchedule : s'.feeSchedule = s.feeSchedule

section SameMoney

variable {s s' : EngineState}

theorem SameMoney.trans {s'' : EngineState} (h : SameMoney s s') (h' : SameMoney s' s'') :
    SameMoney s s'' :=
  ⟨h'.usdBalance.trans h.usdBalance, h'.stockBalance.trans h.stockBalance,
    h'.feeSchedule.trans h.feeSchedule⟩

theorem SameMoney.symm (h : SameMoney s s') : SameMoney s' s :=
  ⟨h.usdBalance.symm, h.stockBalance.symm, h.feeSchedule.symm⟩

theorem sameMoney_setBook (s : EngineState) (asset : Asset) (ob : Orderbook) :
    SameMoney s (s.setBook asset ob) :=
  ⟨usdBalance_setBook .., stockBalance_setBook .., feeSchedule_setBook ..⟩

theorem sameMoney_issued (s : EngineState) (asset : Asset) (ob ob' : Orderbook) :
    SameMoney (s.issued asset ob) (s.issued asset ob') := by
  constructor
  all_goals simp [issued]

theorem SameMoney.balance (h : SameMoney s s') (user : Nat) (currency : Currency) :
    s'.balance user currency = s.balance user currency := by
  cases currency with
  | usd => simp [EngineState.balance, usd, h.usdBalance]
  | stock symbol => simp [EngineState.balance, stock, h.stockBalance]

theorem SameMoney.withBalance (h : SameMoney s s') (user : Nat) (currency : Currency) (b : Balance) :
    SameMoney (s.withBalance user currency b) (s'.withBalance user currency b) := by
  cases currency with
  | usd =>
      refine ⟨?_, h.stockBalance, h.feeSchedule⟩
      simp [EngineState.withBalance, withUsd, h.usdBalance]
  | stock symbol =>
      refine ⟨h.usdBalance, ?_, h.feeSchedule⟩
      simp [EngineState.withBalance, withStock, h.stockBalance]

/-- A state is its money and its venue. -/
theorem SameMoney.eq (h : SameMoney s s') (hvenue : SameVenue s s') : s' = s := by
  have hsol := hvenue.book .sol
  have hbtc := hvenue.book .btc
  have heth := hvenue.book .eth
  cases s
  cases s'
  simp only [book] at hsol hbtc heth
  simp only [EngineState.mk.injEq]
  exact ⟨h.usdBalance, h.stockBalance, hsol, hbtc, heth, hvenue.nextOrderId, h.feeSchedule⟩

theorem balanceMut_related (h : SameMoney s s') (user : Nat) (currency : Currency)
    (f : Balance → Except Fault Balance) :
    Related SameMoney (s.balanceMut user currency f) (s'.balanceMut user currency f) := by
  rw [balanceMut_eq, balanceMut_eq, h.balance]
  apply related_bind_left
  intro b
  exact h.withBalance user currency b

end SameMoney

/-! ### Settling in step -/

section Settle

variable {s s' : EngineState} (A : Arith) (asset : Asset)

theorem applyFill_related (h : SameMoney s s') (t : Trade) :
    Related (fun r r' => SameMoney r.1 r'.1 ∧ r'.2 = r.2) (applyFill A s asset t)
      (applyFill A s' asset t) := by
  unfold applyFill
  rw [h.feeSchedule]
  apply related_bind_left
  intro value
  apply related_bind_left
  intro buyerFee
  apply related_bind_left
  intro sellerFee
  apply related_bind_left
  intro debit
  apply (balanceMut_related h t.buyer .usd _).bind
  intro s₁ s₁' h₁
  apply (balanceMut_related h₁ t.buyer (.stock asset.symbol) _).bind
  intro s₂ s₂' h₂
  apply (balanceMut_related h₂ t.seller (.stock asset.symbol) _).bind
  intro s₃ s₃' h₃
  apply (balanceMut_related h₃ t.seller .usd _).bind
  intro s₄ s₄' h₄
  apply related_bind_left
  intro totalFee
  have htoll : Related SameMoney
      (if 0 < totalFee then s₄.usdMut 0 (Balance.credit A totalFee) else pure s₄)
      (if 0 < totalFee then s₄'.usdMut 0 (Balance.credit A totalFee) else pure s₄') :=
    Related.ite (balanceMut_related h₄ 0 .usd _) h₄
  split
  · next hpos =>
    rw [if_pos hpos, if_pos hpos] at htoll
    exact htoll.bind fun _ _ h₅ => ⟨h₅, rfl⟩
  · exact ⟨h₄, rfl⟩

structure SameSettlement (a b : Settlement) : Prop where
  money : SameMoney a.state b.state
  filledQty : b.filledQty = a.filledQty
  spent : b.spent = a.spent

theorem settleTrade_related (side : Side) {a b : Settlement} (h : SameSettlement a b) (t : Trade) :
    Related SameSettlement (settleResult A asset side a (.trade t))
      (settleResult A asset side b (.trade t)) := by
  unfold settleResult
  apply (applyFill_related A asset h.money t).bind
  rintro ⟨s₁, fees⟩ ⟨s₁', _⟩ ⟨hmoney, rfl⟩
  dsimp only
  rw [h.filledQty]
  apply related_bind_left
  intro filledQty
  apply related_bind_left
  intro quoteAmount
  split
  · rw [h.spent]
    apply related_bind_left
    intro cost
    apply related_bind_left
    intro spent
    exact ⟨hmoney, rfl, rfl⟩
  · exact ⟨hmoney, rfl, h.spent⟩

/-- The trades settle alike whether or not there is a remainder, and whatever the books are. -/
theorem settleResults_related (side : Side) (h : SameMoney s s') (ts : List Trade)
    (resting resting' : Option Order) :
    Related SameSettlement (settleResults A s asset side (Orderbook.outcome ts resting))
      (settleResults A s' asset side (Orderbook.outcome ts resting')) := by
  have hrest : ∀ (acc acc' : Settlement), SameSettlement acc acc' →
      Related SameSettlement
        ((resting.map fun o => MatchResult.orderAccepted (Orderbook.accepted o)).toList.foldlM
          (settleResult A asset side) acc)
        ((resting'.map fun o => MatchResult.orderAccepted (Orderbook.accepted o)).toList.foldlM
          (settleResult A asset side) acc') := by
    intro acc acc' hacc
    cases resting <;> cases resting' <;> exact ⟨hacc.money, hacc.filledQty, hacc.spent⟩
  unfold settleResults Orderbook.outcome
  rw [List.foldlM_append, List.foldlM_append, List.foldlM_map, List.foldlM_map]
  apply Related.bind _ hrest
  apply Related.foldlM (fun a b t hab => settleTrade_related A asset side hab t) ts
  exact ⟨h, rfl, rfl⟩

end Settle

/-! ### Giving back in two parts -/

theorem unlock_ok_iff {n : Nat} {b b' : Balance} :
    Balance.unlock (u64 true) n b = .ok b' ↔
      n ≤ b.locked ∧ b.available + n < 2 ^ 64 ∧ b' = ⟨b.available + n, b.locked - n⟩ := by
  unfold Balance.unlock
  by_cases hle : n ≤ b.locked
  · rw [Arith.sub_of_le _ hle, ok_bind]
    by_cases hlt : b.available + n < 2 ^ 64
    · rw [Arith.add_of_lt (u64 true) hlt, ok_bind]
      constructor
      · intro h
        cases h
        exact ⟨hle, hlt, rfl⟩
      · rintro ⟨_, _, rfl⟩
        rfl
    · have hover : (u64 true).add b.available n = .error .overflow := if_neg hlt
      rw [hover]
      constructor
      · intro h
        cases h
      · rintro ⟨_, hlt', _⟩
        exact absurd hlt' hlt
  · have hunder : (u64 true).sub b.locked n = .error .underflow := if_neg hle
    rw [hunder]
    constructor
    · intro h
      cases h
    · rintro ⟨hle', _⟩
      exact absurd hle' hle

theorem withBalance_withBalance (s : EngineState) (user : Nat) (currency : Currency) (b b' : Balance) :
    (s.withBalance user currency b).withBalance user currency b' = s.withBalance user currency b' := by
  cases currency with
  | usd => simp [EngineState.withBalance, withUsd, insert_insert]
  | stock symbol =>
      simp [EngineState.withBalance, withStock, insert_insert]

/-- What is given back in two parts may be given back in one. -/
theorem unlock_parts {s s' s₁ t s₂ : EngineState} {user : Nat} {currency : Currency} {a b : Nat}
    (hs : SameMoney s s')
    (h₁ : s.balanceMut user currency (Balance.unlock (u64 true) a) = .ok s₁) (ht : SameMoney s₁ t)
    (h₂ : t.balanceMut user currency (Balance.unlock (u64 true) b) = .ok s₂) :
    ∃ s₂', s'.balanceMut user currency (Balance.unlock (u64 true) (a + b)) = .ok s₂' ∧
      SameMoney s₂ s₂' := by
  obtain ⟨b₁, hb₁, rfl⟩ := balanceMut_ok h₁
  obtain ⟨b₂, hb₂, rfl⟩ := balanceMut_ok h₂
  rw [ht.balance, balance_withBalance, if_pos ⟨rfl, rfl⟩] at hb₂
  obtain ⟨hle₁, _, rfl⟩ := unlock_ok_iff.mp hb₁
  obtain ⟨hle₂, hlt₂, rfl⟩ := unlock_ok_iff.mp hb₂
  simp only at hle₂ hlt₂
  have hunlock : Balance.unlock (u64 true) (a + b) (s'.balance user currency)
      = .ok ⟨(s.balance user currency).available + a + b,
        (s.balance user currency).locked - a - b⟩ := by
    rw [hs.balance]
    apply unlock_ok_iff.mpr
    refine ⟨by omega, by omega, ?_⟩
    rw [Nat.add_assoc, Nat.sub_sub]
  refine ⟨_, by rw [balanceMut_eq, hunlock, ok_bind], ?_⟩
  have hmoney := (ht.withBalance user currency ⟨(s.balance user currency).available + a + b,
    (s.balance user currency).locked - a - b⟩)
  rw [withBalance_withBalance] at hmoney
  exact hmoney.symm.trans (hs.withBalance user currency _)

def giveBack (s : EngineState) (user : Nat) (currency : Currency) (n : Nat) :
    Except Fault EngineState :=
  if 0 < n then s.balanceMut user currency (Balance.unlock (u64 true) n) else .ok s

theorem giveBack_parts {s s' s₁ t s₂ : EngineState} {user : Nat} {currency : Currency} {a b : Nat}
    (hs : SameMoney s s') (h₁ : giveBack s user currency a = .ok s₁) (ht : SameMoney s₁ t)
    (hpos : 0 < b) (h₂ : t.balanceMut user currency (Balance.unlock (u64 true) b) = .ok s₂) :
    ∃ s₂', giveBack s' user currency (a + b) = .ok s₂' ∧ SameMoney s₂ s₂' := by
  unfold giveBack at h₁ ⊢
  rw [if_pos (by omega)]
  split at h₁
  · exact unlock_parts hs h₁ ht h₂
  · next hzero =>
    cases h₁
    have ha : a = 0 := by omega
    rw [ha, Nat.zero_add]
    exact (balanceMut_related (ht.symm.trans hs) user currency _).of_ok h₂

theorem giveBack_venue {s s' : EngineState} {user : Nat} {currency : Currency} {n : Nat}
    (h : giveBack s user currency n = .ok s') : SameVenue s s' := by
  unfold giveBack at h
  split at h
  · obtain ⟨b, _, rfl⟩ := balanceMut_ok h
    exact sameVenue_withBalance s user currency b
  · cases h
    exact SameVenue.refl s

/-! ### Resting and leaving the book -/

/-- A book from which the order that joined it last is taken out is the book before. -/
theorem Orderbook.Valid.remove_rest {ob : Orderbook} (hv : ob.Valid) {o : Order}
    (hfresh : ob.orders[o.orderId]? = none) : (ob.rest o).remove o = ob := by
  have hqueue : (ob.rest o).queueAt o.side o.price = ob.queueAt o.side o.price ++ [o.orderId] := by
    simp [queueAt, get_rest]
  have hmem : o.orderId ∉ ob.queueAt o.side o.price := by
    intro hmem
    unfold queueAt at hmem
    cases hlevel : (ob.levels o.side)[o.price]? with
    | none => simp [hlevel] at hmem
    | some level =>
        rw [hlevel] at hmem
        obtain ⟨x, hget, _⟩ := hv.queued hlevel o.orderId hmem
        rw [hfresh] at hget
        cases hget
  have herase : ((ob.rest o).queueAt o.side o.price).erase o.orderId = ob.queueAt o.side o.price := by
    rw [hqueue, List.erase_append_right _ hmem]
    simp
  have hlevels : (if ob.queueAt o.side o.price = [] then ((ob.rest o).levels o.side).erase o.price
      else ((ob.rest o).levels o.side).insert o.price ⟨ob.queueAt o.side o.price⟩)
      = ob.levels o.side := by
    have hrest : (ob.rest o).levels o.side = (ob.levels o.side).insert o.price
        ⟨ob.queueAt o.side o.price ++ [o.orderId]⟩ := by
      cases hside : o.side with
      | bid => simp [Orderbook.rest, queueAt, hside, levels, setLevels]
      | ask => simp [Orderbook.rest, queueAt, hside, levels, setLevels]
    rw [hrest]
    cases hlevel : (ob.levels o.side)[o.price]? with
    | none =>
        rw [if_pos (by simp [queueAt, hlevel])]
        exact erase_insert_of_none hlevel
    | some level =>
        have hnonempty := hv.nonempty hlevel
        have hqueueAt : ob.queueAt o.side o.price = level.orders := by simp [queueAt, hlevel]
        rw [hqueueAt, if_neg hnonempty, insert_insert]
        exact insert_of_get hlevel
  unfold Orderbook.remove
  rw [herase]
  dsimp only
  rw [hlevels, orders_rest, erase_insert_of_none hfresh]
  cases hside : o.side with
  | bid => simp [Orderbook.rest, setLevels, hside, levels]
  | ask => simp [Orderbook.rest, setLevels, hside, levels]

/-! ### The two orders -/

def OrderMsg.withTif (msg : OrderMsg) (tif : TimeInForce) : OrderMsg := { msg with timeInForce := tif }

/-- A limit order that is placed has locked its stake, and goes on from there whatever its time in
force. -/
theorem handleLimit_placed {s : EngineState} {msg : OrderMsg} {asset : Asset} {side : Side} {qty : Nat}
    {tif₀ : TimeInForce} {p : Placement}
    (h : handleLimit (u64 true) s (msg.withTif tif₀) asset side qty = .ok (.placed p)) :
    ∃ s₁ lock, 0 < msg.price.toInt ∧
      lock = msg.price.toInt.toNat * qty + s.feeSchedule.maxFee (msg.price.toInt.toNat * qty) ∧
      Moves s s₁ (lockPostings msg.userId (funds side asset) (stake side lock qty)) ∧
      stake side lock qty ≤ s.holding ⟨msg.userId, funds side asset, false⟩ ∧
      ∀ tif, handleLimit (u64 true) s (msg.withTif tif) asset side qty
        = placeLimit (u64 true) s₁ (msg.withTif tif) asset side msg.price.toInt.toNat qty lock
          >>= fun p => .ok (.placed p) := by
  unfold handleLimit at h
  by_cases hprice : (msg.withTif tif₀).price.toInt ≤ 0
  · rw [if_pos hprice] at h
    cases h
  · rw [if_neg hprice] at h
    obtain ⟨cost, hcost, h⟩ := bind_ok h
    obtain ⟨product, hproduct, h⟩ := bind_ok h
    obtain ⟨lock, hlock, h⟩ := bind_ok h
    have hpositive : 0 < msg.price.toInt := Int.not_le.mp hprice
    have hlock' : lock = msg.price.toInt.toNat * qty
        + s.feeSchedule.maxFee (msg.price.toInt.toNat * qty) := by
      rw [wrap_ok hlock, wrap_ok hproduct, wrap_ok hcost]
      rfl
    cases side with
    | bid =>
        obtain ⟨⟨s₁, enough⟩, hlocked, h⟩ := bind_ok h
        have hspec := (lockUsd_spec s msg.userId lock).of_ok hlocked
        cases enough with
        | false => cases h
        | true =>
            refine ⟨s₁, lock, hpositive, hlock', hspec.1, hspec.2.mp rfl, fun tif => ?_⟩
            -- up to here nothing depends on the time in force
            have hprice : ¬ (msg.withTif tif).price.toInt ≤ 0 := hprice
            have hcost : (u64 true).mul (msg.withTif tif).price.toInt.toNat qty = .ok cost := hcost
            have hlocked : lockUsd (u64 true) s (msg.withTif tif).userId lock = .ok (s₁, true) := hlocked
            unfold handleLimit
            rw [if_neg hprice]
            dsimp only
            rw [hcost, ok_bind, hproduct, ok_bind, hlock, ok_bind, hlocked, ok_bind]
            rfl
    | ask =>
        obtain ⟨⟨s₁, enough⟩, hlocked, h⟩ := bind_ok h
        have hspec := (lockAsset_spec s msg.userId asset qty).of_ok hlocked
        cases enough with
        | false => cases h
        | true =>
            refine ⟨s₁, lock, hpositive, hlock', hspec.1, hspec.2.mp rfl, fun tif => ?_⟩
            have hprice : ¬ (msg.withTif tif).price.toInt ≤ 0 := hprice
            have hcost : (u64 true).mul (msg.withTif tif).price.toInt.toNat qty = .ok cost := hcost
            have hlocked : lockAsset (u64 true) s (msg.withTif tif).userId asset qty
                = .ok (s₁, true) := hlocked
            unfold handleLimit
            rw [if_neg hprice]
            dsimp only
            rw [hcost, ok_bind, hproduct, ok_bind, hlock, ok_bind, hlocked, ok_bind]
            rfl

/-- One match for every time in force other than fill-or-kill. -/
theorem placeLimit_unkilled (s : EngineState) (msg : OrderMsg) (asset : Asset)
    (hv : (s.book asset).Valid) (hid : s.nextOrderId + 1 < 2 ^ 64) (side : Side) {price qty : Nat}
    (hprice : 0 < price) (hqty : 0 < qty) :
    ∃ fs m, Orderbook.Matched ((s.book asset).issue s.nextOrderId) ⟨s.nextOrderId, msg.userId, side⟩
        (Orderbook.pastLimit side price) qty fs m ∧
      ∀ tif, tif ≠ .fok → ∀ lock resting,
        resting = Orderbook.remainder ⟨s.nextOrderId, msg.userId, side⟩ price tif m →
        placeLimit (u64 true) s (msg.withTif tif) asset side price qty lock
          = settleResults (u64 true) (s.issued asset (m.book.restAll resting)) asset side
              (Orderbook.outcome m.results resting)
            >>= reconcile (u64 true) (msg.withTif tif) asset side qty lock := by
  obtain ⟨fs, m, hm, hrun⟩ := Orderbook.addOrderWithId_eq hv s.nextOrderId msg.userId side
    ((u64 true).add_of_lt hid) hprice hqty
  refine ⟨fs, m, hm, ?_⟩
  rintro tif hfok lock resting rfl
  unfold placeLimit
  rw [drawOrderId_of_lt _ s hid, ok_bind]
  simp only [OrderMsg.withTif]
  rw [book_nextOrderId, hrun, if_neg hfok]
  rfl

section Place

variable {s s₁ : EngineState} {msg : OrderMsg} {asset : Asset} {side : Side} {price qty lock : Nat}
  {fs : List (Order × Nat)} {m : Matching}

/-- What the trades of a limit order take and what its remainder holds back is within its stake. -/
theorem limit_stake (hv : (s.book asset).Valid)
    (htook : (s.book asset).Took ⟨s.nextOrderId, msg.userId, side⟩ (Orderbook.pastLimit side price) qty
      fs m) (hlock : lock = price * qty + s.feeSchedule.maxFee (price * qty)) (tif : TimeInForce) :
    spentOf s.feeSchedule side (Matching.trades ⟨s.nextOrderId, msg.userId, side⟩ fs)
        + heldOf s.feeSchedule
          (Orderbook.remainder ⟨s.nextOrderId, msg.userId, side⟩ price tif m)
      ≤ stake side lock qty := by
  cases side with
  | bid =>
      have hreserve := limit_reserve hv s.feeSchedule tif htook
      simp only [stake]
      omega
  | ask =>
      have hbalanced := ask_balanced price s.feeSchedule tif htook
      simp only [stake]
      omega

/-- A limit order gets back what its trades did not take and its remainder does not hold. -/
theorem reconcile_eq {t : EngineState} {settled : Settlement} {resting : Option Order}
    {tif : TimeInForce}
    (htook : (s.book asset).Took ⟨s.nextOrderId, msg.userId, side⟩ (Orderbook.pastLimit side price) qty
      fs m) (hresting : resting
      = Orderbook.remainder ⟨s.nextOrderId, msg.userId, side⟩ price tif m)
    (hfees : t.feeSchedule = s.feeSchedule)
    (hcleared : Cleared t asset side (Matching.trades ⟨s.nextOrderId, msg.userId, side⟩ fs) resting
      settled)
    (hneeded : side = .bid → neededLocked (u64 true) settled.state.feeSchedule settled.resting
      = .ok (heldOf s.feeSchedule resting)) :
    reconcile (u64 true) (msg.withTif tif) asset side qty lock settled
      = giveBack settled.state msg.userId (funds side asset) (stake side lock qty
          - spentOf s.feeSchedule side (Matching.trades ⟨s.nextOrderId, msg.userId, side⟩ fs)
          - heldOf s.feeSchedule resting) >>= fun state => .ok
            { asset, state, lock := stake side lock qty, refund := stake side lock qty
                - spentOf s.feeSchedule side (Matching.trades ⟨s.nextOrderId, msg.userId, side⟩ fs)
                - heldOf s.feeSchedule resting, settlement := settled } := by
  cases side with
  | bid =>
      have hspent := hcleared.spent
      rw [if_pos rfl, hfees] at hspent
      simp only [reconcile]
      rw [hneeded rfl, ok_bind, hspent]
      rfl
  | ask =>
      have hfilled := hcleared.filledQty
      have hbalanced := ask_balanced price s.feeSchedule tif htook
      rw [← hresting] at hbalanced
      simp only [spentOf] at hbalanced
      rw [Matching.sum_qty_trades] at hbalanced hfilled
      simp only [reconcile, spentOf, stake, Matching.sum_qty_trades]
      have hle : settled.filledQty ≤ qty := by omega
      have hrefund : (if (msg.withTif tif).timeInForce ≠ .gtc then qty - settled.filledQty else 0)
          = qty - (fs.map Prod.snd).sum - heldOf s.feeSchedule resting := by
        rw [hfilled]
        by_cases hgtc : tif = .gtc
        · rw [if_neg (by simp [hgtc])] at hbalanced
          rw [if_neg (by simp [OrderMsg.withTif, hgtc])]
          omega
        · have hioc : (msg.withTif tif).timeInForce ≠ .gtc := hgtc
          rw [if_pos hgtc] at hbalanced
          rw [if_pos hioc]
          omega
      rw [(u64 true).sub_of_le hle, ok_bind, hrefund]
      rfl

/-- A limit order that is placed has been given this back. -/
theorem reconcile_ok {t : EngineState} {settled : Settlement} {resting : Option Order}
    {tif : TimeInForce} {p : Placement} (hprice : 0 < price)
    (htook : (s.book asset).Took ⟨s.nextOrderId, msg.userId, side⟩ (Orderbook.pastLimit side price) qty
      fs m) (hresting : resting
      = Orderbook.remainder ⟨s.nextOrderId, msg.userId, side⟩ price tif m)
    (hfees : t.feeSchedule = s.feeSchedule)
    (hcleared : Cleared t asset side (Matching.trades ⟨s.nextOrderId, msg.userId, side⟩ fs) resting
      settled)
    (h : reconcile (u64 true) (msg.withTif tif) asset side qty lock settled = .ok p) :
    ∃ state, giveBack settled.state msg.userId (funds side asset) (stake side lock qty
          - spentOf s.feeSchedule side (Matching.trades ⟨s.nextOrderId, msg.userId, side⟩ fs)
          - heldOf s.feeSchedule resting) = .ok state ∧
      p.state = state ∧ p.settlement = settled := by
  have hneeded : side = .bid → neededLocked (u64 true) settled.state.feeSchedule settled.resting
      = .ok (heldOf s.feeSchedule resting) := by
    rintro rfl
    obtain ⟨needed, hneeded, _⟩ := bind_ok h
    have hbids : ∀ o, resting = some o → o.side = .bid := by
      intro o ho
      rw [ho] at hresting
      obtain ⟨_, _, _, rfl⟩ := remainder_resting hprice hresting.symm
      rfl
    have hstatefees : settled.state.feeSchedule = s.feeSchedule :=
      hcleared.moves.venue.feeSchedule.trans hfees
    have hspec := neededLocked_spec s.feeSchedule hbids
    rw [← hcleared.resting, ← hstatefees] at hspec
    rw [hneeded, hspec.of_ok hneeded, hstatefees]
  rw [reconcile_eq htook hresting hfees hcleared hneeded] at h
  obtain ⟨state, hback, hp⟩ := bind_ok h
  cases hp
  exact ⟨state, hback, rfl, rfl⟩

/-- The book that an order has left is the book that it never joined. -/
theorem sameVenue_left {ob : Orderbook} {o : Order} {joined left never : EngineState} (hob : ob.Valid)
    (hfresh : ob.orders[o.orderId]? = none) (hjoined : SameVenue (s.issued asset (ob.rest o)) joined)
    (hleft : SameVenue (joined.setBook asset ((joined.book asset).remove o)) left)
    (hnever : SameVenue (s.issued asset ob) never) : SameVenue left never := by
  refine ⟨fun asset' => ?_, ?_, ?_⟩
  · rw [hnever.book, hleft.book]
    by_cases hasset : asset' = asset
    · subst hasset
      rw [book_setBook_self, hjoined.book, issued, issued, book_setBook_self, book_setBook_self,
        hob.remove_rest hfresh]
    · rw [book_setBook_of_ne _ _ _ hasset, hjoined.book, issued, issued,
        book_setBook_of_ne _ _ _ hasset, book_setBook_of_ne _ _ _ hasset]
  · rw [hnever.nextOrderId, hleft.nextOrderId, nextOrderId_setBook, hjoined.nextOrderId]
    simp [issued]
  · rw [hnever.feeSchedule, hleft.feeSchedule, feeSchedule_setBook, hjoined.feeSchedule]
    simp [issued]

theorem remainder_ioc (taker : Taker) (price : Nat) (m : Matching) :
    Orderbook.remainder taker price .ioc m = none := by
  simp [Orderbook.remainder]

theorem leftover_held_pos {fees : FeeSchedule} {taker : Taker} (hprice : 0 < price)
    (hpos : 0 < m.remainingQty) : 0 < (Orderbook.leftover taker price m).held fees := by
  cases hside : taker.side with
  | bid =>
      have hcost : 0 < price * m.remainingQty := Nat.mul_pos hprice hpos
      simp only [Order.held, Orderbook.leftover, hside, Order.cost]
      omega
  | ask => simpa [Order.held, Orderbook.leftover, hside] using hpos

/-- **One order, two ways.** A GTC limit order that is placed in full, and one whose remainder is taken
out of the book and given back, leave what the IOC order leaves. -/
theorem placeLimit_ioc {p : Placement} (hcov : s.Covered) (hv : s.Valid) (hprice : 0 < price)
    (hqty : 0 < qty) (hmoves : Moves s s₁ (lockPostings msg.userId (funds side asset)
      (stake side lock qty))) (hlock : lock = price * qty + s.feeSchedule.maxFee (price * qty))
    (hgtc : placeLimit (u64 true) s₁ (msg.withTif .gtc) asset side price qty lock = .ok p) :
    (p.settlement.resting = none →
      ∃ p', placeLimit (u64 true) s₁ (msg.withTif .ioc) asset side price qty lock = .ok p' ∧
        p'.asset = asset ∧ p'.state = p.state) ∧
    ∀ accepted, p.settlement.resting = some accepted →
      ∃ o, accepted = Orderbook.accepted o ∧ o.userId = msg.userId ∧ o.side = side ∧
        (p.state.book asset).orders[o.orderId]? = some o ∧
        ∀ s₂, SameVenue (p.state.setBook asset ((p.state.book asset).remove o)) s₂ →
          (p.state.setBook asset ((p.state.book asset).remove o)).balanceMut msg.userId
            (funds side asset) (Balance.unlock (u64 true) (o.held s.feeSchedule)) = .ok s₂ →
          ∃ p', placeLimit (u64 true) s₁ (msg.withTif .ioc) asset side price qty lock = .ok p' ∧
            p'.asset = asset ∧ p'.state = s₂ := by
  have hbook := hmoves.venue.book asset
  have hnext := hmoves.venue.nextOrderId
  have hvb := hv.book asset
  obtain ⟨fs, m, hm, hrun⟩ := placeLimit_unkilled s₁ msg asset (hbook.symm ▸ hvb)
    (placeLimit_numbered hgtc) side hprice hqty
  rw [hbook, hnext] at hm
  rw [hnext] at hrun
  have htook : (s.book asset).Took ⟨s.nextOrderId, msg.userId, side⟩
      (Orderbook.pastLimit side price) qty fs m := Orderbook.Matched.took hvb hm
  have hstake := limit_stake hvb htook hlock
  have hspent : spentOf s.feeSchedule side (Matching.trades ⟨s.nextOrderId, msg.userId, side⟩ fs)
      ≤ stake side lock qty := le_trans (Nat.le_add_right ..) (hstake .ioc)
  have hfees : ∀ ob, (s₁.issued asset ob).feeSchedule = s.feeSchedule := by
    intro ob
    simp [issued, hmoves.venue.feeSchedule]
  -- the GTC order settles its trades and gives back what it does not need
  generalize hresting : Orderbook.remainder ⟨s.nextOrderId, msg.userId, side⟩ price .gtc m = resting
    at *
  rw [hrun .gtc (by simp) lock resting hresting.symm] at hgtc
  obtain ⟨settled, hsettle, hgtc⟩ := bind_ok hgtc
  have hcleared := (settle_spec hcov hvb hmoves htook hspent resting).of_ok hsettle
  obtain ⟨state, hback, hstate, hsettlement⟩ :=
    reconcile_ok hprice htook hresting.symm (hfees _) hcleared hgtc
  rw [hstate, hsettlement]
  -- the IOC order settles the same trades
  obtain ⟨settled', hsettle', hsame⟩ := (settleResults_related (u64 true) asset side
    (sameMoney_issued s₁ asset (m.book.restAll resting) (m.book.restAll none)) m.results resting
    none).of_ok hsettle
  have hcleared' := (settle_spec hcov hvb hmoves htook hspent none).of_ok hsettle'
  have hneeded' : side = .bid → neededLocked (u64 true) settled'.state.feeSchedule settled'.resting
      = .ok (heldOf s.feeSchedule none) := by
    intro _
    rw [hcleared'.resting]
    rfl
  have hioc := hrun .ioc (by simp) lock none (remainder_ioc ..).symm
  rw [hsettle', ok_bind, reconcile_eq htook (remainder_ioc ..).symm (hfees _) hcleared' hneeded']
    at hioc
  rw [hioc]
  refine ⟨fun hnone => ?_, fun accepted hsome => ?_⟩
  · rw [hcleared.resting, Option.map_eq_none_iff] at hnone
    subst hnone
    rw [hsettle] at hsettle'
    cases hsettle'
    exact ⟨_, by rw [hback, ok_bind], rfl, rfl⟩
  · rw [hcleared.resting, Option.map_eq_some_iff] at hsome
    obtain ⟨o, rfl, rfl⟩ := hsome
    have hwithin := hstake .gtc
    rw [hresting] at hwithin
    obtain ⟨hpos, price', hprice', rfl⟩ := remainder_resting hprice hresting
    set o := Orderbook.leftover ⟨s.nextOrderId, msg.userId, side⟩ price' m
    have hfresh : m.book.orders[o.orderId]? = none := hm.fresh (hvb.issue _) (hv.get_next asset)
    have hvenue := hcleared.moves.venue.trans (giveBack_venue hback)
    refine ⟨o, rfl, rfl, rfl, ?_, ?_⟩
    · rw [hvenue.book, issued, book_setBook_self, Orderbook.restAll, Option.elim_some,
        Orderbook.orders_rest, get_insert_self]
    · intro s₂ hvenue₂ hunlock
      have hheld : 0 < o.held s.feeSchedule := leftover_held_pos hprice' hpos
      obtain ⟨s₂', hback', hmoney⟩ := giveBack_parts hsame.money hback
        (sameMoney_setBook state asset ((state.book asset).remove o)) hheld hunlock
      have hamount : stake side lock qty
          - spentOf s.feeSchedule side (Matching.trades ⟨s.nextOrderId, msg.userId, side⟩ fs)
          - heldOf s.feeSchedule (some o) + o.held s.feeSchedule = stake side lock qty
          - spentOf s.feeSchedule side (Matching.trades ⟨s.nextOrderId, msg.userId, side⟩ fs)
          - heldOf s.feeSchedule none := by
        simp only [heldOf, Option.elim_some, Option.elim_none] at hwithin ⊢
        omega
      rw [hamount] at hback'
      refine ⟨_, by rw [hback', ok_bind], rfl, ?_⟩
      have hvenue' := hcleared'.moves.venue.trans (giveBack_venue hback')
      exact hmoney.eq (sameVenue_left htook.valid hfresh hvenue hvenue₂ hvenue')

end Place

/-! ### Messages -/

theorem refundCancelled_ok {t s₂ : EngineState} {asset : Asset} {o : Order}
    (h : refundCancelled (u64 true) t asset (cancelled o) = .ok s₂) :
    t.balanceMut o.userId (funds o.side asset) (Balance.unlock (u64 true) (o.held t.feeSchedule))
      = .ok s₂ := by
  unfold refundCancelled at h
  simp only [cancelled] at h
  cases hside : o.side with
  | bid =>
      rw [hside] at h
      obtain ⟨cost, hcost, hafter⟩ := bind_ok h
      obtain ⟨fee, hfee, hafter⟩ := bind_ok hafter
      obtain ⟨refund, hrefund, hunlock⟩ := bind_ok hafter
      have hmaker : fee = t.feeSchedule.makerFee cost := (calcMakerFee_spec _ _).of_ok hfee
      have hheld : refund = o.held t.feeSchedule := by
        rw [wrap_ok hrefund, hmaker, wrap_ok hcost, Order.held, hside]
        rfl
      rw [← hheld]
      exact hunlock
  | ask =>
      rw [hside] at h
      simp only [Order.held, hside]
      exact h

/-- A cancellation by the owner takes the order out of its book and gives back what it held. -/
theorem handleCancel_ok {t s₂ : EngineState} (hv : t.Valid) {asset : Asset} {o : Order}
    (hget : (t.book asset).orders[o.orderId]? = some o) {msg : CancelMsg} {outputs : List Output}
    (hid : msg.orderId = o.orderId) (huser : msg.userId = o.userId)
    (h : handleCancel (u64 true) t msg = .ok (s₂, outputs)) :
    SameVenue (t.setBook asset ((t.book asset).remove o)) s₂ ∧
      (t.setBook asset ((t.book asset).remove o)).balanceMut o.userId (funds o.side asset)
        (Balance.unlock (u64 true) (o.held t.feeSchedule)) = .ok s₂ ∧
      ∃ depth, depthEvent (u64 true) s₂ asset = .ok depth := by
  unfold handleCancel at h
  rcases cancelInBooks_spec t hv.book msg.orderId msg.userId Asset.all with
    ⟨_, hnone⟩ | ⟨asset', o', hget', _, hrun⟩
  · have hother := hnone asset (by cases asset <;> decide) o (hid ▸ hget)
    exact absurd huser.symm hother
  · rw [hid] at hget'
    have hasset := hv.disjoint hget hget'
    subst hasset
    rw [hget] at hget'
    cases hget'
    rw [hrun, ok_bind] at h
    obtain ⟨s₃, hrefund, h⟩ := bind_ok h
    obtain ⟨depth, hdepth, h⟩ := bind_ok h
    cases h
    have hunlock := refundCancelled_ok hrefund
    rw [feeSchedule_setBook] at hunlock
    obtain ⟨b, _, hs₃⟩ := balanceMut_ok hunlock
    refine ⟨?_, hunlock, depth, hdepth⟩
    rw [hs₃]
    exact sameVenue_withBalance ..

theorem judgeOrder_limit (A : Arith) (s : EngineState) (builtins : Builtins) {msg : OrderMsg}
    (hlimit : msg.orderType = .limit) {asset : Asset} {side : Side}
    (hform : WellFormed msg asset side) :
    judgeOrder A s builtins msg = handleLimit A s msg asset side msg.qty.toInt.toNat := by
  unfold judgeOrder
  rw [hform.asset, hform.side]
  dsimp only
  rw [if_neg (Int.not_le.mpr hform.positive), hlimit]

def cancelRemainder (msg : OrderMsg) (p : Placement) (queueId identifier : String) : List Msg :=
  (p.settlement.resting.map fun accepted =>
    Msg.cancel ⟨msg.userId, accepted.orderId, queueId, identifier⟩).toList

theorem order_gtc_cancel {builtins : Builtins} {s : EngineState} (hcov : s.Covered) (hv : s.Valid)
    {msg : OrderMsg} (hlimit : msg.orderType = .limit) {p : Placement}
    (hgtc : judgeOrder (u64 true) s builtins (msg.withTif .gtc) = .ok (.placed p))
    {queueId identifier : String} {s' : EngineState} {outputs : List Output}
    (hrun : run (u64 true) builtins s
      (.order (msg.withTif .gtc) :: cancelRemainder msg p queueId identifier) = .ok (s', outputs)) :
    ∃ outputs', handleOrder (u64 true) s builtins (msg.withTif .ioc) = .ok (s', outputs') := by
  obtain ⟨side, fs, m, hadmitted, _, hplaced⟩ :=
    (judgeOrder_spec s builtins (msg.withTif .gtc) hcov hv).of_ok hgtc
  have hform := hadmitted.wellFormed
  have hform' : WellFormed (msg.withTif .ioc) p.asset side := ⟨hform.1, hform.2, hform.3, hform.4⟩
  have hqty : 0 < msg.qty.toInt.toNat := by
    have hpositive : 0 < msg.qty.toInt := hform.positive
    omega
  have hlimit' : ∀ tif, (msg.withTif tif).orderType = .limit := fun _ => hlimit
  have hplaces : handleLimit (u64 true) s (msg.withTif .gtc) p.asset side msg.qty.toInt.toNat
      = .ok (.placed p) := (judgeOrder_limit _ _ _ (hlimit' .gtc) hform).symm.trans hgtc
  obtain ⟨s₁, lock, hprice, hlock, hmoves, _, hplace⟩ := handleLimit_placed hplaces
  rw [hplace .gtc] at hplaces
  obtain ⟨p₀, hplaces, hp₀⟩ := bind_ok hplaces
  cases hp₀
  obtain ⟨hfull, hcancelled⟩ := placeLimit_ioc hcov hv (by omega) hqty hmoves hlock hplaces
  -- it is enough that the IOC order is placed in this state and that the depth can be summed up
  have hdone : ∀ p' depth, placeLimit (u64 true) s₁ (msg.withTif .ioc) p.asset side
      msg.price.toInt.toNat msg.qty.toInt.toNat lock = .ok p' → p'.asset = p.asset →
      p'.state = s' → depthEvent (u64 true) s' p.asset = .ok depth →
      ∃ outputs', handleOrder (u64 true) s builtins (msg.withTif .ioc) = .ok (s', outputs') := by
    intro p' depth hp' hasset hstate hdepth
    unfold handleOrder
    have hioc := hplace .ioc
    rw [hp', ok_bind] at hioc
    have hverdict : judgeOrder (u64 true) s builtins (msg.withTif .ioc) = .ok (.placed p') :=
      (judgeOrder_limit _ _ _ (hlimit' .ioc) hform').trans hioc
    rw [hverdict, ok_bind]
    dsimp only
    rw [hasset, hstate, hdepth, ok_bind]
    exact ⟨_, rfl⟩
  unfold run at hrun
  obtain ⟨⟨s₀, first⟩, hhandle, hrest⟩ := bind_ok hrun
  have hhandle : handleOrder (u64 true) s builtins (msg.withTif .gtc) = .ok (s₀, first) := hhandle
  unfold handleOrder at hhandle
  rw [hgtc, ok_bind] at hhandle
  obtain ⟨depth, hdepth, hhandle⟩ := bind_ok hhandle
  cases hhandle
  cases hresting : p.settlement.resting with
  | none =>
      rw [cancelRemainder, hresting] at hrest
      cases hrest
      obtain ⟨p', hp', hasset, hstate⟩ := hfull hresting
      exact hdone p' depth hp' hasset hstate hdepth
  | some accepted =>
      obtain ⟨o, rfl, huser, hside, hget, hioc⟩ := hcancelled accepted hresting
      rw [cancelRemainder, hresting] at hrest
      obtain ⟨⟨s₂, last⟩, hcancels, hrest⟩ := bind_ok hrest
      cases hrest
      unfold run at hcancels
      obtain ⟨⟨s₃, second⟩, hcancel, hcancels⟩ := bind_ok hcancels
      cases hcancels
      have hcancel : handleCancel (u64 true) p.state ⟨msg.userId, o.orderId, queueId, identifier⟩
          = .ok (s', second) := hcancel
      obtain ⟨hvenue, hunlock, depth', hdepth'⟩ := handleCancel_ok (hplaced.executed.valid hv) hget
        rfl huser.symm hcancel
      rw [huser, hside, hplaced.executed.feeSchedule] at hunlock
      obtain ⟨p', hp', hasset, hstate⟩ := hioc s' hvenue hunlock
      exact hdone p' depth' hp' hasset hstate hdepth'

/-- **GTC and cancel is IOC.** In a state that a run reaches, a GTC limit order that is accepted, with a
cancellation of what it leaves to rest if it does, and no overflow on the way, reaches exactly the
state that the IOC order reaches: the balances, the three books and the counters. -/
theorem run_gtc_cancel_is_ioc (builtins : Builtins) (fees : FeeSchedule) (msgs : List Msg)
    (hover : run (u64 true) builtins (.new fees) msgs ≠ .error .overflow) :
    ∃ s outputs, (∀ checks, run (u64 checks) builtins (.new fees) msgs = .ok (s, outputs)) ∧
      ∀ (msg : OrderMsg) (p : Placement) (queueId identifier : String), msg.orderType = .limit →
        judgeOrder (u64 true) s builtins (msg.withTif .gtc) = .ok (.placed p) →
        run (u64 true) builtins s
          (.order (msg.withTif .gtc) :: cancelRemainder msg p queueId identifier) ≠ .error .overflow →
        ∃ s' outputs₁ outputs₂, ∀ checks,
          run (u64 checks) builtins s
            (.order (msg.withTif .gtc) :: cancelRemainder msg p queueId identifier)
              = .ok (s', outputs₁) ∧
          handleOrder (u64 checks) s builtins (msg.withTif .ioc) = .ok (s', outputs₂) := by
  obtain ⟨s, outputs, hrun, hruns⟩ := runs_of_ne_overflow hover
  obtain ⟨hcov, hv⟩ := hruns.covered
  refine ⟨s, outputs, hrun, ?_⟩
  intro msg p queueId identifier hlimit hgtc hfits
  obtain ⟨⟨s', outputs₁⟩, hrun', _⟩ := (run_runs builtins s hcov hv _).ok_of_fits hfits
  obtain ⟨outputs₂, hioc⟩ := order_gtc_cancel hcov hv hlimit hgtc hrun'
  refine ⟨s', outputs₁, outputs₂, fun checks => ⟨?_, ?_⟩⟩
  · exact run_agrees checks builtins s _ _ hrun'
  · exact handleOrder_agrees checks s _ builtins _ hioc

def partBid : OrderMsg := ⟨1, "SOL", "bid", .limit, 100, 10, none, .gtc, "q", "d"⟩

theorem run_gtc_cancel_is_ioc_partBid :
    ∃ s p accepted s' outputs₁ outputs₂,
      judgeOrder (u64 true) s .noSlippage partBid = .ok (.placed p) ∧
      p.settlement.resting = some accepted ∧ accepted.remainingQty = 6 ∧
      run (u64 false) .noSlippage s [.order partBid, .cancel ⟨1, accepted.orderId, "q", "e"⟩]
        = .ok (s', outputs₁) ∧
      handleOrder (u64 false) s .noSlippage (partBid.withTif .ioc) = .ok (s', outputs₂) := by
  obtain ⟨s, outputs, hrun, hequal⟩ := run_gtc_cancel_is_ioc .noSlippage ⟨10, 20⟩
    (session.take 2 ++ [.order ⟨2, "SOL", "ask", .limit, 100, 4, none, .gtc, "q", "c"⟩])
    (ne_overflow_of_overflowed (by decide +kernel))
  obtain ⟨r, hr, htest⟩ := exists_of_returns
    (run (u64 true) .noSlippage (.new ⟨10, 20⟩)
      (session.take 2 ++ [.order ⟨2, "SOL", "ask", .limit, 100, 4, none, .gtc, "q", "c"⟩]))
    (fun r => returns (Verdict.places fun p =>
        decide (p.settlement.resting.map OrderAccepted.remainingQty = some 6) &&
          !overflowed (run (u64 true) .noSlippage r.1
            (.order partBid :: cancelRemainder partBid p "q" "e")))
      (judgeOrder (u64 true) r.1 .noSlippage partBid)) (by decide +kernel)
  rw [hrun true] at hr
  cases hr
  obtain ⟨p, hjudge, htest⟩ := exists_of_places _ _ htest
  rw [Bool.and_eq_true] at htest
  obtain ⟨hresting, hfits⟩ := htest
  rw [Bool.not_eq_true'] at hfits
  obtain ⟨accepted, haccepted, hremaining⟩ := Option.map_eq_some_iff.mp (of_decide_eq_true hresting)
  obtain ⟨s', outputs₁, outputs₂, hboth⟩ := hequal partBid p "q" "e" rfl hjudge
    (ne_overflow_of_overflowed hfits)
  obtain ⟨hgtc, hioc⟩ := hboth false
  rw [cancelRemainder, haccepted] at hgtc
  exact ⟨s, p, accepted, s', outputs₁, outputs₂, hjudge, haccepted, hremaining, hgtc, hioc⟩

end CexRs
