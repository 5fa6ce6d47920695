import CexRs.Proof.OrderBounds
import CexRs.Proof.StrandedLock

/-!
# Buys are paid for

The amount that a buy locks is worked out in words before the balance is looked at, so a price and a
quantity whose product leaves the word can lock next to nothing, or stop the engine. Within the bounds
of `OrderBounds`, kept by every message of a run, every order is handled without a fault, and what an
accepted buy takes from its owner covers its fills and its remainder.
-/

namespace CexRs

open FixedWidth OrderedMap Journal EngineState

/-! ### Bounds on a message -/

/-- The bounds within which a message can be handled, on the state before it. -/
def StepFits (builtins : Builtins) (s : EngineState) : Msg → Prop
  | .onramp msg => s.holding ⟨msg.userId, .usd, false⟩ + msg.qty < 2 ^ 64
  | .deposit msg => s.holding ⟨msg.userId, .stock msg.symbol, false⟩ + msg.qty < 2 ^ 64
  | .order msg => ∀ asset ∈ Asset.ofString? msg.asset, ∀ side ∈ Side.ofString? msg.side,
      0 < msg.qty.toInt → OrderFits builtins s msg asset side
  | .cancel msg => ∀ asset ∈ Asset.all, ∀ o ∈ (s.book asset).orders[msg.orderId]?,
      o.userId = msg.userId →
        s.holding ⟨o.userId, funds o.side asset, false⟩ + o.held s.feeSchedule < 2 ^ 64
  | _ => True

/-- What the bounds keep: resting orders that can be counted and valued, and levels that can be summed
up. -/
structure WordSized (s : EngineState) : Prop where
  sized : ∀ asset, (s.book asset).Sized s.feeSchedule
  shallow : ∀ asset, (s.book asset).Shallow

theorem WordSized.of_same {s s' : EngineState} (h : WordSized s) (hvenue : SameVenue s s') :
    WordSized s' := by
  constructor
  · intro asset
    rw [hvenue.book, hvenue.feeSchedule]
    exact h.sized asset
  · intro asset
    rw [hvenue.book]
    exact h.shallow asset

theorem wordSized_of_empty {s : EngineState} (horders : ∀ asset, (s.book asset).orders = ∅) :
    WordSized s := by
  constructor
  · intro asset id o hget
    exact absurd hget (orders_empty horders)
  · intro asset side price
    rw [weigh_of_empty (horders asset)]
    decide

section Placed

variable {s : EngineState} {builtins : Builtins} {msg : OrderMsg} {side : Side}
  {fs : List (Order × Nat)} {m : Matching} {p : Placement}
  (h : Placed s msg side (orderPast builtins s msg p.asset side) msg.qty.toInt.toNat fs m
    (remainderOf msg ⟨s.nextOrderId, msg.userId, side⟩ m) p)

include h

/-- A GTC order rests what the orders it crosses leave unfilled. -/
theorem Placed.unfilled (htif : msg.timeInForce = .gtc) :
    m.remainingQty = Greedy.unfilled Order.remainingQty msg.qty.toInt.toNat
      (crossedOrders builtins s msg p.asset side) := by
  have htakes := h.takes
  have hremaining := h.executed.took.fills.remaining
  rw [Orderbook.takes, if_neg (by simp [htif])] at htakes
  have hsum := Greedy.sum_fills_add_unfilled Order.remainingQty msg.qty.toInt.toNat
    (crossedOrders builtins s msg p.asset side)
  simp only at hremaining
  rw [htakes] at hremaining
  unfold crossedOrders at hsum ⊢
  omega

theorem Placed.sized (hv : s.Valid) (hqty : 0 < msg.qty.toInt)
    (hsized : ∀ asset, (s.book asset).Sized s.feeSchedule)
    (hlimit : msg.orderType = .limit → s.feeSchedule.Sized (limitCost msg)) (asset : Asset) :
    (p.state.book asset).Sized p.state.feeSchedule := by
  have hword := msg.qty.toInt_lt
  have hremaining := h.executed.took.fills.remaining
  simp only at hremaining
  rw [h.executed.feeSchedule]
  intro id o hget
  rcases h.executed.rested (hv.book p.asset) hget with
    ⟨o₀, hget₀, _, hprice, _, hle⟩ | ⟨_, hrest, _⟩
  · obtain ⟨hsmall, hcost⟩ := hsized asset id o₀ hget₀
    refine ⟨by omega, hcost.mono ?_⟩
    rw [Order.cost, Order.cost, hprice]
    exact Nat.mul_le_mul_left _ hle
  · obtain ⟨htype, _, rfl⟩ := remainderOf_some hrest
    simp only [Orderbook.leftover, Order.cost]
    refine ⟨by omega, (hlimit htype).mono ?_⟩
    exact Nat.mul_le_mul_left _ (by omega)

/-- A match takes from levels, and the remainder joins one. -/
theorem Placed.weigh_le (hv : s.Valid) (side' : Side) (price : Nat) :
    Matching.weigh (Orderbook.levelWeight side' price) (p.state.book p.asset)
      ≤ Matching.weigh (Orderbook.levelWeight side' price) (s.book p.asset)
        + (remainderOf msg ⟨s.nextOrderId, msg.userId, side⟩ m).elim 0
          (Orderbook.levelWeight side' price) := by
  have hfills := h.executed.took.fills
  have hvi := (hv.book p.asset).issue s.nextOrderId
  have heq := hfills.weigh_eq hvi (Orderbook.levelWeight side' price)
  have hle : (fs.map (Matching.leftWeight (Orderbook.levelWeight side' price))).sum
      ≤ (fs.map fun f => Orderbook.levelWeight side' price f.1).sum := by
    apply List.sum_le_sum
    rintro ⟨o, n⟩ _
    unfold Matching.leftWeight
    split
    · exact Orderbook.levelWeight_shrink side' price o n
    · exact Nat.zero_le _
  rw [h.executed.book_self, weigh_restAll _ fun o ho => h.fresh hv ho]
  simp only [Orderbook.weigh_countTo] at heq ⊢
  omega

theorem Placed.shallow (hv : s.Valid) (hshallow : ∀ asset, (s.book asset).Shallow)
    (hlevel : msg.orderType = .limit → msg.timeInForce = .gtc →
      Matching.weigh (Orderbook.levelWeight side msg.price.toInt.toNat) (s.book p.asset)
        + Greedy.unfilled Order.remainingQty msg.qty.toInt.toNat
          (crossedOrders builtins s msg p.asset side) < 2 ^ 64) (asset : Asset) :
    (p.state.book asset).Shallow := by
  by_cases hasset : asset = p.asset
  · subst hasset
    intro side' price
    have hweigh := h.weigh_le hv side' price
    have hbefore := hshallow p.asset side' price
    cases hrest : remainderOf msg ⟨s.nextOrderId, msg.userId, side⟩ m with
    | none =>
        rw [hrest, Option.elim_none] at hweigh
        omega
    | some o =>
        obtain ⟨htype, htif, rfl⟩ := remainderOf_some hrest
        have hroom := hlevel htype htif
        have hunfilled := h.unfilled htif
        rw [hrest, Option.elim_some] at hweigh
        by_cases hsame : side = side' ∧ msg.price.toInt.toNat = price
        · obtain ⟨rfl, rfl⟩ := hsame
          have hjoins : Orderbook.levelWeight side msg.price.toInt.toNat
              (Orderbook.leftover ⟨s.nextOrderId, msg.userId, side⟩ msg.price.toInt.toNat m)
              = m.remainingQty := by
            simp [Orderbook.levelWeight, Orderbook.leftover]
          omega
        · have hjoins : Orderbook.levelWeight side' price
              (Orderbook.leftover ⟨s.nextOrderId, msg.userId, side⟩ msg.price.toInt.toNat m) = 0 :=
            if_neg hsame
          omega
  · rw [h.executed.book_other asset hasset]
    exact hshallow asset

end Placed

/-! ### Messages and runs -/

theorem WordSized.removed {s s' : EngineState} (h : WordSized s) (hv : s.Valid) {asset : Asset}
    {id : Nat} {o : Order} (hget : (s.book asset).orders[id]? = some o)
    (hvenue : SameVenue (s.setBook asset ((s.book asset).remove o)) s') : WordSized s' := by
  apply WordSized.of_same _ hvenue
  constructor
  · intro asset' id' o' hget'
    rw [feeSchedule_setBook]
    exact h.sized asset' id' o' (get_orders_removed hget')
  · intro asset' side price
    by_cases hasset : asset' = asset
    · subst hasset
      have hid := (hv.book asset').orderId_eq hget
      subst hid
      have hweigh := weigh_remove hget (Orderbook.levelWeight side price)
      have hbefore := h.shallow asset' side price
      rw [book_setBook_self]
      omega
    · rw [book_setBook_of_ne _ _ _ hasset]
      exact h.shallow asset' side price

section Messages

variable {builtins : Builtins} {s : EngineState} (hcov : s.Covered) (hv : s.Valid)
  (hword : WordSized s)

theorem StepFits.order {msg : OrderMsg} (h : StepFits builtins s (.order msg)) {asset : Asset}
    {side : Side} (hasset : Asset.ofString? msg.asset = some asset)
    (hside : Side.ofString? msg.side = some side) (hqty : 0 < msg.qty.toInt) :
    OrderFits builtins s msg asset side :=
  h asset hasset side hside hqty

include hv hword

theorem Placed.wordSized {msg : OrderMsg} {side : Side} {fs : List (Order × Nat)} {m : Matching}
    {p : Placement} (hadmitted : Admitted builtins s msg p.asset side)
    (h : Placed s msg side (orderPast builtins s msg p.asset side) msg.qty.toInt.toNat fs m
      (remainderOf msg ⟨s.nextOrderId, msg.userId, side⟩ m) p)
    (hfits : StepFits builtins s (.order msg)) : WordSized p.state := by
  have hform := hadmitted.wellFormed
  have hfits := hfits.order hform.asset hform.side hform.positive
  constructor
  · apply h.sized hv hform.positive hword.sized
    intro hlimit
    exact hfits.limit hlimit (hform.priced hlimit)
  · apply h.shallow hv hword.shallow
    exact hfits.level hadmitted

/-- Only an order can take the books past the bounds. -/
theorem Effect.wordSized_of {msg : Msg} {s' : EngineState} {events : List ExecutionEvent}
    (h : Effect builtins s msg s' events) (horder : ∀ order, msg = .order order → WordSized s') :
    WordSized s' := by
  cases h with
  | still _ _ _ h => exact hword.of_same h.venue
  | onramp h => exact hword.of_same h.venue
  | deposit h => exact hword.of_same h.venue
  | order hadmitted _ h => exact horder _ rfl
  | cancel hget _ hvenue _ => exact hword.removed hv hget hvenue
  | reset => exact wordSized_of_empty (by rintro (_ | _ | _) <;> rfl)

theorem Effect.wordSized {msg : Msg} {s' : EngineState} {events : List ExecutionEvent}
    (h : Effect builtins s msg s' events) (hfits : StepFits builtins s msg) : WordSized s' := by
  apply h.wordSized_of hv hword
  rintro order rfl
  cases h with
  | still _ _ _ h => exact hword.of_same h.venue
  | order hadmitted _ h => exact h.wordSized hv hword hadmitted hfits

theorem depthEvent_fits (asset : Asset) : Fits (depthEvent (u64 true) s asset) := by
  unfold depthEvent
  apply Fits.bind (Orderbook.getState_fits (hv.book asset) (hword.shallow asset))
  intro snapshot _
  exact fits_ok _

include hcov

theorem handleOrder_fits (msg : OrderMsg) (hfits : StepFits builtins s (.order msg)) :
    Fits (handleOrder (u64 true) s builtins msg) := by
  unfold handleOrder
  apply (judgeOrder_spec s builtins msg hcov hv).fits_bind
  · apply judgeOrder_fits s builtins msg hcov hv hword.sized
    intro asset side hasset hside hqty
    exact hfits.order hasset hside hqty
  · intro verdict hverdict
    cases verdict with
    | refused s' reply => exact fits_ok _
    | placed p =>
        obtain ⟨side, fs, m, hadmitted, _, hplaced⟩ := hverdict
        apply Fits.bind (depthEvent_fits (hplaced.executed.valid hv)
          (hplaced.wordSized hv hword hadmitted hfits) p.asset)
        intro depth _
        exact fits_ok _

omit hcov hv in
theorem refundCancelled_fits {asset : Asset} {id : Nat} {o : Order}
    (hget : (s.book asset).orders[id]? = some o) {s₁ : EngineState} (hpays : Pays s s₁ [])
    (hfees : s₁.feeSchedule = s.feeSchedule)
    (hroom : s.holding ⟨o.userId, funds o.side asset, false⟩ + o.held s.feeSchedule < 2 ^ 64) :
    Fits (refundCancelled (u64 true) s₁ asset (cancelled o)) := by
  obtain ⟨_, hsized⟩ := hword.sized asset id o hget
  rw [← hpays.holding_eq] at hroom
  unfold refundCancelled
  simp only [cancelled]
  cases hside : o.side with
  | bid =>
      have hmul : (u64 true).mul o.price o.remainingQty = .ok o.cost := u64_mul hsized.lt
      have hsum : o.cost + s.feeSchedule.makerFee o.cost < 2 ^ 64 :=
        lt_of_le_of_lt (Nat.add_le_add_left (makerFee_le _ _) _) hsized.sum
      simp only [hside, funds, Order.held] at hroom
      simp only
      rw [hfees, hmul, ok_bind, calcMakerFee_eq hsized.maker, ok_bind, u64_add hsum, ok_bind]
      exact unlock_fits s₁ o.userId .usd hroom
  | ask =>
      simp only [hside, funds, Order.held] at hroom
      exact unlock_fits s₁ o.userId (.stock asset.symbol) hroom

theorem handleCancel_fits (msg : CancelMsg) (hfits : StepFits builtins s (.cancel msg)) :
    Fits (handleCancel (u64 true) s msg) := by
  unfold handleCancel
  rcases cancelInBooks_spec s hv.book msg.orderId msg.userId Asset.all with
    ⟨hrun, _⟩ | ⟨asset, o, hget, huser, hrun⟩
  · rw [hrun]
    exact fits_ok _
  · rw [hrun]
    have hroom := hfits asset (by cases asset <;> decide) o hget huser
    have hpays := pays_setBook s asset ((s.book asset).remove o)
    have hle := held_le s hcov hget
    apply (refundCancelled_spec (s.setBook asset ((s.book asset).remove o)) asset
      (by rwa [feeSchedule_setBook, hpays.holding_eq])).fits_bind
      (refundCancelled_fits hword hget hpays (feeSchedule_setBook ..) hroom)
    intro s' hmoves
    have hv' : s'.Valid := (valid_removed hv hget).of_same hmoves.venue
    apply Fits.bind (depthEvent_fits hv' (hword.removed hv hget hmoves.venue) asset)
    intro depth _
    exact fits_ok _

theorem handle_fits (msg : Msg) (hfits : StepFits builtins s msg) :
    Fits (handle (u64 true) builtins s msg) := by
  cases msg with
  | onramp msg => exact Fits.bind (credit_fits s msg.userId .usd hfits) fun _ _ => fits_ok _
  | deposit msg =>
      exact Fits.bind (credit_fits s msg.userId (.stock msg.symbol) hfits) fun _ _ => fits_ok _
  | order msg => exact handleOrder_fits hcov hv hword msg hfits
  | cancel msg => exact handleCancel_fits hcov hv hword msg hfits
  | orderbook msg =>
      have hbook : Fits (handleGetOrderbook (u64 true) s msg) := by
        unfold handleGetOrderbook EngineState.getOrderbook
        cases Asset.ofString? msg.asset with
        | none => exact fits_ok _
        | some asset =>
            apply Fits.bind (Orderbook.getState_fits (hv.book asset) (hword.shallow asset))
            intro snapshot _
            exact fits_ok _
      exact hbook.bind fun _ _ => fits_ok _
  | signup msg => exact fits_ok _
  | balance msg => exact fits_ok _
  | openOrders msg => exact fits_ok _
  | orderStatus msg => exact fits_ok _
  | reset msg => exact fits_ok _

end Messages

/-- A run within the bounds returns, and keeps them. -/
theorem run_fits (builtins : Builtins) (s : EngineState) (hcov : s.Covered) (hv : s.Valid)
    (hword : WordSized s) (msgs : List Msg)
    (hsteps : StepsMeet (StepFits builtins) (u64 true) builtins s msgs) :
    ∃ s' outputs, run (u64 true) builtins s msgs = .ok (s', outputs) ∧
      s'.Covered ∧ s'.Valid ∧ WordSized s' := by
  induction msgs generalizing s with
  | nil => exact ⟨s, [], rfl, hcov, hv, hword⟩
  | cons msg msgs ih =>
      obtain ⟨hfits, hrest⟩ := hsteps
      obtain ⟨⟨s₁, outputs⟩, hhandle, heffect⟩ :=
        (handle_spec builtins s hcov hv msg).ok_of_fits (handle_fits hcov hv hword msg hfits)
      obtain ⟨s', outputs', hrun, h'⟩ := ih s₁ (heffect.covered hcov hv) (heffect.valid hv)
        (heffect.wordSized hv hword hfits) (hrest s₁ outputs hhandle)
      refine ⟨s', outputs ++ outputs', ?_, h'⟩
      unfold run
      rw [hhandle, ok_bind]
      dsimp only
      rw [hrun, ok_bind]
      rfl

/-! ### What a buy pays -/

namespace ExecutionEvent

def value : ExecutionEvent → Nat
  | .tradeExecuted _ _ _ _ _ price qty _ _ _ _ _ => price * qty
  | .orderCreated _ _ _ _ price _ remainingQty _ => price * remainingQty
  | _ => 0

/-- What a trade adds to the available USD of a user: the proceeds if the user has sold, and the fees if
the user is the treasury. -/
def credited (user : Nat) : ExecutionEvent → Nat
  | .tradeExecuted _ _ _ sellerId _ price qty _ _ _ buyerFee sellerFee =>
      (if sellerId = user then price * qty - sellerFee else 0)
        + if user = 0 then buyerFee + sellerFee else 0
  | _ => 0

end ExecutionEvent

/-- In either build an order is handled without a fault, and by then its owner has given up enough
available USD for its fills and for what is left to rest, not counting what its own trades have added. -/
def PaidFor (builtins : Builtins) (s : EngineState) (msg : OrderMsg) : Prop :=
  ∀ checks, ∃ s' outputs, handleOrder (u64 checks) s builtins msg = .ok (s', outputs) ∧
    ((executions outputs).map ExecutionEvent.value).sum + (s'.usd msg.userId).available
      ≤ (s.usd msg.userId).available
        + ((executions outputs).map (ExecutionEvent.credited msg.userId)).sum

theorem credited_event (fees : FeeSchedule) (ob : Orderbook) (asset : Asset) (user : Nat) (t : Trade) :
    ((t.event fees ob asset).credited user : Int)
      = net (· = ⟨user, .usd, false⟩) (t.postings fees asset) := by
  by_cases htreasury : user = 0
  · subst htreasury
    by_cases hseller : t.seller = 0
    · simp [ExecutionEvent.credited, Trade.event, Trade.postings, Trade.proceeds, Trade.toll,
        Trade.value, hseller]
    · simp [ExecutionEvent.credited, Trade.event, Trade.postings, Trade.toll, hseller]
  · have hother : ¬ 0 = user := fun h => htreasury h.symm
    by_cases hseller : t.seller = user
    · simp [ExecutionEvent.credited, Trade.event, Trade.postings, Trade.proceeds, Trade.value, hseller,
        htreasury, hother]
    · simp [ExecutionEvent.credited, Trade.event, Trade.postings, hseller, htreasury, hother]

/-- What the events of trades say is credited is what the journal of the trades posts. -/
theorem sum_credited (fees : FeeSchedule) (ob : Orderbook) (asset : Asset) (user : Nat)
    (ts : List Trade) :
    ((((ts.map fun t => t.event fees ob asset).map (ExecutionEvent.credited user)).sum : Nat) : Int)
      = net (· = ⟨user, .usd, false⟩) (journal fees asset ts) := by
  induction ts with
  | nil => rfl
  | cons t ts ih =>
      rw [List.map_cons, List.map_cons, List.sum_cons, Nat.cast_add, ih, credited_event]
      simp only [journal, List.flatMap_cons, net_append]

section Paid

variable {s : EngineState} {msg : OrderMsg} {past : Nat → Bool} {qty : Nat}
  {fs : List (Order × Nat)} {m : Matching} {resting : Option Order} {p : Placement}

/-- The available USD of a bid's owner, exactly. -/
theorem Placed.available (h : Placed s msg .bid past qty fs m resting p) :
    (p.state.usd msg.userId).available + p.lock = (s.usd msg.userId).available + p.refund
      + (p.settlement.events.map (ExecutionEvent.credited msg.userId)).sum := by
  have hposts := h.pays.posts ⟨msg.userId, .usd, false⟩
  rw [net_append, net_append, ← sum_credited _ (p.state.book p.asset), ← h.events] at hposts
  simp only [lockPostings, unlockPostings, funds, net_cons, net_nil, Account.mk.injEq, true_and,
    Bool.true_eq_false, if_true, if_false] at hposts
  change ((p.state.usd msg.userId).available : Int) = ((s.usd msg.userId).available : Int) + _ at hposts
  omega

/-- What is taken for a bid covers its fills and its remainder. -/
theorem Placed.covers (h : Placed s msg .bid past qty fs m resting p) :
    (p.settlement.events.map ExecutionEvent.value).sum
      + ((restingEvents msg p.asset resting).map ExecutionEvent.value).sum + p.refund ≤ p.lock := by
  have hbalanced := h.balanced
  have hvalues : (p.settlement.events.map ExecutionEvent.value).sum ≤ spentOf s.feeSchedule .bid
      (Matching.trades ⟨s.nextOrderId, msg.userId, .bid⟩ fs) := by
    rw [h.events, List.map_map, spentOf]
    apply List.sum_le_sum
    intro t _
    exact Nat.le_add_right ..
  have hheld : ((restingEvents msg p.asset resting).map ExecutionEvent.value).sum
      ≤ heldOf s.feeSchedule resting := by
    cases hrest : resting with
    | none => exact Nat.zero_le _
    | some o =>
        obtain ⟨_, price, _, rfl⟩ := h.executed.leaves o hrest
        exact Nat.le_add_right ..
  omega

end Paid

theorem paidFor_of_fits {builtins : Builtins} {s : EngineState} (hcov : s.Covered) (hv : s.Valid)
    (hword : WordSized s) {msg : OrderMsg} (hside : Side.ofString? msg.side = some .bid)
    (hfits : StepFits builtins s (.order msg)) : PaidFor builtins s msg := by
  intro checks
  obtain ⟨⟨s', outputs⟩, hrun, heffect⟩ := (handleOrder_spec builtins s hcov hv msg).ok_of_fits
    (handleOrder_fits hcov hv hword msg hfits)
  refine ⟨s', outputs, handleOrder_agrees checks s msg builtins _ hrun, ?_⟩
  generalize executions outputs = events at heffect ⊢
  cases heffect with
  | still _ _ _ hmoves =>
      have hsame : (s'.usd msg.userId).available = (s.usd msg.userId).available :=
        hmoves.toPays.holding_eq ⟨msg.userId, .usd, false⟩
      simp [hsame]
  | @order _ side fs m p bids asks hadmitted _ hplaced =>
      have hbid : side = .bid := by
        have heq := hadmitted.wellFormed.side.symm.trans hside
        simpa using heq
      subst hbid
      have havailable := hplaced.available
      have hcovers := hplaced.covers
      simp only [List.map_append, List.sum_append]
      change _ + (p.state.usd msg.userId).available ≤ _
      have hdepth : ([.depthUpdated p.asset.market bids asks].map ExecutionEvent.value).sum = 0 := rfl
      omega

/-! ### Deciding the bounds -/

instance (fees : FeeSchedule) (value : Nat) : Decidable (fees.Sized value) :=
  decidable_of_iff (value * max fees.takerFeeBps fees.makerFeeBps < 2 ^ 64 ∧
      value + fees.maxFee value < 2 ^ 64)
    ⟨fun ⟨h₁, h₂⟩ => ⟨h₁, h₂⟩, fun ⟨h₁, h₂⟩ => ⟨h₁, h₂⟩⟩

section Decide

variable (builtins : Builtins) (s : EngineState) (msg : OrderMsg) (asset : Asset) (side : Side)

instance (ps : List (Posting Account)) (k : Account) : Decidable (s.Room ps k) :=
  inferInstanceAs (Decidable (_ < _))

instance (ps : List (Posting Account)) : Decidable (s.Absorbs ps) :=
  inferInstanceAs (Decidable (∀ x ∈ ps, x.account.locked = false → s.Room ps x.account))

instance : Decidable (WellFormed msg asset side) :=
  decidable_of_iff (Asset.ofString? msg.asset = some asset ∧ Side.ofString? msg.side = some side ∧
      0 < msg.qty.toInt ∧ (msg.orderType = .limit → 0 < msg.price.toInt))
    ⟨fun ⟨h₁, h₂, h₃, h₄⟩ => ⟨h₁, h₂, h₃, h₄⟩, fun ⟨h₁, h₂, h₃, h₄⟩ => ⟨h₁, h₂, h₃, h₄⟩⟩

instance : Decidable (FallsShort builtins s msg asset side) :=
  inferInstanceAs (Decidable (_ ∧ _))

instance : Decidable (Admitted builtins s msg asset side) :=
  decidable_of_iff (WellFormed msg asset side ∧
      (msg.orderType = .market → ¬ FallsShort builtins s msg asset side) ∧
      (msg.orderType = .market → side = .bid → 0 < crossedQty builtins s msg asset side) ∧
      orderLock builtins s msg asset side ≤ s.holding ⟨msg.userId, funds side asset, false⟩)
    ⟨fun ⟨h₁, h₂, h₃, h₄⟩ => ⟨h₁, h₂, h₃, h₄⟩, fun ⟨h₁, h₂, h₃, h₄⟩ => ⟨h₁, h₂, h₃, h₄⟩⟩

instance : Decidable (OrderFits builtins s msg asset side) :=
  decidable_of_iff
    ((msg.orderType = .limit → 0 < msg.price.toInt → s.feeSchedule.Sized (limitCost msg)) ∧
      (msg.orderType = .market → side = .bid → marketCost builtins s msg asset < 2 ^ 64) ∧
      (msg.orderType = .market → side = .bid → ¬ FallsShort builtins s msg asset side →
        marketCost builtins s msg asset * s.feeSchedule.takerFeeBps < 2 ^ 64 ∧
          orderLock builtins s msg asset side < 2 ^ 64) ∧
      (Admitted builtins s msg asset side → s.nextOrderId + 1 < 2 ^ 64) ∧
      (Admitted builtins s msg asset side → s.holding ⟨msg.userId, funds side asset, true⟩
        + orderLock builtins s msg asset side < 2 ^ 64) ∧
      (Admitted builtins s msg asset side →
        s.Absorbs (journal s.feeSchedule asset (orderTrades builtins s msg asset side))) ∧
      (Admitted builtins s msg asset side →
        s.Room (journal s.feeSchedule asset (orderTrades builtins s msg asset side))
          ⟨msg.userId, funds side asset, false⟩) ∧
      (Admitted builtins s msg asset side → msg.orderType = .limit → msg.timeInForce = .gtc →
        Matching.weigh (Orderbook.levelWeight side msg.price.toInt.toNat) (s.book asset)
          + Greedy.unfilled Order.remainingQty msg.qty.toInt.toNat
            (crossedOrders builtins s msg asset side) < 2 ^ 64))
    ⟨fun ⟨h₁, h₂, h₃, h₄, h₅, h₆, h₇, h₈⟩ => ⟨h₁, h₂, h₃, h₄, h₅, h₆, h₇, h₈⟩,
      fun ⟨h₁, h₂, h₃, h₄, h₅, h₆, h₇, h₈⟩ => ⟨h₁, h₂, h₃, h₄, h₅, h₆, h₇, h₈⟩⟩

instance (msg : Msg) : Decidable (StepFits builtins s msg) :=
  match msg with
  | .onramp _ => inferInstanceAs (Decidable (_ < _))
  | .deposit _ => inferInstanceAs (Decidable (_ < _))
  | .order msg => inferInstanceAs (Decidable (∀ asset ∈ Asset.ofString? msg.asset,
      ∀ side ∈ Side.ofString? msg.side, 0 < msg.qty.toInt → OrderFits builtins s msg asset side))
  | .cancel msg => inferInstanceAs (Decidable (∀ asset ∈ Asset.all,
      ∀ o ∈ (s.book asset).orders[msg.orderId]?, o.userId = msg.userId →
        s.holding ⟨o.userId, funds o.side asset, false⟩ + o.held s.feeSchedule < 2 ^ 64))
  | .signup _ | .balance _ | .orderbook _ | .openOrders _ | .orderStatus _ | .reset _ => isTrue trivial

end Decide

/-- **Buys are paid for.** In a run whose messages all stay within the bounds, every buy that does so
too is handled without a fault in either build, and what it takes from the available USD of its owner
covers the exact value of its fills and of its remainder. -/
theorem run_buys_paid (builtins : Builtins) (fees : FeeSchedule) (msgs : List Msg)
    (hsteps : StepsMeet (StepFits builtins) (u64 true) builtins (.new fees) msgs) :
    ∃ s outputs, (∀ checks, run (u64 checks) builtins (.new fees) msgs = .ok (s, outputs)) ∧
      ∀ msg, Side.ofString? msg.side = some .bid → StepFits builtins s (.order msg) →
        PaidFor builtins s msg := by
  have hempty : WordSized (.new fees) := wordSized_of_empty (by rintro (_ | _ | _) <;> rfl)
  obtain ⟨s, outputs, hrun, hcov, hv, hword⟩ := run_fits builtins _ (covered_new fees)
    (valid_new fees) hempty msgs hsteps
  refine ⟨s, outputs, fun checks => run_agrees checks builtins _ msgs _ hrun, ?_⟩
  intro msg hside hfits
  exact paidFor_of_fits hcov hv hword hside hfits

/-- A funded bid is paid for. -/
theorem run_buys_paid_session :
    ∃ s outputs, run (u64 false) .noSlippage (.new ⟨10, 20⟩) (session.take 2)
        = .ok (s, outputs) ∧
      PaidFor .noSlippage s ⟨1, "SOL", "bid", .limit, 100, 10, none, .gtc, "q", "c"⟩ := by
  obtain ⟨s, outputs, hrun, hpaid⟩ := run_buys_paid .noSlippage ⟨10, 20⟩ (session.take 2)
    (by decide +kernel)
  obtain ⟨r, hr, hfits⟩ := exists_of_returns
    (run (u64 false) .noSlippage (.new ⟨10, 20⟩) (session.take 2))
    (fun r => decide (StepFits .noSlippage r.1
      (.order ⟨1, "SOL", "bid", .limit, 100, 10, none, .gtc, "q", "c"⟩))) (by decide +kernel)
  rw [hrun false] at hr
  cases hr
  exact ⟨s, outputs, hrun false, hpaid _ rfl (of_decide_eq_true hfits)⟩

def wideBid : OrderMsg := ⟨1, "SOL", "bid", .limit, 4294967296, 4294967296, none, .gtc, "q", "a"⟩

/-- In the empty engine the wide bid stops the checking build, and rests in the other without taking
anything from its owner, who has nothing. -/
theorem wideBid_unpaid :
    handleOrder (u64 true) (.new ⟨10, 20⟩) .noSlippage wideBid = .error .overflow ∧
      (∃ s' outputs, handleOrder (u64 false) (.new ⟨10, 20⟩) .noSlippage wideBid
          = .ok (s', outputs) ∧
        (s'.book .sol).orders[1]? = some (⟨1, 1, .bid, 2 ^ 32, 2 ^ 32⟩ : Order) ∧
        ((executions outputs).map ExecutionEvent.value).sum = 2 ^ 64 ∧
        ((executions outputs).map (ExecutionEvent.credited 1)).sum = 0 ∧ (s'.usd 1).available = 0) ∧
      ¬ PaidFor .noSlippage (.new ⟨10, 20⟩) wideBid := by
  have hover : overflowed (handleOrder (u64 true) (.new ⟨10, 20⟩) .noSlippage wideBid) = true := by
    decide +kernel
  have herror := eq_overflow_of_overflowed hover
  refine ⟨herror, ?_, ?_⟩
  · obtain ⟨⟨s', outputs⟩, hrun, htest⟩ := exists_of_returns
      (handleOrder (u64 false) (.new ⟨10, 20⟩) .noSlippage wideBid)
      (fun r => decide ((r.1.book .sol).orders[1]? = some (⟨1, 1, .bid, 2 ^ 32, 2 ^ 32⟩ : Order) ∧
        ((executions r.2).map ExecutionEvent.value).sum = 2 ^ 64 ∧
        ((executions r.2).map (ExecutionEvent.credited 1)).sum = 0 ∧ (r.1.usd 1).available = 0))
      (by decide +kernel)
    exact ⟨s', outputs, hrun, of_decide_eq_true htest⟩
  · intro hpaid
    obtain ⟨s', outputs, hrun, _⟩ := hpaid true
    rw [herror] at hrun
    cases hrun

end CexRs
