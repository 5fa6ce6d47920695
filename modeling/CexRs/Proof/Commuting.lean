import CexRs.Proof.Replies

/-!
# Orders that commute

Two orders on different markets by different users meet in the USD accounts, the treasury, the counter
of order ids, and in resting orders of the one that the other fills. What an order is answered depends on
its own book and on what its sender has available, which the other order never lowers; and what it posts
depends on its own book alone. So the order in which they are handled shows in their ids only.
-/

namespace CexRs

open FixedWidth OrderedMap Journal EngineState

/-! ### Books up to ids -/

def Order.rename (σ : Equiv.Perm Nat) (o : Order) : Order := { o with orderId := σ o.orderId }

def PriceLevel.rename (σ : Equiv.Perm Nat) (level : PriceLevel) : PriceLevel := ⟨level.orders.map σ⟩

namespace Orderbook

/-- One book is the other with its ids exchanged. The counter of a book is one past the last id that was
issued in it. -/
structure Renamed (σ : Equiv.Perm Nat) (ob ob' : Orderbook) : Prop where
  symbol : ob'.symbol = ob.symbol
  nextOrderId : ob'.nextOrderId = σ (ob.nextOrderId - 1) + 1
  levels : ∀ (side : Side) (price : Nat), (ob'.levels side)[price]?
    = (ob.levels side)[price]?.map (PriceLevel.rename σ)
  orders : ∀ id : Nat, ob'.orders[σ id]? = ob.orders[id]?.map (Order.rename σ)

section Renaming

variable {σ : Equiv.Perm Nat} {n : Nat} {ob ob' : Orderbook}

theorem map_fixed {ids : List Nat} (hfix : ∀ i < n, σ i = i) (hids : ∀ id ∈ ids, id < n) :
    ids.map σ = ids := by
  rw [List.map_congr_left fun id hid => hfix id (hids id hid)]
  exact List.map_id _

theorem Valid.queue_lt (hv : ob.Valid) (hbelow : ∀ id o, ob.orders[id]? = some o → id < n)
    {side : Side} {price : Nat} {level : PriceLevel}
    (hlevel : (ob.levels side)[price]? = some level) : ∀ id ∈ level.orders, id < n := by
  intro id hid
  obtain ⟨o, hget, _⟩ := hv.queued hlevel id hid
  exact hbelow id o hget

/-- Ids below all that are exchanged stay what they are. -/
theorem Valid.levels_fixed (hv : ob.Valid) (hbelow : ∀ id o, ob.orders[id]? = some o → id < n)
    (hfix : ∀ i < n, σ i = i) (side : Side) (price : Nat) :
    (ob.levels side)[price]?.map (PriceLevel.rename σ) = (ob.levels side)[price]? := by
  cases hlevel : (ob.levels side)[price]? with
  | none => rfl
  | some level =>
      rw [Option.map_some, PriceLevel.rename, map_fixed hfix (hv.queue_lt hbelow hlevel)]

theorem Valid.orders_fixed (hv : ob.Valid) (hbelow : ∀ id o, ob.orders[id]? = some o → id < n)
    (hfix : ∀ i < n, σ i = i) (id : Nat) :
    ob.orders[σ id]? = ob.orders[id]?.map (Order.rename σ) := by
  cases hget : ob.orders[id]? with
  | some o =>
      have hlt := hbelow id o hget
      rw [hfix id hlt, hget, Option.map_some, Order.rename, hv.orderId_eq hget, hfix id hlt,
        ← hv.orderId_eq hget]
  | none =>
      cases hget' : ob.orders[σ id]? with
      | none => rfl
      | some o =>
          have heq : σ id = id := σ.injective (hfix (σ id) (hbelow _ _ hget'))
          rw [heq, hget] at hget'
          cases hget'

/-- A book without an exchanged id, issued one and the other. -/
theorem renamed_counter (hv : ob.Valid) (hbelow : ∀ id o, ob.orders[id]? = some o → id < n)
    (hfix : ∀ i < n, σ i = i) {c : Nat} (hcounter : c = σ (ob.nextOrderId - 1) + 1) :
    Renamed σ ob { ob with nextOrderId := c } where
  symbol := rfl
  nextOrderId := hcounter
  levels side price := by
    rw [hv.levels_fixed hbelow hfix]
    cases side <;> rfl
  orders := hv.orders_fixed hbelow hfix

theorem renamed_self (hv : ob.Valid) (hbelow : ∀ id o, ob.orders[id]? = some o → id < n)
    (hfix : ∀ i < n, σ i = i) (hcounter : 0 < ob.nextOrderId ∧ ob.nextOrderId ≤ n) :
    Renamed σ ob ob := by
  apply renamed_counter hv hbelow hfix
  rw [hfix (ob.nextOrderId - 1) (by omega)]
  omega

/-- The same order, rested under one id and under the other. -/
theorem renamed_rest (hv : ob.Valid) (hbelow : ∀ id o, ob.orders[id]? = some o → id < n)
    (hfix : ∀ i < n, σ i = i) {o : Order} (hcounter : ob.nextOrderId = o.orderId + 1) :
    Renamed σ (ob.rest o) ({ ob with nextOrderId := σ o.orderId + 1 }.rest (o.rename σ)) where
  symbol := by simp [rest]
  nextOrderId := by simp [rest, hcounter]
  levels side price := by
    have hqueue : (ob.queueAt o.side o.price).map σ = ob.queueAt o.side o.price := by
      unfold queueAt
      cases hlevel : (ob.levels o.side)[o.price]? with
      | none => rfl
      | some level => exact map_fixed hfix (hv.queue_lt hbelow hlevel)
    rw [get_rest, get_rest]
    change (if side = o.side ∧ price = o.price then some ⟨ob.queueAt o.side o.price ++ [σ o.orderId]⟩
      else (ob.levels side)[price]?) = _
    split
    · rw [Option.map_some, PriceLevel.rename, List.map_append, hqueue]
      rfl
    · exact (hv.levels_fixed hbelow hfix side price).symm
  orders id := by
    rw [orders_rest, orders_rest, get_insert, get_insert]
    change (if σ o.orderId = σ id then some (o.rename σ) else ob.orders[σ id]?) = _
    by_cases hid : o.orderId = id
    · rw [if_pos hid, if_pos (congrArg σ hid)]
      rfl
    · rw [if_neg hid, if_neg fun h => hid (σ.injective h)]
      exact hv.orders_fixed hbelow hfix id

end Renaming

theorem remove_counter (ob : Orderbook) (o : Order) (c : Nat) :
    remove { ob with nextOrderId := c } o = { ob.remove o with nextOrderId := c } := by
  cases hside : o.side with
  | bid => simp [remove, queueAt, setLevels, levels, hside]
  | ask => simp [remove, queueAt, setLevels, levels, hside]

end Orderbook

/-- A match does not look at the counter of the book. -/
theorem Matching.Fills.counter {taker taker' : Taker} {past past' : Nat → Bool}
    {m m' n n' : Matching} {fs : List (Order × Nat)} {c : Nat} (h : Fills taker past m fs m')
    (h' : Fills taker' past' n fs n') (hbook : n.book = { m.book with nextOrderId := c })
    (hqty : n.remainingQty = m.remainingQty) : n'.book = { m'.book with nextOrderId := c } := by
  induction h generalizing n with
  | refl m =>
      cases h'
      exact hbook
  | @step m m' o rest fs hpos hfront hcross htail ih =>
      rw [← hqty] at h'
      cases h' with
      | step _ _ _ htail' =>
          refine ih htail' ?_ ?_
          · simp only [fill, hbook, hqty]
            split
            · exact Orderbook.remove_counter m.book o c
            · rfl
          · simp only [fill, hqty]

/-! ### What an order sees -/

structure SameMarket (asset : Asset) (s t : EngineState) : Prop where
  book : t.book asset = s.book asset
  feeSchedule : t.feeSchedule = s.feeSchedule

inductive Accepted (builtins : Builtins) (s : EngineState) (msg : OrderMsg) (asset : Asset) :
    EngineState → List Output → Prop
  | unfilled {side : Side} {s' : EngineState} (hunfilled : Unfilled builtins s msg asset side)
      (h : Moves s s' []) : Accepted builtins s msg asset s' [unfilledReply msg]
  | placed {side : Side} {fs : List (Order × Nat)} {m : Matching} {p : Placement}
      {bids asks : List (Nat × Nat)} (hasset : p.asset = asset)
      (hadmitted : Admitted builtins s msg asset side)
      (h : Placed s msg side (orderPast builtins s msg asset side) msg.qty.toInt.toNat fs m
        (remainderOf msg ⟨s.nextOrderId, msg.userId, side⟩ m) p) :
      Accepted builtins s msg asset p.state (p.settlement.events.map .execution
        ++ createdEvents msg p ++ [placedReply msg p, .execution (.depthUpdated p.asset.market bids asks)])

section Sees

variable {builtins : Builtins} {s s' t t' : EngineState} {msg : OrderMsg} {asset : Asset} {side : Side}
  {outputs : List Output}

theorem SameMarket.symm (h : SameMarket asset s t) : SameMarket asset t s :=
  ⟨h.book.symm, h.feeSchedule.symm⟩

theorem SameMarket.orderPast (h : SameMarket asset s t) (builtins : Builtins) (msg : OrderMsg)
    (side : Side) : orderPast builtins t msg asset side = orderPast builtins s msg asset side := by
  simp only [CexRs.orderPast, h.book]

theorem SameMarket.crossedOrders (h : SameMarket asset s t) (builtins : Builtins) (msg : OrderMsg)
    (side : Side) :
    crossedOrders builtins t msg asset side = crossedOrders builtins s msg asset side := by
  simp only [CexRs.crossedOrders, h.orderPast, h.book]
  rfl

theorem SameMarket.crossedQty (h : SameMarket asset s t) (builtins : Builtins) (msg : OrderMsg)
    (side : Side) : crossedQty builtins t msg asset side = crossedQty builtins s msg asset side := by
  simp only [CexRs.crossedQty, h.crossedOrders]

theorem SameMarket.orderLock (h : SameMarket asset s t) (builtins : Builtins) (msg : OrderMsg)
    (side : Side) : orderLock builtins t msg asset side = orderLock builtins s msg asset side := by
  simp only [CexRs.orderLock, marketCost, h.crossedOrders, h.feeSchedule]

theorem SameMarket.unfilled (h : SameMarket asset s t) (hunfilled : Unfilled builtins s msg asset side) :
    Unfilled builtins t msg asset side := by
  refine ⟨hunfilled.wellFormed, hunfilled.market, hunfilled.short.1, ?_⟩
  rw [h.crossedQty]
  exact hunfilled.short.2

/-- What is let through is let through where the sender has as much. -/
theorem SameMarket.admitted (h : SameMarket asset s t) (hadmitted : Admitted builtins s msg asset side)
    (hroom : s.holding ⟨msg.userId, funds side asset, false⟩
      ≤ t.holding ⟨msg.userId, funds side asset, false⟩) : Admitted builtins t msg asset side where
  wellFormed := hadmitted.wellFormed
  found hmarket hshort := hadmitted.found hmarket ⟨hshort.1, h.crossedQty builtins msg side ▸ hshort.2⟩
  liquid hmarket hside := by
    rw [h.crossedQty]
    exact hadmitted.liquid hmarket hside
  afforded := by
    rw [h.orderLock]
    exact le_trans hadmitted.afforded hroom

/-- An order is let through or falls short, and not both. -/
theorem Admitted.not_unfilled {side' : Side} (hadmitted : Admitted builtins s msg asset side)
    (hunfilled : Unfilled builtins s msg asset side') : False := by
  have hside : side = side' :=
    Option.some.inj (hadmitted.wellFormed.side.symm.trans hunfilled.wellFormed.side)
  subst hside
  exact hadmitted.found hunfilled.market hunfilled.short

theorem Accepted.noError (h : Accepted builtins s msg asset s' outputs) :
    answeredWithError outputs = false := by
  cases h with
  | unfilled => rfl
  | @placed side fs m p bids asks hasset hadmitted hplaced =>
      have hcreated : (createdEvents msg p).any Output.isError = false := by
        unfold createdEvents
        cases p.settlement.resting with
        | none => rfl
        | some accepted => rfl
      have hevents : (p.settlement.events.map Output.execution).any Output.isError = false := by
        simp [Output.isError]
      rw [answeredWithError, List.any_append, List.any_append, hevents, hcreated]
      rfl

/-- An order without an error is accepted. -/
theorem Answered.accepted (h : Answered builtins s msg s' outputs)
    (hasset : Asset.ofString? msg.asset = some asset) (hanswer : answeredWithError outputs = false) :
    Accepted builtins s msg asset s' outputs := by
  cases h with
  | refused hmoves hdeclined =>
      rcases hdeclined with ⟨⟨error, rfl⟩, _⟩ | ⟨rfl, asset', side, hunfilled⟩
      · cases hanswer
      · obtain rfl : asset' = asset :=
          Option.some.inj (hunfilled.wellFormed.asset.symm.trans hasset)
        exact .unfilled hunfilled hmoves
  | @placed side fs m p bids asks hadmitted hlock hplaced =>
      obtain rfl : p.asset = asset := Option.some.inj (hadmitted.wellFormed.asset.symm.trans hasset)
      exact .placed rfl hadmitted hplaced

/-- What is accepted in one state is accepted where the market is the same and the sender has as much. -/
theorem Accepted.transfer (h : Accepted builtins s msg asset s' outputs)
    (hmarket : SameMarket asset s t)
    (hroom : ∀ currency, s.holding ⟨msg.userId, currency, false⟩
      ≤ t.holding ⟨msg.userId, currency, false⟩) {outputs' : List Output}
    (ht : Answered builtins t msg t' outputs') : Accepted builtins t msg asset t' outputs' := by
  have hsees : ∃ side, Admitted builtins t msg asset side ∨ Unfilled builtins t msg asset side := by
    cases h with
    | unfilled hunfilled _ => exact ⟨_, .inr (hmarket.unfilled hunfilled)⟩
    | placed _ hadmitted _ => exact ⟨_, .inl (hmarket.admitted hadmitted (hroom _))⟩
  obtain ⟨side, hsees⟩ := hsees
  have hasset : Asset.ofString? msg.asset = some asset := by
    rcases hsees with hadmitted | hunfilled
    · exact hadmitted.wellFormed.asset
    · exact hunfilled.wellFormed.asset
  apply ht.accepted hasset
  cases ht with
  | refused hmoves hdeclined =>
      rcases hdeclined with ⟨_, hnot⟩ | ⟨rfl, _⟩
      · rcases hsees with hadmitted | hunfilled
        · exact absurd hadmitted (hnot asset side).1
        · exact absurd hunfilled (hnot asset side).2
      · rfl
  | placed hadmitted _ hplaced => exact (Accepted.placed rfl hadmitted hplaced).noError

end Sees

/-! ### What an order leaves to others -/

/-- No order lowers what another user has available. -/
theorem Accepted.room {builtins : Builtins} {s s' : EngineState} {msg : OrderMsg} {asset : Asset}
    {outputs : List Output} (h : Accepted builtins s msg asset s' outputs) {user : Nat}
    (huser : user ≠ msg.userId) (currency : Currency) :
    s.holding ⟨user, currency, false⟩ ≤ s'.holding ⟨user, currency, false⟩ := by
  cases h with
  | unfilled _ hmoves => exact le_of_eq (hmoves.toPays.holding_eq _).symm
  | @placed side fs m p bids asks _ hadmitted hplaced =>
      have hnet : 0 ≤ net (· = ⟨user, currency, false⟩)
          (lockPostings msg.userId (funds side p.asset) p.lock
            ++ journal s.feeSchedule p.asset (Matching.trades ⟨s.nextOrderId, msg.userId, side⟩ fs)
            ++ unlockPostings msg.userId (funds side p.asset) p.refund) := by
        apply net_nonneg
        intro x hx haccount
        rw [List.mem_append, List.mem_append] at hx
        rcases hx with (hlock | hjournal) | hunlock
        · have hother : x.account.user = msg.userId := by
            simp only [lockPostings, List.mem_cons, List.not_mem_nil, or_false] at hlock
            rcases hlock with rfl | rfl
            · rfl
            · rfl
          rw [haccount] at hother
          exact absurd hother huser
        · obtain ⟨trade, _, hposting⟩ := List.mem_flatMap.mp hjournal
          simp only [Trade.postings, List.mem_cons, List.not_mem_nil, or_false] at hposting
          rcases hposting with rfl | rfl | rfl | rfl | rfl
          · cases haccount
          · exact Int.natCast_nonneg _
          · cases haccount
          · exact Int.natCast_nonneg _
          · exact Int.natCast_nonneg _
        · have hother : x.account.user = msg.userId := by
            simp only [unlockPostings, List.mem_cons, List.not_mem_nil, or_false] at hunlock
            rcases hunlock with rfl | rfl
            · rfl
            · rfl
          rw [haccount] at hother
          exact absurd hother huser
      have hposts := hplaced.pays.posts ⟨user, currency, false⟩
      omega

/-- Nor does it touch the other books, or the fees. -/
theorem Accepted.market {builtins : Builtins} {s s' : EngineState} {msg : OrderMsg} {asset : Asset}
    {outputs : List Output} (h : Accepted builtins s msg asset s' outputs) {other : Asset}
    (hother : other ≠ asset) : SameMarket other s s' := by
  cases h with
  | unfilled _ hmoves => exact ⟨hmoves.venue.book other, hmoves.venue.feeSchedule⟩
  | placed hasset _ hplaced =>
      exact ⟨hplaced.executed.book_other other (hasset ▸ hother), hplaced.executed.feeSchedule⟩

/-! ### The same order in two states -/

def ExecutionEvent.rename (σ : Equiv.Perm Nat) : ExecutionEvent → ExecutionEvent
  | .orderCreated orderId userId market side price originalQty remainingQty status =>
      .orderCreated (σ orderId) userId market side price originalQty remainingQty status
  | .tradeExecuted makerOrderId takerOrderId buyerId sellerId market price qty quoteAmount
      makerRemainingQty takerRemainingQty buyerFee sellerFee =>
      .tradeExecuted (σ makerOrderId) (σ takerOrderId) buyerId sellerId market price qty quoteAmount
        makerRemainingQty takerRemainingQty buyerFee sellerFee
  | .orderCancelled orderId userId remainingQty => .orderCancelled (σ orderId) userId remainingQty
  | event => event

section Twins

variable {s t : EngineState} {msg : OrderMsg} {side : Side} {past : Nat → Bool} {qty n : Nat}
  {fs fs' : List (Order × Nat)} {m m' : Matching} {resting resting' : Option Order} {p p' : Placement}
  {σ : Equiv.Perm Nat}

theorem Placed.fills_eq (h : Placed s msg side past qty fs m resting p)
    (h' : Placed t msg side past qty fs' m' resting' p') (hasset : p'.asset = p.asset)
    (hmarket : SameMarket p.asset s t) : fs' = fs := by
  rw [h'.takes, h.takes, hasset, hmarket.book]
  rfl

/-- The matched books differ in their counters at most. -/
theorem Placed.matched_eq (h : Placed s msg side past qty fs m resting p)
    (h' : Placed t msg side past qty fs' m' resting' p') (hasset : p'.asset = p.asset)
    (hmarket : SameMarket p.asset s t) :
    m'.book = { m.book with nextOrderId := m'.book.nextOrderId } ∧ m'.remainingQty = m.remainingQty := by
  obtain rfl := h.fills_eq h' hasset hmarket
  have hfills := h.executed.took.fills
  have hfills' := h'.executed.took.fills
  constructor
  · rw [hfills'.nextOrderId]
    refine hfills.counter hfills' ?_ rfl
    rw [hasset, hmarket.book]
    rfl
  · have hremaining := hfills.remaining
    have hremaining' := hfills'.remaining
    simp only at hremaining hremaining'
    omega

theorem Placed.counter (h : Placed s msg side past qty fs m resting p)
    (hcounter : (s.book p.asset).nextOrderId ≤ s.nextOrderId) :
    m.book.nextOrderId = s.nextOrderId + 1 := by
  rw [h.executed.took.fills.nextOrderId]
  change max (s.book p.asset).nextOrderId (s.nextOrderId + 1) = s.nextOrderId + 1
  omega

theorem remainderOf_rename (msg : OrderMsg) (side : Side) {id id' : Nat} (hid : σ id = id')
    (hqty : m'.remainingQty = m.remainingQty) :
    remainderOf msg ⟨id', msg.userId, side⟩ m'
      = (remainderOf msg ⟨id, msg.userId, side⟩ m).map (Order.rename σ) := by
  unfold remainderOf
  cases msg.orderType with
  | market => rfl
  | limit =>
      simp only [Orderbook.remainder, hqty]
      split
      · simp [Orderbook.leftover, Order.rename, hqty, hid]
      · rfl

/-- Resting the remainder under one id or the other gives books that differ in that id. -/
theorem Placed.renamed (h : Placed s msg side past qty fs m
      (remainderOf msg ⟨s.nextOrderId, msg.userId, side⟩ m) p)
    (h' : Placed t msg side past qty fs' m' (remainderOf msg ⟨t.nextOrderId, msg.userId, side⟩ m') p')
    (hasset : p'.asset = p.asset) (hmarket : SameMarket p.asset s t) (hv : s.Valid)
    (hbelow : ∀ id o, (s.book p.asset).orders[id]? = some o → id < n) (hfix : ∀ i < n, σ i = i)
    (hcounter : (s.book p.asset).nextOrderId ≤ s.nextOrderId)
    (hcounter' : (s.book p.asset).nextOrderId ≤ t.nextOrderId)
    (hid : σ s.nextOrderId = t.nextOrderId) :
    (p.state.book p.asset).Renamed σ (p'.state.book p.asset) := by
  obtain ⟨hbook, hqty⟩ := h.matched_eq h' hasset hmarket
  have hnext := h.counter hcounter
  have hnext' := h'.counter (by rw [hasset, hmarket.book]; exact hcounter')
  have hmatched : m.book.Valid := h.executed.took.valid
  have hold : ∀ id o, m.book.orders[id]? = some o → id < n := by
    intro id o hget
    obtain ⟨o₀, hget₀, _⟩ := h.executed.took.fills.get_orders ((hv.book p.asset).issue _) hget
    exact hbelow id o₀ hget₀
  have hself : p'.state.book p.asset
      = m'.book.restAll (remainderOf msg ⟨t.nextOrderId, msg.userId, side⟩ m') := by
    rw [← hasset]
    exact h'.executed.book_self
  rw [h.executed.book_self, hself, remainderOf_rename msg side hid hqty, hbook, hnext', ← hid]
  cases hrests : remainderOf msg ⟨s.nextOrderId, msg.userId, side⟩ m with
  | none =>
      apply Orderbook.renamed_counter hmatched hold hfix
      rw [hnext, Nat.add_sub_cancel]
  | some o =>
      obtain ⟨_, price, _, rfl⟩ := h.executed.leaves o hrests
      exact Orderbook.renamed_rest hmatched hold hfix hnext

/-- The reference does not look at ids. -/
theorem settlementReference_rename (fees : FeeSchedule) (asset : Asset) (id id' user : Nat) (side : Side)
    (fs : List (Order × Nat)) (resting : Option Order) :
    settlementReference fees asset (Matching.trades ⟨id', user, side⟩ fs)
        (resting.map (Order.rename σ))
      = settlementReference fees asset (Matching.trades ⟨id, user, side⟩ fs) resting := by
  unfold settlementReference
  congr 1
  · simp only [Matching.trades, List.flatMap_map]
    congr 1
    funext f
    cases side <;> rfl
  · cases resting with
    | none => rfl
    | some o => rfl

theorem Trade.event_rename {ob ob' : Orderbook} (hrenamed : ob.Renamed σ ob') (fees : FeeSchedule)
    (asset : Asset) {id id' : Nat} (hid : σ id = id') (user : Nat) (side : Side) {f : Order × Nat}
    (hmaker : σ f.1.orderId = f.1.orderId) :
    (Matching.fillTrade ⟨id', user, side⟩ f).event fees ob' asset
      = ((Matching.fillTrade ⟨id, user, side⟩ f).event fees ob asset).rename σ := by
  have hleft : (ob'.getOrder f.1.orderId).map Order.remainingQty
      = (ob.getOrder f.1.orderId).map Order.remainingQty := by
    have hget := hrenamed.orders f.1.orderId
    rw [hmaker] at hget
    simp only [Orderbook.getOrder, hget, Option.map_map]
    rfl
  cases side with
  | bid =>
      rw [Matching.fillTrade_bid rfl, Matching.fillTrade_bid rfl]
      simp only [Trade.event, ExecutionEvent.rename, hleft, hmaker, hid]
      rfl
  | ask =>
      rw [Matching.fillTrade_ask rfl, Matching.fillTrade_ask rfl]
      simp only [Trade.event, ExecutionEvent.rename, hleft, hmaker, hid]
      rfl

end Twins

/-- Handled in two states, an order does the same up to an exchange of ids: it posts the same, leaves the
same book behind, publishes the same trades, and takes an id in both or in none. -/
structure Alike (σ : Equiv.Perm Nat) (asset : Asset) (s s' t t' : EngineState)
    (outputs outputs' : List Output) : Prop where
  holding : ∀ k, (t'.holding k : Int) - t.holding k = s'.holding k - s.holding k
  book : (s'.book asset).Renamed σ (t'.book asset)
  trades : tradeEvents outputs' = (tradeEvents outputs).map (ExecutionEvent.rename σ)

theorem Accepted.nextOrderId {builtins : Builtins} {s s' t t' : EngineState} {msg : OrderMsg}
    {asset : Asset} {outputs outputs' : List Output} (h : Accepted builtins s msg asset s' outputs)
    (h' : Accepted builtins t msg asset t' outputs') (hmarket : SameMarket asset s t) :
    s'.nextOrderId = s.nextOrderId ∧ t'.nextOrderId = t.nextOrderId ∨
      s'.nextOrderId = s.nextOrderId + 1 ∧ t'.nextOrderId = t.nextOrderId + 1 := by
  cases h with
  | unfilled hunfilled hmoves =>
      cases h' with
      | unfilled _ hmoves' => exact .inl ⟨hmoves.venue.nextOrderId, hmoves'.venue.nextOrderId⟩
      | placed _ hadmitted' _ => exact (hadmitted'.not_unfilled (hmarket.unfilled hunfilled)).elim
  | placed _ hadmitted hplaced =>
      cases h' with
      | unfilled hunfilled' _ =>
          exact (hadmitted.not_unfilled (hmarket.symm.unfilled hunfilled')).elim
      | placed _ _ hplaced' =>
          exact .inr ⟨hplaced.executed.nextOrderId, hplaced'.executed.nextOrderId⟩

theorem Accepted.alike {builtins : Builtins} {s s' t t' : EngineState} {msg : OrderMsg} {asset : Asset}
    {outputs outputs' : List Output} {σ : Equiv.Perm Nat} {n : Nat}
    (h : Accepted builtins s msg asset s' outputs) (h' : Accepted builtins t msg asset t' outputs')
    (hmarket : SameMarket asset s t) (hv : s.Valid)
    (hbelow : ∀ id o, (s.book asset).orders[id]? = some o → id < n) (hfix : ∀ i < n, σ i = i)
    (hcounter : 0 < (s.book asset).nextOrderId ∧ (s.book asset).nextOrderId ≤ n)
    (hs : n ≤ s.nextOrderId) (ht : n ≤ t.nextOrderId)
    (hid : s'.nextOrderId = s.nextOrderId + 1 → σ s.nextOrderId = t.nextOrderId) :
    Alike σ asset s s' t t' outputs outputs' := by
  cases h with
  | unfilled hunfilled hmoves =>
      cases h' with
      | unfilled _ hmoves' =>
          refine ⟨fun k => ?_, ?_, rfl⟩
          · rw [hmoves.toPays.holding_eq, hmoves'.toPays.holding_eq]
            omega
          · rw [hmoves.venue.book, hmoves'.venue.book, hmarket.book]
            exact Orderbook.renamed_self (hv.book asset) hbelow hfix hcounter
      | placed _ hadmitted' _ => exact (hadmitted'.not_unfilled (hmarket.unfilled hunfilled)).elim
  | @placed side fs m p bids asks hasset hadmitted hplaced =>
      cases h' with
      | unfilled hunfilled' _ =>
          exact (hadmitted.not_unfilled (hmarket.symm.unfilled hunfilled')).elim
      | @placed side' fs' m' p' bids' asks' hasset' hadmitted' hplaced' =>
          subst hasset
          obtain rfl : side' = side :=
            Option.some.inj (hadmitted'.wellFormed.side.symm.trans hadmitted.wellFormed.side)
          rw [hmarket.orderPast] at hplaced'
          have hid := hid hplaced.executed.nextOrderId
          have hrenamed := hplaced.renamed hplaced' hasset' hmarket hv hbelow hfix
            (hcounter.2.trans hs) (hcounter.2.trans ht) hid
          have hqty := (hplaced.matched_eq hplaced' hasset' hmarket).2
          obtain rfl := hplaced.fills_eq hplaced' hasset' hmarket
          refine ⟨fun k => ?_, hrenamed, ?_⟩
          · have hposts := hplaced.posts_reference k
            have hposts' := hplaced'.posts_reference k
            rw [remainderOf_rename msg side' hid hqty, hasset', hmarket.feeSchedule,
              settlementReference_rename _ _ s.nextOrderId] at hposts'
            omega
          · rw [tradeEvents_placed hplaced.resting hplaced.reports,
              tradeEvents_placed hplaced'.resting hplaced'.reports, hplaced.events, hplaced'.events,
              hasset', hmarket.feeSchedule, List.map_map]
            unfold Matching.trades
            rw [List.map_map, List.map_map]
            apply List.map_congr_left
            intro f hf
            apply Trade.event_rename hrenamed _ _ hid
            apply hfix
            exact hbelow _ _ (hplaced.executed.took.fills.mem ((hv.book p.asset).issue _) hf).1

/-! ### Counters -/

/-- The counter of a book has been moved on from its start, and no further than that of the engine. -/
def Counted (s : EngineState) : Prop :=
  ∀ asset, 0 < (s.book asset).nextOrderId ∧ (s.book asset).nextOrderId ≤ s.nextOrderId

theorem Orderbook.nextOrderId_restAll (ob : Orderbook) (resting : Option Order) :
    (ob.restAll resting).nextOrderId = ob.nextOrderId := by
  cases resting <;> simp [restAll, rest]

theorem counted_new (fees : FeeSchedule) : Counted (.new fees) := by
  rintro (_ | _ | _) <;> exact ⟨Nat.one_pos, le_rfl⟩

theorem Counted.of_same {s s' : EngineState} (h : Counted s) (hsame : SameVenue s s') : Counted s' := by
  intro asset
  rw [hsame.book, hsame.nextOrderId]
  exact h asset

theorem Effect.counted {builtins : Builtins} {s s' : EngineState} {msg : Msg}
    {events : List ExecutionEvent} (h : Effect builtins s msg s' events) (hcounted : Counted s) :
    Counted s' := by
  cases h with
  | still _ _ _ hmoves => exact hcounted.of_same hmoves.venue
  | onramp hmoves => exact hcounted.of_same hmoves.venue
  | deposit hmoves => exact hcounted.of_same hmoves.venue
  | @order msg side fs m p bids asks _ _ hplaced =>
      intro asset
      obtain ⟨hpos, hle⟩ := hcounted asset
      rw [hplaced.executed.nextOrderId]
      by_cases hasset : asset = p.asset
      · subst hasset
        rw [hplaced.executed.book_self, Orderbook.nextOrderId_restAll, hplaced.counter hle]
        omega
      · rw [hplaced.executed.book_other asset hasset]
        omega
  | @cancel msg s' asset o bids asks _ _ hvenue _ =>
      refine Counted.of_same (fun asset' => ?_) hvenue
      have hremoved : ((s.book asset).remove o).nextOrderId = (s.book asset).nextOrderId := by
        simp [Orderbook.remove]
      by_cases hasset : asset' = asset
      · subst hasset
        rw [book_setBook_self, hremoved, nextOrderId_setBook]
        exact hcounted asset'
      · rw [book_setBook_of_ne _ _ _ hasset, nextOrderId_setBook]
        exact hcounted asset'
  | reset => rintro (_ | _ | _) <;> exact ⟨Nat.one_pos, le_rfl⟩

theorem Runs.counted {builtins : Builtins} {s s' : EngineState} {msgs : List Msg}
    {events : List ExecutionEvent} (h : Runs builtins s msgs s' events) (hcounted : Counted s) :
    Counted s' := by
  induction h with
  | nil => exact hcounted
  | cons _ _ heffect _ ih => exact ih (heffect.counted hcounted)

/-! ### Two orders -/

def Welcome (builtins : Builtins) (s : EngineState) (msg : OrderMsg) : Prop :=
  ∀ s' outputs, handleOrder (u64 true) s builtins msg = .ok (s', outputs) →
    answeredWithError outputs = false

/-- The exchange of the next two ids, if both have been assigned. -/
def exchange (s s' : EngineState) : Equiv.Perm Nat :=
  if s'.nextOrderId = s.nextOrderId + 2 then Equiv.swap s.nextOrderId (s.nextOrderId + 1) else 1

theorem exchange_fixed (s s' : EngineState) : ∀ i < s.nextOrderId, exchange s s' i = i := by
  intro i hi
  unfold exchange
  split
  · exact Equiv.swap_apply_of_ne_of_ne (by omega) (by omega)
  · rfl

/-- Two orders after one another, in the checking build. -/
theorem handle_two {builtins : Builtins} {s : EngineState} {msg₁ msg₂ : OrderMsg} (hcov : s.Covered)
    (hv : s.Valid) (hfits : run (u64 true) builtins s [.order msg₁, .order msg₂] ≠ .error .overflow) :
    ∃ s₁ s₂ outputs₁ outputs₂,
      handleOrder (u64 true) s builtins msg₁ = .ok (s₁, outputs₁) ∧
      handleOrder (u64 true) s₁ builtins msg₂ = .ok (s₂, outputs₂) ∧
      Answered builtins s msg₁ s₁ outputs₁ ∧ Answered builtins s₁ msg₂ s₂ outputs₂ ∧ s₁.Valid := by
  obtain ⟨r, hrun, _⟩ := (run_runs builtins s hcov hv _).ok_of_fits hfits
  obtain ⟨⟨s₁, outputs₁⟩, hfirst, hrun⟩ := bind_ok hrun
  obtain ⟨⟨s₂, outputs⟩, hrun, _⟩ := bind_ok hrun
  obtain ⟨⟨s₃, outputs₂⟩, hsecond, _⟩ := bind_ok hrun
  have hanswered := (handleOrder_answers builtins s hcov hv msg₁).of_ok hfirst
  have hcov₁ := hanswered.effect.covered hcov hv
  have hv₁ := hanswered.effect.valid hv
  have hanswered₂ := (handleOrder_answers builtins s₁ hcov₁ hv₁ msg₂).of_ok hsecond
  exact ⟨s₁, s₃, outputs₁, outputs₂, hfirst, hsecond, hanswered, hanswered₂, hv₁⟩

structure Commutes (σ : Equiv.Perm Nat) (s₁₂ s₂₁ : EngineState) : Prop where
  balance : ∀ user currency, s₂₁.balance user currency = s₁₂.balance user currency
  book : ∀ asset, (s₁₂.book asset).Renamed σ (s₂₁.book asset)

/-- **Independent orders commute.** In a state that a run reaches, take two orders on different assets by
different users, of which neither is answered with an error. In either order of handling, in both builds
and as long as nothing overflows, neither is answered with an error, both make the same trades, and
balances and books come out the same, up to an exchange of the two ids that were assigned. -/
theorem run_orders_commute (builtins : Builtins) (fees : FeeSchedule) (msgs : List Msg)
    (hover : run (u64 true) builtins (.new fees) msgs ≠ .error .overflow) :
    ∃ s outputs, (∀ checks, run (u64 checks) builtins (.new fees) msgs = .ok (s, outputs)) ∧
      ∀ (msg₁ msg₂ : OrderMsg) (a b : Asset), Asset.ofString? msg₁.asset = some a →
        Asset.ofString? msg₂.asset = some b → a ≠ b → msg₁.userId ≠ msg₂.userId →
        Welcome builtins s msg₁ → Welcome builtins s msg₂ →
        run (u64 true) builtins s [.order msg₁, .order msg₂] ≠ .error .overflow →
        run (u64 true) builtins s [.order msg₂, .order msg₁] ≠ .error .overflow →
        ∃ s₁ s₁₂ outputs₁ outputs₂ s₂ s₂₁ outputs₂' outputs₁',
          (∀ checks, handleOrder (u64 checks) s builtins msg₁ = .ok (s₁, outputs₁) ∧
            handleOrder (u64 checks) s₁ builtins msg₂ = .ok (s₁₂, outputs₂) ∧
            handleOrder (u64 checks) s builtins msg₂ = .ok (s₂, outputs₂') ∧
            handleOrder (u64 checks) s₂ builtins msg₁ = .ok (s₂₁, outputs₁')) ∧
          (∀ answer ∈ [outputs₁, outputs₂, outputs₂', outputs₁'], answeredWithError answer = false) ∧
          tradeEvents outputs₁'
            = (tradeEvents outputs₁).map (ExecutionEvent.rename (exchange s s₁₂)) ∧
          tradeEvents outputs₂'
            = (tradeEvents outputs₂).map (ExecutionEvent.rename (exchange s s₁₂)) ∧
          Commutes (exchange s s₁₂) s₁₂ s₂₁ := by
  obtain ⟨s, outputs, hrun, hruns⟩ := runs_of_ne_overflow hover
  obtain ⟨hcov, hv⟩ := hruns.covered
  have hcounted := hruns.counted (counted_new fees)
  refine ⟨s, outputs, hrun, ?_⟩
  intro msg₁ msg₂ a b ha hb hne husers hwelcome₁ hwelcome₂ hfits₁₂ hfits₂₁
  obtain ⟨s₁, s₁₂, outputs₁, outputs₂, hh₁, hh₁₂, hanswer₁, hanswer₁₂, hv₁⟩ :=
    handle_two hcov hv hfits₁₂
  obtain ⟨s₂, s₂₁, outputs₂', outputs₁', hh₂, hh₂₁, hanswer₂, hanswer₂₁, _⟩ :=
    handle_two hcov hv hfits₂₁
  -- each order is accepted in `s`, and so after the other one
  have hfirst := hanswer₁.accepted ha (hwelcome₁ _ _ hh₁)
  have hfirst' := hanswer₂.accepted hb (hwelcome₂ _ _ hh₂)
  have hmarket₁ : SameMarket b s s₁ := hfirst.market hne.symm
  have hmarket₂ : SameMarket a s s₂ := hfirst'.market hne
  have hsecond := hfirst'.transfer hmarket₁ (hfirst.room husers.symm) hanswer₁₂
  have hsecond' := hfirst.transfer hmarket₂ (hfirst'.room husers) hanswer₂₁
  -- the ids that they are assigned
  have hids₁ := hfirst.nextOrderId hsecond' hmarket₂
  have hids₂ := hfirst'.nextOrderId hsecond hmarket₁
  have hfix := exchange_fixed s s₁₂
  have hid₁ : s₁.nextOrderId = s.nextOrderId + 1 → exchange s s₁₂ s.nextOrderId = s₂.nextOrderId := by
    intro htaken
    unfold exchange
    split
    · rw [Equiv.swap_apply_left]
      omega
    · change s.nextOrderId = s₂.nextOrderId
      omega
  have hid₂ : s₁₂.nextOrderId = s₁.nextOrderId + 1 → exchange s s₁₂ s₁.nextOrderId = s.nextOrderId := by
    intro htaken
    unfold exchange
    split
    · rw [show s₁.nextOrderId = s.nextOrderId + 1 by omega, Equiv.swap_apply_right]
    · change s₁.nextOrderId = s.nextOrderId
      omega
  have halike₁ := hfirst.alike hsecond' hmarket₂ hv (fun id o hget => hv.below hget) hfix (hcounted a)
    le_rfl (by omega) hid₁
  have halike₂ := hsecond.alike hfirst' hmarket₁.symm hv₁
    (fun id o hget => hv.below (hmarket₁.book ▸ hget)) hfix (hmarket₁.book ▸ hcounted b) (by omega)
    le_rfl hid₂
  refine ⟨s₁, s₁₂, outputs₁, outputs₂, s₂, s₂₁, outputs₂', outputs₁', fun checks => ?_, ?_,
    halike₁.trades, halike₂.trades, ?_, ?_⟩
  · exact ⟨handleOrder_agrees checks s _ builtins _ hh₁, handleOrder_agrees checks s₁ _ builtins _ hh₁₂,
      handleOrder_agrees checks s _ builtins _ hh₂, handleOrder_agrees checks s₂ _ builtins _ hh₂₁⟩
  · intro answer hanswer
    simp only [List.mem_cons, List.not_mem_nil, or_false] at hanswer
    rcases hanswer with rfl | rfl | rfl | rfl
    · exact hfirst.noError
    · exact hsecond.noError
    · exact hfirst'.noError
    · exact hsecond'.noError
  · apply balance_eq_of_holding
    intro k
    have hposts₁ := halike₁.holding k
    have hposts₂ := halike₂.holding k
    omega
  · intro asset
    by_cases hasset : asset = a
    · subst hasset
      rw [(hsecond.market hne).book]
      exact halike₁.book
    · by_cases hasset' : asset = b
      · subst hasset'
        rw [(hsecond'.market hasset).book]
        exact halike₂.book
      · rw [(hsecond.market hasset').book, (hfirst.market hasset).book, (hsecond'.market hasset).book,
          (hfirst'.market hasset').book]
        exact Orderbook.renamed_self (hv.book asset) (fun id o hget => hv.below hget) hfix
          (hcounted asset)

def offers : List Msg :=
  [.onramp ⟨1, 2000, "q", "a"⟩, .onramp ⟨2, 2000, "q", "b"⟩, .deposit ⟨2, "sol", 10, "q", "c"⟩,
    .deposit ⟨1, "btc", 10, "q", "d"⟩, .order ⟨2, "SOL", "ask", .limit, 100, 4, none, .gtc, "q", "e"⟩,
    .order ⟨1, "BTC", "ask", .limit, 50, 3, none, .gtc, "q", "f"⟩]

def solBid : OrderMsg := ⟨1, "SOL", "bid", .limit, 100, 6, none, .gtc, "q", "g"⟩

def btcBid : OrderMsg := ⟨2, "BTC", "bid", .limit, 50, 5, none, .gtc, "q", "h"⟩

theorem welcome_of_returns {builtins : Builtins} {s : EngineState} {msg : OrderMsg}
    (h : returns (fun r => !answeredWithError r.2) (handleOrder (u64 true) s builtins msg) = true) :
    Welcome builtins s msg := by
  intro s' outputs hhandle
  obtain ⟨r, hr, htest⟩ := exists_of_returns _ _ h
  rw [hhandle] at hr
  cases hr
  simpa using htest

theorem run_orders_commute_offers :
    ∃ s s₁ s₁₂ s₂ s₂₁ outputs₁ outputs₂ outputs₂' outputs₁',
      handleOrder (u64 false) s .noSlippage solBid = .ok (s₁, outputs₁) ∧
      handleOrder (u64 false) s₁ .noSlippage btcBid = .ok (s₁₂, outputs₂) ∧
      handleOrder (u64 false) s .noSlippage btcBid = .ok (s₂, outputs₂') ∧
      handleOrder (u64 false) s₂ .noSlippage solBid = .ok (s₂₁, outputs₁') ∧
      s₁₂.nextOrderId = s.nextOrderId + 2 ∧ Commutes (exchange s s₁₂) s₁₂ s₂₁ := by
  obtain ⟨s, outputs, hrun, hcommute⟩ := run_orders_commute .noSlippage ⟨10, 20⟩ offers
    (ne_overflow_of_overflowed (by decide +kernel))
  obtain ⟨r, hr, htest⟩ := exists_of_returns
    (run (u64 true) .noSlippage (.new ⟨10, 20⟩) offers)
    (fun r => returns (fun r' => !answeredWithError r'.2)
        (handleOrder (u64 true) r.1 .noSlippage solBid) &&
      returns (fun r' => !answeredWithError r'.2)
        (handleOrder (u64 true) r.1 .noSlippage btcBid) &&
      returns (fun r' : EngineState × List Output => decide (r'.1.nextOrderId = r.1.nextOrderId + 2))
        (run (u64 true) .noSlippage r.1 [.order solBid, .order btcBid]) &&
      !overflowed (run (u64 true) .noSlippage r.1 [.order btcBid, .order solBid]))
    (by decide +kernel)
  rw [hrun true] at hr
  cases hr
  simp only [Bool.and_eq_true, Bool.not_eq_true'] at htest
  obtain ⟨⟨⟨hsol, hbtc⟩, hboth⟩, hfits⟩ := htest
  obtain ⟨r, hr, hnext⟩ := exists_of_returns _ _ hboth
  obtain ⟨s₁, s₁₂, outputs₁, outputs₂, s₂, s₂₁, outputs₂', outputs₁', hhandle, _, _, _, hcommutes⟩ :=
    hcommute solBid btcBid .sol .btc (by decide) (by decide) (by decide) (by decide)
      (welcome_of_returns hsol) (welcome_of_returns hbtc) (by rw [hr]; simp)
      (ne_overflow_of_overflowed hfits)
  have hpair : run (u64 true) .noSlippage s [.order solBid, .order btcBid]
      = .ok (s₁₂, outputs₁ ++ (outputs₂ ++ [])) := by
    simp only [run, handle, (hhandle true).1, (hhandle true).2.1, ok_bind]
    rfl
  rw [hpair] at hr
  cases hr
  exact ⟨s, s₁, s₁₂, s₂, s₂₁, outputs₁, outputs₂, outputs₂', outputs₁', (hhandle false).1,
    (hhandle false).2.1, (hhandle false).2.2.1, (hhandle false).2.2.2,
    of_decide_eq_true hnext, hcommutes⟩

end CexRs
