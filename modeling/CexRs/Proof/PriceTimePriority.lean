import CexRs.Proof.Matching

/-!
# Price-time priority

What an incoming order does to a valid book, limit or market. The reference is flat: the opposite side
is one list, best price first and first come first served within a price, cut at the first price the
order does not cross, and the order is allocated to it greedily.
-/

namespace CexRs

open FixedWidth OrderedMap

namespace Orderbook

def leftover (taker : Taker) (price : Nat) (m : Matching) : Order :=
  { orderId := taker.orderId, userId := taker.userId, side := taker.side, price,
    remainingQty := m.remainingQty }

/-- What a limit order leaves to rest: its remainder, if there is one and the order is GTC. -/
def remainder (taker : Taker) (price : Nat) (tif : TimeInForce) (m : Matching) : Option Order :=
  if 0 < m.remainingQty ∧ tif = .gtc then some (leftover taker price m) else none

def accepted (o : Order) : OrderAccepted :=
  { orderId := o.orderId, userId := o.userId, side := o.side, price := o.price,
    remainingQty := o.remainingQty }

def restAll (ob : Orderbook) (resting : Option Order) : Orderbook :=
  resting.elim ob ob.rest

def outcome (trades : List Trade) (resting : Option Order) : List MatchResult :=
  trades.map .trade ++ (resting.map fun o => MatchResult.orderAccepted (accepted o)).toList

def countTo (ob : Orderbook) (next : Nat) : Orderbook :=
  { ob with nextOrderId := max ob.nextOrderId next }

abbrev issue (ob : Orderbook) (orderId : Nat) : Orderbook := ob.countTo (orderId + 1)

section CountTo

variable {ob : Orderbook} {next : Nat} {side : Side}

@[simp] theorem orders_countTo : (ob.countTo next).orders = ob.orders := rfl

@[simp] theorem levels_countTo : (ob.countTo next).levels side = ob.levels side := by
  cases side <;> rfl

@[simp] theorem walk_countTo : (ob.countTo next).walk side = ob.walk side := by
  cases side <;> rfl

@[simp] theorem queueOrders_countTo (level : PriceLevel) :
    (ob.countTo next).queueOrders level = ob.queueOrders level := rfl

@[simp] theorem weigh_countTo (w : Order → Nat) :
    Matching.weigh w (ob.countTo next) = Matching.weigh w ob := rfl

@[simp] theorem priority_countTo : (ob.countTo next).priority side = ob.priority side := by
  simp [priority]

@[simp] theorem reach_countTo (taker : Taker) (past : Nat → Bool) :
    Matching.reach taker past (ob.countTo next) = Matching.reach taker past ob := by
  simp [Matching.reach]

@[simp] theorem beyond_countTo (taker : Taker) (past : Nat → Bool) :
    Matching.beyond taker past (ob.countTo next) = Matching.beyond taker past ob := by
  simp [Matching.beyond]

theorem Valid.countTo (hv : ob.Valid) (next : Nat) : (ob.countTo next).Valid := by
  constructor
  · intro side price level hlevel
    exact hv.queued (by simpa using hlevel)
  · intro id o hget
    obtain ⟨level, hlevel, hmem⟩ := hv.listed hget
    exact ⟨level, by simpa using hlevel, hmem⟩
  · intro side price level hlevel
    exact hv.nonempty (by simpa using hlevel)
  · intro id o hget
    exact hv.positive hget
  · intro side price level hlevel
    exact hv.increasing (by simpa using hlevel)

theorem Valid.issue (hv : ob.Valid) (orderId : Nat) : (ob.issue orderId).Valid := hv.countTo _

end CountTo

/-! ### Faults of the liquidity queries -/

section Scan

variable (A : Arith) (ob : Orderbook) {allow : Fault → Prop} {σ : Type}
  {visit : σ → Nat → Order → Except Fault (σ × Bool)}

theorem scanQueue_faults (hvisit : ∀ acc price o, Meets allow (visit acc price o) fun _ => True)
    (price : Nat) (ids : List Nat) (acc : σ) :
    Meets allow (ob.scanQueue visit price ids acc) fun _ => True := by
  induction ids generalizing acc with
  | nil => trivial
  | cons id ids ih =>
      unfold scanQueue
      split
      · exact ih acc
      · refine (hvisit _ _ _).bind fun ⟨acc, done⟩ _ => ?_
        cases done with
        | true => trivial
        | false => exact ih acc

theorem scanLevels_faults (hvisit : ∀ acc price o, Meets allow (visit acc price o) fun _ => True)
    (past : Nat → Bool) (levels : List (Nat × PriceLevel)) (acc : σ) :
    Meets allow (ob.scanLevels visit past levels acc) fun _ => True := by
  induction levels generalizing acc with
  | nil => trivial
  | cons e levels ih =>
      unfold scanLevels
      split
      · trivial
      · refine (scanQueue_faults ob hvisit _ _ _).bind fun ⟨acc, done⟩ _ => ?_
        cases done with
        | true => trivial
        | false => exact ih acc

theorem canFillQuantity_faults (side : Side) (price qty : Nat) :
    Meets Overflows (ob.canFillQuantity A side price qty) fun _ => True := by
  unfold canFillQuantity
  split
  · trivial
  · refine (scanLevels_faults ob (fun acc price o => ?_) _ _ _).bind fun r _ => ?_
    · exact (meets_wrap A _).bind fun _ _ => trivial
    · trivial

theorem quoteCostForMarketBuy_faults (qty : Nat) (worst : Option Nat) :
    Meets Overflows (ob.quoteCostForMarketBuy A qty worst) fun _ => True := by
  unfold quoteCostForMarketBuy
  refine (scanLevels_faults ob (fun acc price o => ?_) _ _ _).bind fun r _ => ?_
  · refine (meets_wrap A _).bind fun _ _ => ?_
    refine (meets_wrap A _).bind fun _ _ => ?_
    exact (meets_wrap A _).bind fun _ _ => trivial
  · trivial

theorem fillableQtyForMarketSell_faults (qty : Nat) (worst : Option Nat) :
    Meets Overflows (ob.fillableQtyForMarketSell A qty worst) fun _ => True := by
  unfold fillableQtyForMarketSell
  refine (scanLevels_faults ob (fun acc price o => ?_) _ _ _).bind fun r _ => ?_
  · exact (meets_wrap A _).bind fun _ _ => trivial
  · trivial

theorem getState_faults : Meets Overflows (ob.getState A) fun _ => True := by
  have hlevels : ∀ levels, Meets Overflows (ob.snapshotLevels A levels) fun _ => True := by
    intro levels
    refine meets_mapM fun e _ => ?_
    have hqty : Meets Overflows (ob.levelQty A e.2) fun _ => True :=
      meets_foldlM trivial fun acc _ x _ => meets_wrap A _
    exact hqty.bind fun _ _ => trivial
  unfold getState
  refine (hlevels _).bind fun _ _ => ?_
  exact (hlevels _).bind fun _ _ => trivial

end Scan

/-! ### The order operations as matches -/

structure Matched (ob : Orderbook) (taker : Taker) (past : Nat → Bool) (qty : Nat)
    (fs : List (Order × Nat)) (m : Matching) : Prop where
  fills : Matching.Fills taker past { book := ob, remainingQty := qty, results := [] } fs m
  valid : m.book.Valid
  stopped : Matching.Stopped taker past m

structure Took (ob : Orderbook) (taker : Taker) (past : Nat → Bool) (qty : Nat)
    (fs : List (Order × Nat)) (m : Matching) : Prop where
  fills : Matching.Fills taker past
    { book := ob.issue taker.orderId, remainingQty := qty, results := [] } fs m
  valid : m.book.Valid
  greedy : fs = [] ∨ fs = Greedy.fills Order.remainingQty qty (Matching.reach taker past ob)

theorem Matched.took {ob : Orderbook} {taker : Taker} {past : Nat → Bool} {qty : Nat}
    {fs : List (Order × Nat)} {m : Matching} (hv : ob.Valid)
    (hm : Matched (ob.issue taker.orderId) taker past qty fs m) : Took ob taker past qty fs m := by
  refine ⟨hm.fills, hm.valid, Or.inr ?_⟩
  have h := (hm.fills.greedy (hv.issue _) hm.stopped).1
  simpa using h

section Operations

variable {A : Arith} {ob : Orderbook} (hv : ob.Valid) (orderId userId : Nat) (side : Side)

include hv

/-- A limit order that is not killed runs its match and rests what remains if it is GTC. -/
theorem addOrderWithId_eq {next : Nat} (hadd : A.add orderId 1 = .ok next) {price qty : Nat}
    (hprice : 0 < price) (hqty : 0 < qty) :
    ∃ fs m, Matched (ob.countTo next) ⟨orderId, userId, side⟩ (pastLimit side price) qty fs m ∧
      ∀ tif, ob.addOrderWithId A orderId userId side price qty tif =
        (if tif = .fok then (ob.countTo next).canFillQuantity A side price qty else pure true) >>=
          fun fillable =>
            if fillable = false then .ok (ob.countTo next, .ok [])
            else .ok (m.book.restAll (remainder ⟨orderId, userId, side⟩ price tif m),
              .ok (outcome m.results (remainder ⟨orderId, userId, side⟩ price tif m))) := by
  obtain ⟨fs, m, hrun, hfills, hvalid, hstop⟩ := Matching.matchOrder_spec (hv.countTo next)
    ⟨orderId, userId, side⟩ (pastLimit side price) qty
  refine ⟨fs, m, ⟨hfills, hvalid, hstop⟩, fun tif => ?_⟩
  unfold countTo at hrun
  unfold addOrderWithId countTo
  rw [hadd, ok_bind, if_neg (by omega), if_neg (by omega)]
  simp only [hrun]
  have hplace : (do
      let m ← Except.ok m
      if 0 < m.remainingQty ∧ tif = .gtc then
        pure (m.book.rest { orderId, userId, side, price, remainingQty := m.remainingQty },
          Except.ok (m.results.map MatchResult.trade ++ [.orderAccepted
            { orderId, userId, side, price, remainingQty := m.remainingQty }]))
      else pure (m.book, Except.ok (m.results.map MatchResult.trade)) :
        Except Fault (Orderbook × Except OrderbookError (List MatchResult)))
      = .ok (m.book.restAll (remainder ⟨orderId, userId, side⟩ price tif m),
        .ok (outcome m.results (remainder ⟨orderId, userId, side⟩ price tif m))) := by
    unfold remainder
    by_cases hrest : 0 < m.remainingQty ∧ tif = .gtc
    · simp [hrest, outcome, restAll, leftover, accepted, bind, Except.bind, pure, Except.pure]
    · simp [hrest, outcome, restAll, bind, Except.bind, pure, Except.pure]
  rw [hplace]
  split <;> rfl

/-- The loops of a market order are those of a limit order with another stop, so it runs the match up to
its worst price. -/
theorem executeMarketOrderWithId_eq {next : Nat} (hadd : A.add orderId 1 = .ok next) {qty : Nat}
    (hqty : 0 < qty) (worst : Option Nat) :
    ∃ fs m, Matched (ob.countTo next) ⟨orderId, userId, side⟩ (pastWorst side worst) qty fs m ∧
      ob.executeMarketOrderWithId A orderId userId side qty worst
        = .ok (m.book, .ok (outcome m.results none)) := by
  obtain ⟨fs, m, hrun, hfills, hvalid, hstop⟩ := Matching.matchOrder_spec (hv.countTo next)
    ⟨orderId, userId, side⟩ (pastWorst side worst) qty
  rw [← Matching.matchMarketOrder_eq] at hrun
  refine ⟨fs, m, ⟨hfills, hvalid, hstop⟩, ?_⟩
  unfold countTo at hrun
  unfold executeMarketOrderWithId
  rw [hadd, ok_bind, if_neg (by omega)]
  simp [hrun, outcome, bind, Except.bind, pure, Except.pure]

/-- What the search for liquidity says about a limit order: only a fill-or-kill order can be killed. -/
def Found (A : Arith) (ob : Orderbook) (side : Side) (price qty : Nat) (tif : TimeInForce)
    (found : Bool) : Prop :=
  (tif = .fok → ob.canFillQuantity A side price qty = .ok found) ∧ (tif ≠ .fok → found = true)

/-- Whatever its time in force, a limit order is a sequence of fills, none if it is killed and up to
where the match stops if it is not, followed by its remainder resting; the only fault is an overflow
while its liquidity is summed up. -/
theorem addOrderWithId_spec (hid : orderId + 1 < 2 ^ A.bits) {price qty : Nat} (hprice : 0 < price)
    (hqty : 0 < qty) (tif : TimeInForce) :
    Meets Overflows (ob.addOrderWithId A orderId userId side price qty tif) fun r =>
      ∃ found fs m, Found A (ob.issue orderId) side price qty tif found ∧
        Took ob ⟨orderId, userId, side⟩ (pastLimit side price) qty fs m ∧
        (found = true → Matching.Stopped ⟨orderId, userId, side⟩ (pastLimit side price) m) ∧
        (found = false → fs = []) ∧
        r = (m.book.restAll (remainder ⟨orderId, userId, side⟩ price tif m),
          .ok (outcome m.results (remainder ⟨orderId, userId, side⟩ price tif m))) := by
  obtain ⟨fs, m, hm, hrun⟩ :=
    addOrderWithId_eq hv orderId userId side (A.add_of_lt hid) hprice hqty
  rw [hrun]
  have hfound : Meets Overflows (if tif = .fok then
      (ob.issue orderId).canFillQuantity A side price qty else pure true)
      fun found => Found A (ob.issue orderId) side price qty tif found := by
    split
    · next hfok =>
        exact (canFillQuantity_faults A _ _ _ _).imp fun found hrun _ =>
          ⟨fun _ => hrun, fun h => absurd hfok h⟩
    · next hfok => exact ⟨fun h => absurd h hfok, fun _ => rfl⟩
  refine hfound.bind fun found hdecided => ?_
  by_cases hkilled : found = false
  · subst hkilled
    have hfok : tif = .fok := by
      by_contra h
      exact Bool.noConfusion (hdecided.2 h)
    refine ⟨false, [], ⟨ob.issue orderId, qty, []⟩, hdecided,
      ⟨.refl _, hv.issue orderId, Or.inl rfl⟩, by simp, fun _ => rfl, ?_⟩
    simp [remainder, hfok, restAll, outcome]
  · rw [if_neg hkilled]
    exact ⟨found, fs, m, hdecided, hm.took hv, fun _ => hm.stopped, fun h => absurd h hkilled, rfl⟩

end Operations

/-! ### The reference -/

theorem opposite_ne (side : Side) : side.opposite ≠ side := by
  cases side <;> simp [Side.opposite]

theorem side_cases (side side' : Side) : side' = side.opposite ∨ side' = side := by
  cases side <;> cases side' <;> simp [Side.opposite]

theorem Valid.get_levels {ob : Orderbook} (hv : ob.Valid) (side : Side) (price : Nat) :
    (ob.levels side)[price]?
      = if ob.queueAt side price = [] then none else some ⟨ob.queueAt side price⟩ := by
  cases hlevel : (ob.levels side)[price]? with
  | none => simp [queueAt, hlevel]
  | some level =>
      have hne := hv.nonempty hlevel
      simp [queueAt, hlevel, hne]

theorem Valid.get_orders_iff {ob : Orderbook} (hv : ob.Valid) (side : Side) (id : Nat) (o : Order) :
    ob.orders[id]? = some o
      ↔ o.orderId = id ∧ (o ∈ ob.priority side.opposite ∨ o ∈ ob.priority side) := by
  constructor
  · intro hget
    have hid := hv.orderId_eq hget
    subst hid
    refine ⟨rfl, ?_⟩
    rcases side_cases side o.side with hside | hside
    · exact Or.inl (hv.mem_priority.mpr ⟨hget, hside⟩)
    · exact Or.inr (hv.mem_priority.mpr ⟨hget, hside⟩)
  · rintro ⟨rfl, hmem | hmem⟩
    · exact (hv.mem_priority.mp hmem).1
    · exact (hv.mem_priority.mp hmem).1

theorem levels_restAll_of_ne {ob : Orderbook} {resting : Option Order} {side : Side}
    (h : ∀ o, resting = some o → side ≠ o.side) :
    (ob.restAll resting).levels side = ob.levels side := by
  cases resting with
  | none => rfl
  | some o => exact levels_rest_of_ne (h o rfl)

theorem get_orders_restAll {ob : Orderbook} {resting : Option Order}
    (hfresh : ∀ o, resting = some o → ob.orders[o.orderId]? = none) (id : Nat) (o : Order) :
    (ob.restAll resting).orders[id]? = some o
      ↔ ob.orders[id]? = some o ∨ (o.orderId = id ∧ resting = some o) := by
  cases resting with
  | none => simp [restAll]
  | some x =>
      simp only [restAll, Option.elim_some, orders_rest, get_insert, Option.some.injEq]
      by_cases hid : x.orderId = id
      · subst hid
        rw [if_pos rfl, hfresh x rfl]
        constructor
        · rintro ⟨rfl⟩
          exact Or.inr ⟨rfl, rfl⟩
        · rintro (h | ⟨_, rfl⟩)
          · cases h
          · rfl
      · rw [if_neg hid]
        constructor
        · exact Or.inl
        · rintro (h | ⟨h, rfl⟩)
          · exact h
          · exact absurd h hid

section Reference

variable {ob : Orderbook} {taker : Taker} {past : Nat → Bool} {qty : Nat}
  {fs : List (Order × Nat)} {m : Matching}

/-- A match leaves no order where there was none. -/
theorem Matched.fresh (hm : Matched ob taker past qty fs m) (hv : ob.Valid) {id : Nat}
    (h : ob.orders[id]? = none) : m.book.orders[id]? = none := by
  cases hget : m.book.orders[id]? with
  | none => rfl
  | some o =>
      obtain ⟨o', hget', _⟩ := hm.fills.get_orders hv hget
      simp only at hget'
      rw [h] at hget'
      cases hget'

/-- The trades of a match are the greedy fill of the orders within reach, and the opposite side keeps
those that were not used up, the last one hit with less. -/
theorem Matched.greedy (hm : Matched ob taker past qty fs m) (hv : ob.Valid) :
    m.results = (Greedy.fills Order.remainingQty qty (Matching.reach taker past ob)).map
        (Matching.fillTrade taker) ∧
      m.remainingQty = Greedy.unfilled Order.remainingQty qty (Matching.reach taker past ob) ∧
      m.book.priority taker.side.opposite
        = Greedy.left Order.remainingQty Matching.shrinkOrder qty (Matching.reach taker past ob)
          ++ Matching.beyond taker past ob := by
  obtain ⟨hfills, hpriority⟩ := hm.fills.greedy hv hm.stopped
  have hresults := hm.fills.results_eq
  have hremaining := hm.fills.remaining
  have hsum := Greedy.sum_fills_add_unfilled Order.remainingQty qty (Matching.reach taker past ob)
  subst hfills
  refine ⟨by simpa using hresults, ?_, hpriority⟩
  simp only at hremaining
  omega

end Reference

/-- **Price-time priority.** On a valid book a GTC or IOC limit order trades with the greedy fill of the
opposite orders it crosses, taken best price first and first come first served within a price. The
opposite side keeps the others, the last one hit with what is left of it at the front of its queue; a
GTC remainder, if there is one, goes to the back of its own level with one final `OrderAccepted`; and
nothing else in the book changes. A build that checks its sums stops at the last id of all, whose
successor is no word. -/
theorem addOrderWithId_priceTimePriority {A : Arith} {ob : Orderbook} (hv : ob.Valid)
    {orderId : Nat} (hid : A.checks = true → orderId + 1 < 2 ^ A.bits)
    (hfresh : ob.orders[orderId]? = none) (userId : Nat) (side : Side) {price qty : Nat}
    (hprice : 0 < price) (hqty : 0 < qty) {tif : TimeInForce} (htif : tif = .gtc ∨ tif = .ioc) :
    let taker : Taker := ⟨orderId, userId, side⟩
    let crossing := (ob.priority side.opposite).takeWhile fun o => !pastLimit side price o.price
    let uncrossed := (ob.priority side.opposite).dropWhile fun o => !pastLimit side price o.price
    let trades := (Greedy.fills Order.remainingQty qty crossing).map fun (maker, fill) =>
      taker.trade maker.price fill maker.orderId maker.userId
    let unfilled := Greedy.unfilled Order.remainingQty qty crossing
    let opposite := Greedy.left Order.remainingQty
      (fun maker fill => { maker with remainingQty := maker.remainingQty - fill }) qty crossing
        ++ uncrossed
    let resting : Option Order := if 0 < unfilled ∧ tif = .gtc then
      some { orderId, userId, side, price, remainingQty := unfilled } else none
    ∃ ob', ob.addOrderWithId A orderId userId side price qty tif
        = .ok (ob', .ok (outcome trades resting)) ∧
      ob'.priority side.opposite = opposite ∧
      (∀ p, (ob'.levels side.opposite)[p]? =
        let queue := (opposite.filter fun o => o.price = p).map Order.orderId
        if queue = [] then none else some ⟨queue⟩) ∧
      ob'.levels side = (if resting.isSome then
        (ob.levels side).insert price ⟨ob.queueAt side price ++ [orderId]⟩ else ob.levels side) ∧
      ∀ id o, ob'.orders[id]? = some o
        ↔ o.orderId = id ∧ (o ∈ opposite ∨ o ∈ ob.priority side ∨ resting = some o) := by
  intro taker crossing uncrossed trades unfilled opposite resting
  obtain ⟨next, hadd⟩ := A.exists_add hid
  obtain ⟨fs, m, hm, hrun⟩ := addOrderWithId_eq hv orderId userId side hadd hprice hqty
  have hvi := hv.countTo next
  obtain ⟨hresults, hremaining, hpriority⟩ := hm.greedy hvi
  simp only [reach_countTo, beyond_countTo] at hresults hremaining hpriority
  have hmfresh : m.book.orders[orderId]? = none := hm.fresh hvi hfresh
  obtain ⟨howns, hownp⟩ := hm.fills.own_side hvi
  simp only [levels_countTo, priority_countTo] at howns hownp
  have hresting : remainder taker price tif m = resting := by
    simp only [remainder, resting, leftover, hremaining]
    rfl
  have hrest_side : ∀ o, resting = some o → o.side = side ∧ o.price = price ∧ o.orderId = orderId := by
    intro o ho
    simp only [resting] at ho
    split at ho
    · cases ho
      exact ⟨rfl, rfl, rfl⟩
    · cases ho
  refine ⟨m.book.restAll resting, ?_, ?_, ?_, ?_, ?_⟩
  · have hfok : tif ≠ .fok := by
      rcases htif with rfl | rfl <;> simp
    rw [hrun, if_neg hfok]
    simp only [← hresting, hresults]
    rfl
  · rw [← show m.book.priority side.opposite = opposite from hpriority]
    cases hr : resting with
    | none => rfl
    | some o =>
        obtain ⟨hs, _, hid⟩ := hrest_side o hr
        refine hm.valid.priority_rest_other (hid ▸ hmfresh) ?_
        rw [hs]
        exact opposite_ne side
  · intro p
    have hqueue := hm.valid.queueAt_eq side.opposite p
    rw [show m.book.priority side.opposite = opposite from hpriority] at hqueue
    rw [levels_restAll_of_ne, hm.valid.get_levels, hqueue]
    intro o ho
    rw [(hrest_side o ho).1]
    exact opposite_ne side
  · cases hr : resting with
    | none => simpa [restAll] using howns
    | some o =>
        obtain ⟨hs, hp, hid⟩ := hrest_side o hr
        simp only [restAll, Option.elim_some, rest, levels_mk, hs, hp, hid,
          levels_setLevels_self, howns, Option.isSome_some, if_true, queueAt]
  · intro id o
    rw [get_orders_restAll (fun x hx => by rw [(hrest_side x hx).2.2]; exact hmfresh),
      hm.valid.get_orders_iff side, hownp,
      show m.book.priority side.opposite = opposite from hpriority, ← and_or_left, or_assoc]

/-- Two bids at one price, and a better one that came later. -/
def threeBids : Orderbook :=
  (((new "SOL-USDT").rest ⟨1, 10, .bid, 90, 5⟩).rest ⟨2, 20, .bid, 90, 5⟩).rest ⟨3, 30, .bid, 95, 5⟩

theorem valid_threeBids : threeBids.Valid := by
  have hone := (valid_new "SOL-USDT").rest (o := ⟨1, 10, .bid, 90, 5⟩) (by decide) (by decide)
    (by simp [new])
  have htwo := hone.rest (o := ⟨2, 20, .bid, 90, 5⟩) (by decide) (by decide) (by
    intro id x hx
    rw [orders_rest, get_insert] at hx
    split at hx
    · next h => exact h ▸ by decide
    · simp [new] at hx)
  refine htwo.rest (o := ⟨3, 30, .bid, 95, 5⟩) (by decide) (by decide) ?_
  intro id x hx
  rw [orders_rest, get_insert, orders_rest, get_insert] at hx
  split at hx
  · next h => exact h ▸ by decide
  · split at hx
    · next h => exact h ▸ by decide
    · simp [new] at hx

theorem addOrderWithId_priceTimePriority_threeBids :
    ∃ ob', threeBids.addOrderWithId (u64 true) 4 40 .ask 90 12 .gtc = .ok (ob', .ok
        [.trade ⟨30, 40, 95, 5, 4, 3, .ask⟩, .trade ⟨10, 40, 90, 5, 4, 1, .ask⟩,
          .trade ⟨20, 40, 90, 2, 4, 2, .ask⟩]) ∧
      ob'.priority .bid = [⟨2, 20, .bid, 90, 3⟩] := by
  have hid : (u64 true).checks = true → 4 + 1 < 2 ^ (u64 true).bits := fun _ => by decide
  have hfresh : threeBids.orders[4]? = none := by decide +kernel
  have htif : TimeInForce.gtc = .gtc ∨ TimeInForce.gtc = .ioc := Or.inl rfl
  obtain ⟨ob', hrun, hpriority, _⟩ := addOrderWithId_priceTimePriority (A := u64 true)
    valid_threeBids hid hfresh 40 .ask (show 0 < 90 by decide) (show 0 < 12 by decide) htif
  refine ⟨ob', hrun.trans ?_, hpriority.trans ?_⟩
  · congr 3
  · decide +kernel

end Orderbook

end CexRs
