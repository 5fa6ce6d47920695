import CexRs.Proof.Liquidity

/-!
# Sums over the book

The sums that the engine forms over a valid book, and when they stay within the word: the quantity of a
level, the quantity that a fill-or-kill order finds, and the quote of a market order.
-/

namespace CexRs

open FixedWidth OrderedMap

theorem u64_add {a b : Nat} (h : a + b < 2 ^ 64) : (u64 true).add a b = .ok (a + b) :=
  Arith.add_of_lt (u64 true) h

theorem u64_mul {a b : Nat} (h : a * b < 2 ^ 64) : (u64 true).mul a b = .ok (a * b) :=
  Arith.mul_of_lt (u64 true) h

namespace Orderbook

variable {ob : Orderbook}

/-! ### Resting orders -/

def restingOrders (ob : Orderbook) : List Order := ob.orders.toList.map Prod.snd

theorem Valid.mem_restingOrders (hv : ob.Valid) {o : Order} :
    o ∈ ob.restingOrders ↔ ob.orders[o.orderId]? = some o := by
  constructor
  · intro h
    obtain ⟨⟨id, o'⟩, hmem, rfl⟩ := List.mem_map.mp h
    have hget := mem_toList.mp hmem
    have hid := hv.orderId_eq hget
    simp only at hget hid ⊢
    rwa [hid]
  · intro h
    exact List.mem_map.mpr ⟨(o.orderId, o), mem_toList.mpr h, rfl⟩

theorem Valid.nodup_restingOrders (hv : ob.Valid) : ob.restingOrders.Nodup := by
  apply List.Nodup.map_on
  · rintro ⟨id, o⟩ hmem ⟨id', o'⟩ hmem' heq
    have hid := hv.orderId_eq (mem_toList.mp hmem)
    have hid' := hv.orderId_eq (mem_toList.mp hmem')
    simp only at heq hid hid'
    rw [← hid, ← hid', heq]
  · exact (toList_pairwise ob.orders).imp fun hlt heq => by simp [heq] at hlt

/-! ### Depth -/

def levelWeight (side : Side) (price : Nat) (o : Order) : Nat :=
  if o.side = side ∧ o.price = price then o.remainingQty else 0

theorem levelWeight_shrink (side : Side) (price : Nat) (o : Order) (n : Nat) :
    levelWeight side price (Matching.shrinkOrder o n) ≤ levelWeight side price o := by
  by_cases h : o.side = side ∧ o.price = price
  · calc levelWeight side price (Matching.shrinkOrder o n) = o.remainingQty - n := if_pos h
      _ ≤ o.remainingQty := Nat.sub_le ..
      _ = levelWeight side price o := (if_pos h).symm
  · have hzero : levelWeight side price (Matching.shrinkOrder o n) = 0 := if_neg h
    rw [hzero]
    exact Nat.zero_le _

def Shallow (ob : Orderbook) : Prop :=
  ∀ side price, Matching.weigh (levelWeight side price) ob < 2 ^ 64

def restingQty (ob : Orderbook) (side : Side) (price : Nat) : Nat :=
  ((ob.restingOrders.filter fun o => o.side = side && o.price = price).map Order.remainingQty).sum

theorem restingQty_eq_weigh (side : Side) (price : Nat) :
    ob.restingQty side price = Matching.weigh (levelWeight side price) ob := by
  have hsum : ∀ l : List Order,
      ((l.filter fun o => o.side = side && o.price = price).map Order.remainingQty).sum
        = (l.map (levelWeight side price)).sum := by
    intro l
    induction l with
    | nil => rfl
    | cons o l ih =>
        rw [List.map_cons, List.sum_cons, ← ih]
        by_cases h : o.side = side ∧ o.price = price
        · rw [List.filter_cons_of_pos (by simp [h]), List.map_cons, List.sum_cons, levelWeight, if_pos h]
        · rw [List.filter_cons_of_neg (by simpa using h), levelWeight, if_neg h, Nat.zero_add]
  rw [restingQty, hsum, restingOrders, List.map_map]
  rfl

/-- A level's queue holds all that rests at its side and price. -/
theorem sum_queueOrders (hv : ob.Valid) {side : Side} {price : Nat} {level : PriceLevel}
    (hlevel : (ob.levels side)[price]? = some level) :
    ((ob.queueOrders level).map Order.remainingQty).sum = ob.restingQty side price := by
  have hnodup : (ob.queueOrders level).Nodup := by
    apply List.Nodup.of_map Order.orderId
    rw [hv.queueOrders_orderId hlevel]
    exact hv.nodup hlevel
  apply List.Perm.sum_eq
  apply List.Perm.map
  apply (List.perm_ext_iff_of_nodup hnodup (hv.nodup_restingOrders.filter _)).mpr
  intro o
  rw [List.mem_filter, hv.mem_restingOrders, hv.mem_queueOrders, Bool.and_eq_true, decide_eq_true_eq,
    decide_eq_true_eq]
  constructor
  · rintro ⟨hmem, hget⟩
    obtain ⟨rfl, rfl⟩ := hv.level_unique hlevel hmem hget
    exact ⟨hget, rfl, rfl⟩
  · rintro ⟨hget, rfl, rfl⟩
    obtain ⟨own, hown, hmem⟩ := hv.listed hget
    rw [hlevel] at hown
    cases hown
    exact ⟨hmem, hget⟩

theorem restingQty_of_none (hv : ob.Valid) {side : Side} {price : Nat}
    (hlevel : (ob.levels side)[price]? = none) : ob.restingQty side price = 0 := by
  have hnil : (ob.restingOrders.filter fun o => o.side = side && o.price = price) = [] := by
    rw [List.filter_eq_nil_iff]
    intro o ho hsame
    rw [Bool.and_eq_true, decide_eq_true_eq, decide_eq_true_eq] at hsame
    obtain ⟨own, hown, _⟩ := hv.listed (hv.mem_restingOrders.mp ho)
    rw [hsame.1, hsame.2, hlevel] at hown
    cases hown
  rw [restingQty, hnil]
  rfl

theorem getState_fits (hv : ob.Valid) (hshallow : ob.Shallow) : Fits (ob.getState (u64 true)) := by
  have hlevels : ∀ side, Fits (ob.snapshotLevels (u64 true) (ob.walk side)) := by
    intro side
    apply fits_mapM
    rintro ⟨price, level⟩ hmem
    have hsum := sum_queueOrders hv ((ob.mem_walk side).mp hmem)
    have hfits : Fits (ob.levelQty (u64 true) level) := by
      apply fits_foldlM_add
      have hlt := hshallow side price
      rw [← restingQty_eq_weigh, ← hsum] at hlt
      simpa [queueOrders] using hlt
    exact hfits.bind fun _ _ => fits_ok _
  unfold getState
  apply (hlevels .bid).bind
  intro bids _
  exact (hlevels .ask).bind fun _ _ => fits_ok _

/-! ### Searches -/

/-- Before the search of a fill-or-kill order ends, it has found less than the quantity, so the next
order cannot take its sum past the word. -/
theorem canFillQuantity_fits (hv : ob.Valid) (side : Side) (price : Nat) {qty : Nat}
    (hword : qty < 2 ^ 63)
    (hsmall : ∀ (id : Nat) (o : Order), ob.orders[id]? = some o → o.remainingQty < 2 ^ 63) :
    Fits (ob.canFillQuantity (u64 true) side price qty) := by
  unfold canFillQuantity
  split
  · exact fits_ok _
  · next hqty =>
    rw [scanLevels_eq _ hv]
    set visit : Nat → Nat → Order → Except Fault (Nat × Bool) := fun available _ order => do
      let available ← (u64 true).add available order.remainingQty
      return (available, decide (qty ≤ available))
    have hscan : ∀ (l : List Order), (∀ o ∈ l, o.remainingQty < 2 ^ 63) → ∀ acc, acc < qty →
        Fits (scanOrders visit l acc) := by
      intro l
      induction l with
      | nil => exact fun _ acc _ => fits_ok _
      | cons o l ih =>
          intro hl acc hacc
          have ho := hl o (List.mem_cons_self ..)
          have hadd : acc + o.remainingQty < 2 ^ 64 := by omega
          simp only [scanOrders, visit, u64_add hadd, ok_bind]
          by_cases hdone : qty ≤ acc + o.remainingQty
          · simp only [hdone, decide_true, pure, Except.pure, ok_bind, if_true]
            exact fits_ok _
          · simp only [hdone, decide_false, pure, Except.pure, ok_bind, Bool.false_eq_true, if_false]
            exact ih (fun o ho => hl o (List.mem_cons_of_mem _ ho)) _ (Nat.lt_of_not_le hdone)
    refine Fits.bind (hscan _ ?_ 0 (Nat.pos_of_ne_zero hqty)) fun _ _ => fits_ok _
    intro o ho
    exact hsmall _ o (hv.mem_priority.mp ((List.takeWhile_sublist _).mem ho)).1

theorem addOrderWithId_fits (hv : ob.Valid) {orderId : Nat} (hid : orderId + 1 < 2 ^ 64) (userId : Nat)
    (side : Side) {price qty : Nat} (hprice : 0 < price) (hqty : 0 < qty) (hword : qty < 2 ^ 63)
    (hsmall : ∀ (id : Nat) (o : Order), ob.orders[id]? = some o → o.remainingQty < 2 ^ 63)
    (tif : TimeInForce) :
    Fits (ob.addOrderWithId (u64 true) orderId userId side price qty tif) := by
  obtain ⟨fs, m, _, hrun⟩ := addOrderWithId_eq hv orderId userId side (u64_add hid) hprice hqty
  rw [hrun]
  apply Fits.bind
  · split
    · exact canFillQuantity_fits (hv.issue orderId) side price hword hsmall
    · exact fits_ok _
  · intro found _
    split
    · exact fits_ok _
    · exact fits_ok _

theorem fillableQtyForMarketSell_fits (hv : ob.Valid) {qty : Nat} (hqty : 0 < qty)
    (hword : qty < 2 ^ 64) (worst : Option Nat) :
    Fits (ob.fillableQtyForMarketSell (u64 true) qty worst) := by
  unfold fillableQtyForMarketSell
  rw [scanLevels_eq _ hv]
  set visit : Quote → Nat → Order → Except Fault (Quote × Bool) := fun quote _ order => do
    let take := min quote.qty order.remainingQty
    let fillableQty ← (u64 true).add quote.fillableQty take
    let qty := quote.qty - take
    return ({ quote with fillableQty, qty }, decide (qty = 0))
  have hscan : ∀ (l : List Order) (quote : Quote), 0 < quote.qty →
      quote.fillableQty + quote.qty < 2 ^ 64 → Fits (scanOrders visit l quote) := by
    intro l
    induction l with
    | nil => exact fun quote _ _ => fits_ok _
    | cons o l ih =>
        intro quote hpos hfit
        have hadd : quote.fillableQty + min quote.qty o.remainingQty < 2 ^ 64 := by omega
        simp only [scanOrders, visit, u64_add hadd, ok_bind, pure, Except.pure]
        by_cases hdone : quote.qty - min quote.qty o.remainingQty = 0
        · simp only [hdone, decide_true, if_true]
          exact fits_ok _
        · simp only [hdone, decide_false, Bool.false_eq_true, if_false]
          apply ih
          · simp only
            omega
          · simp only
            omega
  exact Fits.bind (hscan _ ⟨0, 0, qty⟩ hqty (by simpa using hword)) fun _ _ => fits_ok _

/-- A quote is within the word if its exact cost is. -/
theorem quoteCostForMarketBuy_fits (hv : ob.Valid) {qty : Nat} (hqty : 0 < qty)
    (hword : qty < 2 ^ 64) (worst : Option Nat) (taker : Taker) (hside : taker.side = .bid)
    (hcost : fillCost (Greedy.fills Order.remainingQty qty
      (Matching.reach taker (pastWorst .bid worst) ob)) < 2 ^ 64) :
    Fits (ob.quoteCostForMarketBuy (u64 true) qty worst) := by
  have hreach : Matching.reach taker (pastWorst .bid worst) ob
      = (ob.priority .ask).takeWhile fun o => !pastWorst .bid worst o.price := by
    simp [Matching.reach, hside, Side.opposite]
  have hscan : ∀ (l : List Order) (quote : Quote), 0 < quote.qty →
      quote.fillableQty + quote.qty < 2 ^ 64 →
      quote.totalCost + fillCost (Greedy.fills Order.remainingQty quote.qty l) < 2 ^ 64 →
      Fits (scanOrders (quoteVisit (u64 true)) l quote) := by
    intro l
    induction l with
    | nil => exact fun quote _ _ _ => fits_ok _
    | cons o l ih =>
        intro quote hpos hfit hcost
        rw [Greedy.fills_cons _ hpos] at hcost
        simp only [fillCost, List.map_cons, List.sum_cons] at hcost
        rw [Nat.mul_comm o.price] at hcost
        have hmul : min quote.qty o.remainingQty * o.price < 2 ^ 64 := by omega
        have hadd : quote.totalCost + min quote.qty o.remainingQty * o.price < 2 ^ 64 := by omega
        have hfill : quote.fillableQty + min quote.qty o.remainingQty < 2 ^ 64 := by omega
        simp only [scanOrders, quoteVisit, u64_mul hmul, u64_add hadd, u64_add hfill, ok_bind, pure,
          Except.pure]
        by_cases hdone : quote.qty - min quote.qty o.remainingQty = 0
        · simp only [hdone, decide_true, if_true]
          exact fits_ok _
        · simp only [hdone, decide_false, Bool.false_eq_true, if_false]
          apply ih
          · simp only
            omega
          · simp only
            omega
          · simp only [fillCost]
            omega
  unfold quoteCostForMarketBuy
  rw [scanLevels_eq _ hv]
  refine Fits.bind ?_ fun _ _ => fits_ok _
  apply hscan _ ⟨0, 0, qty⟩ hqty
  · simpa using hword
  · simpa [hreach] using hcost

end Orderbook

end CexRs
