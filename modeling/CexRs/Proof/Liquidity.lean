import CexRs.Proof.PriceTimePriority

/-!
# Liquidity queries

On a valid book the nested walks of the liquidity queries are one scan of the flat list of orders
within the limit, and the quote of a market buy is the cost of the greedy fill of that list.
-/

namespace CexRs

open FixedWidth OrderedMap

namespace Orderbook

section Scan

variable {σ : Type} (visit : σ → Nat → Order → Except Fault (σ × Bool))

/-- Visit the orders of a list, at their own prices, until a visit says that it is done. -/
def scanOrders : List Order → σ → Except Fault (σ × Bool)
  | [], acc => return (acc, false)
  | o :: os, acc => do
      let (acc, done) ← visit acc o.price o
      if done then return (acc, true) else scanOrders os acc

theorem scanOrders_append (os os' : List Order) (acc : σ) :
    scanOrders visit (os ++ os') acc = scanOrders visit os acc >>= fun r =>
      if r.2 then .ok (r.1, true) else scanOrders visit os' r.1 := by
  induction os generalizing acc with
  | nil => rfl
  | cons o os ih =>
      simp only [List.cons_append, scanOrders]
      cases visit acc o.price o with
      | error f => rfl
      | ok r =>
          obtain ⟨acc', done⟩ := r
          cases done with
          | true => rfl
          | false => exact ih acc'

variable {ob : Orderbook}

theorem scanQueue_eq (price : Nat) (ids : List Nat)
    (hprice : ∀ id ∈ ids, ∀ o, ob.orders[id]? = some o → o.price = price) (acc : σ) :
    ob.scanQueue visit price ids acc
      = scanOrders visit (ids.filterMap fun id => ob.orders[id]?) acc := by
  induction ids generalizing acc with
  | nil => rfl
  | cons id ids ih =>
      have ih := ih fun id' hid' => hprice id' (List.mem_cons_of_mem _ hid')
      unfold scanQueue
      cases hget : ob.orders[id]? with
      | none =>
          rw [List.filterMap_cons_none hget]
          exact ih acc
      | some o =>
          rw [List.filterMap_cons_some hget, scanOrders,
            hprice id (List.mem_cons_self ..) o hget]
          dsimp only
          cases visit acc price o with
          | error f => rfl
          | ok r =>
              obtain ⟨acc', done⟩ := r
              cases done with
              | true => rfl
              | false => exact ih acc'

theorem scanLevels_eq (hv : ob.Valid) (side : Side) (past : Nat → Bool) (acc : σ) :
    ob.scanLevels visit past (ob.walk side) acc
      = scanOrders visit ((ob.priority side).takeWhile fun o => !past o.price) acc := by
  -- over any part of the walk, whose levels are still those of the book
  suffices h : ∀ levels : List (Nat × PriceLevel), (∀ e ∈ levels, e ∈ ob.walk side) → ∀ acc,
      ob.scanLevels visit past levels acc
        = scanOrders visit ((levels.flatMap fun e => ob.queueOrders e.2).takeWhile
            fun o => !past o.price) acc from
    h _ (fun _ he => he) acc
  intro levels
  induction levels with
  | nil =>
      intro _ acc
      rfl
  | cons e levels ih =>
      intro hlevels acc
      obtain ⟨price, level⟩ := e
      have hlevel := (ob.mem_walk side).mp (hlevels _ (List.mem_cons_self ..))
      have ih := ih fun e he => hlevels e (List.mem_cons_of_mem _ he)
      have hprice : ∀ o ∈ ob.queueOrders level, o.price = price := by
        intro o ho
        obtain ⟨hmem, hget⟩ := hv.mem_queueOrders.mp ho
        exact (hv.level_unique hlevel hmem hget).2.symm
      unfold scanLevels
      rw [List.flatMap_cons]
      by_cases hpast : past price = true
      · rw [if_pos hpast]
        have hne : ob.queueOrders level ≠ [] := by
          intro hnil
          have hids := hv.queueOrders_orderId hlevel
          rw [hnil] at hids
          exact hv.nonempty hlevel hids.symm
        obtain ⟨o, os, hqueue⟩ := List.exists_cons_of_ne_nil hne
        have ho : o.price = price := hprice o (hqueue ▸ List.mem_cons_self ..)
        rw [hqueue, List.cons_append, List.takeWhile_cons_of_neg (by simp [ho, hpast])]
        rfl
      · rw [if_neg hpast, scanQueue_eq, List.takeWhile_append_of_pos, scanOrders_append]
        · change (scanOrders visit (ob.queueOrders level) acc >>= _) = _
          cases scanOrders visit (ob.queueOrders level) acc with
          | error f => rfl
          | ok r =>
              obtain ⟨acc', done⟩ := r
              cases done with
              | true => rfl
              | false => exact ih acc'
        · intro o ho
          simp [hprice o ho, hpast]
        · intro id hid o hget
          exact (hv.level_unique hlevel hid hget).2.symm

end Scan

/-! ### Fill or kill -/

/-- The search of a fill-or-kill order finds out whether the orders within its limit add up to its
quantity. -/
theorem canFillQuantity_spec {ob : Orderbook} (hv : ob.Valid) (taker : Taker) (price : Nat)
    {qty : Nat} (hqty : 0 < qty) :
    Meets Overflows (ob.canFillQuantity (u64 true) taker.side price qty) fun found =>
      found = decide (qty ≤ ((Matching.reach taker (pastLimit taker.side price) ob).map
        Order.remainingQty).sum) := by
  unfold canFillQuantity
  rw [if_neg (by omega), scanLevels_eq _ hv]
  set visit : Nat → Nat → Order → Except Fault (Nat × Bool) := fun available _ order => do
    let available ← (u64 true).add available order.remainingQty
    return (available, decide (qty ≤ available))
  have hscan : ∀ (l : List Order) (acc : Nat), acc < qty →
      Meets Overflows (scanOrders visit l acc) fun r =>
        r.2 = decide (qty ≤ acc + (l.map Order.remainingQty).sum) := by
    intro l
    induction l with
    | nil =>
        intro acc hacc
        refine meets_ok.mpr (decide_eq_false ?_).symm
        simpa using hacc
    | cons o l ih =>
        intro acc hacc
        unfold scanOrders
        refine meets_bind.mpr (meets_bind.mpr (meets_add rfl fun _ => ?_))
        refine meets_ok.mpr ?_
        rw [List.map_cons, List.sum_cons]
        by_cases hdone : qty ≤ acc + o.remainingQty
        · simp only [hdone, decide_true, if_true]
          refine meets_ok.mpr (decide_eq_true ?_).symm
          omega
        · simp only [hdone, decide_false, Bool.false_eq_true, if_false]
          rw [← Nat.add_assoc]
          exact ih _ (Nat.lt_of_not_le hdone)
  refine (hscan _ 0 hqty).bind fun r hr => ?_
  rw [Nat.zero_add] at hr
  exact hr

/-- What an order takes of the orders within its limit: nothing if it is fill-or-kill and they fall
short of its quantity, and else the greedy fill. -/
def takes (tif : TimeInForce) (qty : Nat) (crossed : List Order) : List (Order × Nat) :=
  if tif = .fok ∧ (crossed.map Order.remainingQty).sum < qty then []
  else Greedy.fills Order.remainingQty qty crossed

/-- The quantity that a market sell finds is that of the greedy fill. -/
theorem fillableQtyForMarketSell_spec {ob : Orderbook} (hv : ob.Valid) {qty : Nat} (hqty : 0 < qty)
    (worst : Option Nat) (taker : Taker) (hside : taker.side = .ask) :
    Meets Overflows (ob.fillableQtyForMarketSell (u64 true) qty worst) fun fillable =>
      fillable = min qty ((Matching.reach taker (pastWorst .ask worst) ob).map
        Order.remainingQty).sum := by
  have hreach : Matching.reach taker (pastWorst .ask worst) ob
      = (ob.priority .bid).takeWhile fun o => !pastWorst .ask worst o.price := by
    simp [Matching.reach, hside, Side.opposite]
  unfold fillableQtyForMarketSell
  rw [scanLevels_eq _ hv, hreach]
  set visit : Quote → Nat → Order → Except Fault (Quote × Bool) := fun quote _ order => do
    let take := min quote.qty order.remainingQty
    let fillableQty ← (u64 true).add quote.fillableQty take
    let qty := quote.qty - take
    return ({ quote with fillableQty, qty }, decide (qty = 0))
  have hscan : ∀ (l : List Order) (quote : Quote), 0 < quote.qty →
      Meets Overflows (scanOrders visit l quote) fun r => r.1.fillableQty
        = quote.fillableQty + min quote.qty (l.map Order.remainingQty).sum := by
    intro l
    induction l with
    | nil =>
        intro quote _
        exact meets_ok.mpr (by simp)
    | cons o l ih =>
        intro quote hpos
        unfold scanOrders
        refine meets_bind.mpr (meets_bind.mpr (meets_add rfl fun _ => ?_))
        refine meets_ok.mpr ?_
        rw [List.map_cons, List.sum_cons]
        by_cases hdone : quote.qty - min quote.qty o.remainingQty = 0
        · simp only [hdone, decide_true, if_true]
          refine meets_ok.mpr ?_
          simp only
          omega
        · simp only [hdone, decide_false, Bool.false_eq_true, if_false]
          refine (ih _ (by simp only; omega)).imp fun r _ hr => ?_
          simp only at hr
          omega
  refine (hscan _ ⟨0, 0, qty⟩ hqty).bind fun r hr => ?_
  simp only [Nat.zero_add] at hr
  exact meets_ok.mpr hr

/-! ### The quote of a market buy -/

def fillCost (fs : List (Order × Nat)) : Nat := (fs.map fun f => f.1.price * f.2).sum

theorem quoteVisit_spec (quote : Quote) (o : Order) :
    Meets Overflows (quoteVisit (u64 true) quote o.price o) fun r =>
      r = (⟨quote.totalCost + min quote.qty o.remainingQty * o.price,
        quote.fillableQty + min quote.qty o.remainingQty,
        quote.qty - min quote.qty o.remainingQty⟩,
        decide (quote.qty - min quote.qty o.remainingQty = 0)) := by
  refine meets_bind.mpr (meets_mul rfl fun _ => ?_)
  refine meets_bind.mpr (meets_add rfl fun _ => ?_)
  exact meets_bind.mpr (meets_add rfl fun _ => rfl)

theorem quoteCostForMarketBuy_spec {ob : Orderbook} (hv : ob.Valid) {qty : Nat} (hqty : 0 < qty)
    (worst : Option Nat) (taker : Taker) (hside : taker.side = .bid) :
    Meets Overflows (ob.quoteCostForMarketBuy (u64 true) qty worst) fun r =>
      let fs := Greedy.fills Order.remainingQty qty
        (Matching.reach taker (pastWorst .bid worst) ob)
      r = (fillCost fs, (fs.map Prod.snd).sum) := by
  unfold quoteCostForMarketBuy
  rw [scanLevels_eq _ hv]
  have hscan : ∀ (l : List Order) (quote : Quote), 0 < quote.qty →
      Meets Overflows (scanOrders (quoteVisit (u64 true)) l quote) fun r =>
          r.1.totalCost = quote.totalCost + fillCost (Greedy.fills Order.remainingQty quote.qty l) ∧
          r.1.fillableQty = quote.fillableQty
            + ((Greedy.fills Order.remainingQty quote.qty l).map Prod.snd).sum := by
    intro l
    induction l with
    | nil =>
        intro quote _
        exact ⟨by simp [fillCost, Greedy.fills], by simp [Greedy.fills]⟩
    | cons o l ih =>
        intro quote hpos
        rw [Greedy.fills_cons _ hpos]
        unfold scanOrders
        refine (quoteVisit_spec quote o).bind ?_
        rintro _ rfl
        by_cases hdone : quote.qty - min quote.qty o.remainingQty = 0
        · simp only [hdone, decide_true, if_true, Greedy.fills_zero]
          refine ⟨?_, ?_⟩
          · simp [fillCost, Nat.mul_comm]
          · simp
        · simp only [hdone, decide_false, Bool.false_eq_true, if_false]
          refine (ih _ (by simp only; omega)).imp fun r _ hr => ?_
          simp only [fillCost, List.map_cons, List.sum_cons] at hr ⊢
          rw [hr.1, hr.2, Nat.mul_comm o.price]
          exact ⟨by omega, by omega⟩
  refine (hscan _ ⟨0, 0, qty⟩ hqty).bind fun r hr => ?_
  have hreach : Matching.reach taker (pastWorst .bid worst) ob
      = (ob.priority .ask).takeWhile fun o => !pastWorst .bid worst o.price := by
    simp [Matching.reach, hside, Side.opposite]
  simp only [Nat.zero_add] at hr
  simp only [hreach]
  exact Prod.ext hr.1 hr.2

end Orderbook

end CexRs
