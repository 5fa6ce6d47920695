import CexRs.Proof.Representation

/-!
# The book is never crossed

An order is left to rest only when its match has stopped with the front of the other side past its
price, and an order that rests stays at its price until it is gone. So in every state that a run
reaches, in either build, every resting bid is below every resting ask.
-/

namespace CexRs

open FixedWidth OrderedMap EngineState

namespace Orderbook

variable {ob : Orderbook}

def Uncrossed (ob : Orderbook) : Prop :=
  ∀ (id id' : Nat) (bid ask : Order), ob.orders[id]? = some bid → ob.orders[id']? = some ask →
    bid.side = .bid → ask.side = .ask → bid.price < ask.price

theorem uncrossed_of_empty (h : ob.orders = ∅) : ob.Uncrossed := by
  intro id id' bid ask hbid
  simp [h] at hbid

/-- A book whose orders rested before, at the same side and price, is uncrossed if it was then. -/
theorem Uncrossed.of_orders {ob' : Orderbook} (h : ob.Uncrossed)
    (hget : ∀ (id : Nat) (x : Order), ob'.orders[id]? = some x →
      ∃ o : Order, ob.orders[id]? = some o ∧ x.side = o.side ∧ x.price = o.price) :
    ob'.Uncrossed := by
  intro id id' bid ask hbid hask hside hside'
  obtain ⟨bid₀, hbid₀, hbidside, hbidprice⟩ := hget id bid hbid
  obtain ⟨ask₀, hask₀, haskside, haskprice⟩ := hget id' ask hask
  rw [hbidprice, haskprice]
  exact h id id' bid₀ ask₀ hbid₀ hask₀ (hbidside ▸ hside) (haskside ▸ hside')

/-! ### Best prices -/

/-- The best price of a side is the price of an order that rests there. -/
theorem Valid.exists_of_best (hv : ob.Valid) (side : Side) {price : Nat}
    (h : ob.best side = some price) :
    ∃ o : Order, ob.orders[o.orderId]? = some o ∧ o.side = side ∧ o.price = price := by
  rw [hv.best_eq, Option.map_eq_some_iff] at h
  obtain ⟨o, hhead, hprice⟩ := h
  obtain ⟨hget, hside⟩ := hv.mem_priority.mp (List.mem_of_head? hhead)
  exact ⟨o, hget, hside, hprice⟩

theorem Uncrossed.best_lt (h : ob.Uncrossed) (hv : ob.Valid) {bid ask : Nat}
    (hbid : ob.bestBid = some bid) (hask : ob.bestAsk = some ask) : bid < ask := by
  obtain ⟨o, hget, hside, rfl⟩ := hv.exists_of_best .bid hbid
  obtain ⟨o', hget', hside', rfl⟩ := hv.exists_of_best .ask hask
  exact h _ _ o o' hget hget' hside hside'

/-- A side is walked away from the other: each price is past the ones before it. -/
theorem walk_pairwise_past (side : Side) :
    (ob.walk side).Pairwise fun a b => pastLimit side.opposite a.1 b.1 = true := by
  have hsorted : ∀ levels : Levels, levels.toList.Pairwise fun a b => a.1 < b.1 := by
    intro levels
    exact (toList_pairwise levels).imp fun h => Nat.compare_eq_lt.mp h
  cases side with
  | bid =>
      rw [walk, List.pairwise_reverse]
      exact (hsorted ob.bids).imp fun h => decide_eq_true h
  | ask => exact (hsorted ob.asks).imp fun h => decide_eq_true h

theorem pastLimit_trans {side : Side} {a b c : Nat} (hab : pastLimit side a b = true)
    (hbc : pastLimit side b c = true) : pastLimit side a c = true := by
  cases side with
  | bid =>
      simp only [pastLimit, decide_eq_true_eq] at hab hbc ⊢
      omega
  | ask =>
      simp only [pastLimit, decide_eq_true_eq] at hab hbc ⊢
      omega

/-- Every order of a side is at the price of the front order or past it. -/
theorem Valid.past_front (hv : ob.Valid) {side : Side} {o : Order} {rest : List Order}
    (h : ob.priority side = o :: rest) {id : Nat} {x : Order} (hget : ob.orders[id]? = some x)
    (hside : x.side = side) : x.price = o.price ∨ pastLimit side.opposite o.price x.price = true := by
  subst hside
  obtain ⟨level, back, _, hwalk, _⟩ := hv.front_level h
  obtain ⟨level', hlevel', _⟩ := hv.listed hget
  have hmem := (ob.mem_walk x.side).mpr hlevel'
  have hsorted := ob.walk_pairwise_past x.side
  rw [hwalk, List.pairwise_cons] at hsorted
  rw [hwalk, List.mem_cons] at hmem
  rcases hmem with heq | hback
  · left
    exact congrArg Prod.fst heq
  · right
    exact hsorted.1 _ hback

end Orderbook

/-! ### Matches and remainders -/

/-- A match that stops with something left has every order of the other side past its limit. -/
theorem Matching.Stopped.past {taker : Taker} {price : Nat} {m : Matching}
    (h : Stopped taker (Orderbook.pastLimit taker.side price) m) (hv : m.book.Valid)
    (hpos : 0 < m.remainingQty) {id : Nat} {x : Order} (hget : m.book.orders[id]? = some x)
    (hside : x.side = taker.side.opposite) : Orderbook.pastLimit taker.side price x.price = true := by
  have hx : x ∈ m.book.priority taker.side.opposite := by
    have hid := hv.orderId_eq hget
    subst hid
    exact hv.mem_priority.mpr ⟨hget, hside⟩
  rcases h with hzero | hfront
  · omega
  · cases hpriority : m.book.priority taker.side.opposite with
    | nil =>
        rw [hpriority] at hx
        cases hx
    | cons o rest =>
        have hpast := hfront o rest hpriority
        have hopposite : taker.side.opposite.opposite = taker.side := by cases taker.side <;> rfl
        rcases hv.past_front hpriority hget hside with heq | hbehind
        · rwa [heq]
        · rw [hopposite] at hbehind
          exact Orderbook.pastLimit_trans hpast hbehind

/-- An order may join an uncrossed book if the other side is past its price. -/
theorem Orderbook.Uncrossed.rest {ob : Orderbook} (h : ob.Uncrossed) {o : Order}
    (hpast : ∀ (id : Nat) (x : Order), ob.orders[id]? = some x → x.side = o.side.opposite →
      pastLimit o.side o.price x.price = true) : (ob.rest o).Uncrossed := by
  intro id id' bid ask hbid hask hside hside'
  rw [orders_rest, get_insert] at hbid hask
  split at hbid
  · cases hbid
    split at hask
    · cases hask
      rw [hside] at hside'
      cases hside'
    · have hlt := hpast id' ask hask (by rw [hside, hside']; rfl)
      rw [hside] at hlt
      simpa [pastLimit] using hlt
  · split at hask
    · cases hask
      have hlt := hpast id bid hbid (by rw [hside, hside']; rfl)
      rw [hside'] at hlt
      simpa [pastLimit] using hlt
    · exact h id id' bid ask hbid hask hside hside'

section Enters

variable {A : Arith} {builtins : Builtins} {s : EngineState} {msg : OrderMsg} {side : Side}
  {found : Bool} {fs : List (Order × Nat)} {m : Matching} {p : Placement}

theorem Enters.uncrossed (h : Enters A builtins s msg side found fs m p) (hv : s.Valid)
    (huncrossed : ∀ asset, (s.book asset).Uncrossed) (asset : Asset) :
    (p.state.book asset).Uncrossed := by
  have hexec := h.filled.executed
  by_cases hasset : asset = p.asset
  · subst hasset
    have hmatched : m.book.Uncrossed := by
      apply (huncrossed p.asset).of_orders
      intro id x hget
      obtain ⟨o, hget₀, hside, hprice, _⟩ := hexec.took.fills.get_orders
        ((hv.book p.asset).issue _) hget
      exact ⟨o, hget₀, hside, hprice⟩
    rw [hexec.book_self]
    cases hrest : remainderOf msg ⟨s.nextOrderId, msg.userId, side⟩ m with
    | none => exact hmatched
    | some o =>
        obtain ⟨hlimit, hgtc, rfl⟩ := remainderOf_some hrest
        obtain ⟨hpos, _⟩ := hexec.leaves _ hrest
        -- a GTC order is never killed, so its match ran until it stopped
        have hfound := h.decided.other (by simp [hgtc])
        have hstopped := h.filled.stopped hfound
        simp only [orderPast, hlimit] at hstopped
        apply hmatched.rest
        intro id x hget hside
        exact hstopped.past hexec.took.valid hpos hget hside
  · rw [hexec.book_other asset hasset]
    exact huncrossed asset

end Enters

/-! ### Messages and runs -/

theorem VenueStep.uncrossed {A : Arith} {builtins : Builtins} {s s' : EngineState} {msg : Msg}
    {events : List ExecutionEvent} (h : VenueStep A builtins s msg s' events) (hv : s.Valid)
    (huncrossed : ∀ asset, (s.book asset).Uncrossed) (asset : Asset) :
    (s'.book asset).Uncrossed := by
  cases h with
  | idle h =>
      rw [h.book]
      exact huncrossed asset
  | order h => exact h.uncrossed hv huncrossed asset
  | cancel hget huser h =>
      rw [h.book]
      apply (huncrossed asset).of_orders
      intro id x hx
      exact ⟨x, get_orders_removed hx, rfl, rfl⟩
  | reset =>
      apply Orderbook.uncrossed_of_empty
      cases asset <;> rfl

theorem run_keeps_uncrossed (A : Arith) (builtins : Builtins) (s : EngineState) (hv : s.Valid)
    (huncrossed : ∀ asset, (s.book asset).Uncrossed) (msgs : List Msg) :
    Meets Arithmetic (run A builtins s msgs) fun r =>
      r.1.Valid ∧ ∀ asset, (r.1.book asset).Uncrossed := by
  induction msgs generalizing s with
  | nil => exact ⟨hv, huncrossed⟩
  | cons msg msgs ih =>
      unfold run
      apply (handle_venue A builtins s hv.book msg).bind
      intro r hr
      exact (ih r.1 (hr.valid hv) (hr.uncrossed hv huncrossed)).bind fun _ hr' => hr'

/-- **Never crossed.** In every state that a run of messages reaches, in either build, the best bid of
each book is below its best ask. A run that does not return has stopped in arithmetic. -/
theorem run_uncrossed (checks : Bool) (builtins : Builtins) (fees : FeeSchedule) (msgs : List Msg) :
    Meets Arithmetic (run (u64 checks) builtins (.new fees) msgs) fun r =>
      ∀ asset bid ask, (r.1.book asset).bestBid = some bid → (r.1.book asset).bestAsk = some ask →
        bid < ask := by
  have hempty : ∀ asset, ((EngineState.new fees).book asset).Uncrossed := by
    intro asset
    apply Orderbook.uncrossed_of_empty
    cases asset <;> rfl
  apply (run_keeps_uncrossed (u64 checks) builtins _ (valid_new fees) hempty msgs).imp
  intro r _ hr asset bid ask hbid hask
  obtain ⟨hv, huncrossed⟩ := hr
  exact (huncrossed asset).best_lt (hv.book asset) hbid hask

end CexRs
