import CexRs.Proof.TradeEvents
import CexRs.Proof.Uncrossed

/-!
# Nobody is overtaken

A match takes its makers from the front of the priority list and goes on only when the front order is used
up. So a maker that trades has nobody left before it, and since orders keep their side, price and id for as
long as they rest, this holds over whole runs: of two orders that rest at one time, the one behind trades
only after the one before has gone.
-/

namespace CexRs

open FixedWidth OrderedMap EngineState Orderbook

/-- An order stands before another of its side, at a better price or, at the same price, with an older
id. -/
def Order.Before (o x : Order) : Prop :=
  o.side = x.side ∧ (pastLimit o.side.opposite o.price x.price = true ∨
    o.price = x.price ∧ o.orderId < x.orderId)

instance (o x : Order) : Decidable (o.Before x) := inferInstanceAs (Decidable (_ ∧ _))

theorem Order.Before.asymm {o x : Order} (h : o.Before x) : ¬ x.Before o := by
  obtain ⟨hside, hfirst⟩ := h
  rintro ⟨_, hfirst'⟩
  rw [← hside] at hfirst'
  cases hopposite : o.side.opposite <;>
    simp only [pastLimit, hopposite, decide_eq_true_eq] at hfirst hfirst' <;> omega

theorem Order.Before.congr {o x o' x' : Order} (h : o.Before x)
    (ho : o'.side = o.side ∧ o'.price = o.price ∧ o'.orderId = o.orderId)
    (hx : x'.side = x.side ∧ x'.price = x.price ∧ x'.orderId = x.orderId) : o'.Before x' := by
  simpa only [Order.Before, ho, hx] using h

/-- The front order of a side stands before every other. -/
theorem Orderbook.Valid.front_before {ob : Orderbook} (hv : ob.Valid) {side : Side} {o x : Order}
    {rest : List Order} (h : ob.priority side = o :: rest) (hget : ob.orders[x.orderId]? = some x)
    (hside : x.side = side) (hne : x.orderId ≠ o.orderId) : o.Before x := by
  have hfront := hv.mem_priority.mp (h ▸ List.mem_cons_self ..)
  obtain ⟨level, back, ids, _, hlevel, hids⟩ := hv.front_level h
  refine ⟨hfront.2.trans hside.symm, ?_⟩
  rcases hv.past_front h hget hside with hprice | hpast
  · right
    obtain ⟨level', hlevel', hmem⟩ := hv.listed hget
    rw [hside, hprice, hlevel] at hlevel'
    cases hlevel'
    have hincreasing := hv.increasing hlevel
    rw [hids, List.pairwise_cons] at hincreasing
    rw [hids, List.mem_cons] at hmem
    exact ⟨hprice.symm, hincreasing.1 _ (hmem.resolve_left hne)⟩
  · left
    rwa [hfront.2]

namespace Matching

variable {taker : Taker} {past : Nat → Bool} {m m' : Matching} {fs : List (Order × Nat)}

/-- Whoever stands before a maker is used up. -/
theorem Fills.not_overtaken (h : Fills taker past m fs m') (hv : m.book.Valid) {o x : Order}
    (ho : m.book.orders[o.orderId]? = some o) (hbefore : o.Before x) {n : Nat} (hmem : (x, n) ∈ fs) :
    m'.book.orders[o.orderId]? = none := by
  induction h with
  | refl m => cases hmem
  | @step m m' front rest fs hpos hfront hcross htail ih =>
      have hside := (Fills.step hpos hfront hcross htail).mem hv hmem
      have hfilled := valid_fill hv hfront
      by_cases hle : front.remainingQty ≤ m.remainingQty
      · by_cases hid : o.orderId = front.orderId
        · -- the front order leaves the book, and nothing that has left comes back
          have hgone : (m.fill taker front).book.orders[o.orderId]? = none := by
            rw [hid]
            simp [fill, if_pos hle]
          cases hget : m'.book.orders[o.orderId]? with
          | none => rfl
          | some o' =>
              obtain ⟨o₀, hget₀, _⟩ := htail.get_orders hfilled hget
              rw [hgone] at hget₀
              cases hget₀
        · refine ih hfilled ?_ ?_
          · rw [get_fill m front (Ne.symm hid)]
            exact ho
          · rcases List.mem_cons.mp hmem with heq | hmem
            · cases heq
              have hfirst := hv.front_before hfront ho (hbefore.1.trans hside.2.1) hid
              exact absurd hbefore hfirst.asymm
            · exact hmem
      · -- nothing remains after a partial fill, so the front order is the only maker
        have hzero : (m.fill taker front).remainingQty = 0 := by
          simp only [fill]
          omega
        cases htail with
        | step hpos' => omega
        | refl =>
            rw [List.mem_singleton] at hmem
            cases hmem
            by_cases hid : o.orderId = x.orderId
            · have hget := (front_get hv hfront).1
              rw [← hid, ho] at hget
              cases hget
              exact absurd hbefore hbefore.asymm
            · have hfirst := hv.front_before hfront ho (hbefore.1.trans hside.2.1) hid
              exact absurd hbefore hfirst.asymm

end Matching

/-! ### Runs -/

section Runs

variable {A : Arith} {builtins : Builtins} {s s' : EngineState} {asset : Asset} {o x : Order}

/-- What rests after a message under an id that has been handed out before rested there before, at the same
side and price. -/
theorem VenueStep.rested {msg : Msg} {events : List ExecutionEvent}
    (h : VenueStep A builtins s msg s' events) (hv : s.Valid) {id : Nat} (hid : id < s.nextOrderId)
    (hget : (s'.book asset).orders[id]? = some o) :
    ∃ o₀ : Order, (s.book asset).orders[id]? = some o₀ ∧ o.side = o₀.side ∧ o.price = o₀.price := by
  cases h with
  | idle h =>
      rw [h.book] at hget
      exact ⟨o, hget, rfl, rfl⟩
  | @order msg side found fs m p bids asks h =>
      have hexec := h.filled.executed
      rcases hexec.rested (hv.book p.asset) hget with ⟨o₀, hget₀, hside, hprice, _⟩ | ⟨_, hrest, hnew⟩
      · exact ⟨o₀, hget₀, hside, hprice⟩
      · obtain ⟨_, _, _, rfl⟩ := hexec.leaves o hrest
        exact absurd (hnew.trans hexec.orderId) (Nat.ne_of_lt hid)
  | cancel hget₀ huser h =>
      rw [h.book] at hget
      exact ⟨o, get_orders_removed hget, rfl, rfl⟩
  | reset =>
      have hempty : ∀ asset, (s.reset.book asset).orders = ∅ := by rintro (_ | _ | _) <;> rfl
      rw [hempty, Std.ExtTreeMap.getElem?_empty] at hget
      cases hget

/-- A maker trades in a message only if nobody who stood before it is left. -/
theorem VenueStep.not_overtaken {msg : Msg} {events : List ExecutionEvent}
    (h : VenueStep A builtins s msg s' events) (hv : s.Valid)
    (ho : (s.book asset).orders[o.orderId]? = some o) (hx : (s.book asset).orders[x.orderId]? = some x)
    (hbefore : o.Before x) (hrests : (s'.book asset).orders[o.orderId]? ≠ none) :
    makerFilled x.orderId events = 0 := by
  cases h with
  | idle _ hevents => exact makerFilled_funding hevents _
  | cancel => rfl
  | reset => rfl
  | @order msg side found fs m p bids asks henters =>
      have hexec := henters.filled.executed
      rw [makerFilled_append, makerFilled_append, makerFilled_resting,
        makerFilled_reports (reports_fills henters.filled.reports)]
      have hzero : (fs.map fun f => if f.1.orderId = x.orderId then f.2 else 0).sum = 0 := by
        apply List.sum_eq_zero
        intro n hn
        obtain ⟨f, hf, rfl⟩ := List.mem_map.mp hn
        refine if_neg fun hid => hrests ?_
        have hmaker := (hexec.maker hv hf).1
        rw [hid] at hmaker
        have hasset := hv.disjoint hx hmaker
        subst hasset
        rw [hx] at hmaker
        cases hmaker
        rw [hexec.get_old (Nat.ne_of_lt (hv.below ho))]
        exact hexec.took.fills.not_overtaken ((hv.book p.asset).issue _) ho hbefore hf
      rw [hzero]
      rfl

/-- What rests nowhere trades no more. -/
theorem run_silent {msgs : List Msg} {outputs : List Output} (hv : s.Valid)
    (hreset : ∀ r, Msg.reset r ∉ msgs) {id : Nat} (hgone : Gone s id)
    (hrun : run A builtins s msgs = .ok (s', outputs)) : makerFilled id (executions outputs) = 0 := by
  induction msgs using List.reverseRecOn generalizing s' outputs with
  | nil =>
      cases hrun
      rfl
  | append_singleton msgs msg ih =>
      obtain ⟨s₁, outputs₁, outputs₂, hfront, hlast, rfl⟩ := run_concat hrun
      have hreset₁ : ∀ r, Msg.reset r ∉ msgs := fun r hmem => hreset r (List.mem_append_left _ hmem)
      obtain ⟨hv₁, hgone₁⟩ := run_gone hv hreset₁ hgone hfront
      have hstep := (handle_venue A builtins s₁ hv₁.book msg).of_ok hlast
      rw [executions_append, makerFilled_append, ih hreset₁ hfront, (hstep.silent hv₁ hgone₁).1]

theorem run_not_overtaken {msgs : List Msg} {outputs : List Output} (hv : s.Valid)
    (hreset : ∀ r, Msg.reset r ∉ msgs) (hrun : run A builtins s msgs = .ok (s', outputs))
    (ho : (s.book asset).orders[o.orderId]? = some o) (hx : (s.book asset).orders[x.orderId]? = some x)
    (hbefore : o.Before x) (hrests : (s'.book asset).orders[o.orderId]? ≠ none) :
    makerFilled x.orderId (executions outputs) = 0 := by
  induction msgs generalizing s o x outputs with
  | nil =>
      cases hrun
      rfl
  | cons msg msgs ih =>
      obtain ⟨⟨s₁, first⟩, hhandle, hrun⟩ := bind_ok hrun
      obtain ⟨⟨s₂, rest⟩, hrest, hrun⟩ := bind_ok hrun
      cases hrun
      have hreset₁ : ∀ r, msg ≠ .reset r := by
        rintro r rfl
        exact hreset r (List.mem_cons_self ..)
      have hreset₂ : ∀ r, Msg.reset r ∉ msgs := fun r hmem => hreset r (List.mem_cons_of_mem _ hmem)
      have hstep := (handle_venue A builtins s hv.book msg).of_ok hhandle
      have hv₁ := hstep.valid hv
      rw [executions_append, makerFilled_append]
      cases hstep.traced hv hreset₁ ho with
      | gone hgone => exact absurd ((run_gone hv₁ hreset₂ hgone hrest).2.2 asset) hrests
      | @resting o₁ ho₁ =>
          have hfirst := hstep.not_overtaken hv ho hx hbefore (by rw [ho₁]; simp)
          cases hstep.traced hv hreset₁ hx with
          | gone hgone => rw [hfirst, run_silent hv₁ hreset₂ hgone hrest]
          | @resting x₁ hx₁ =>
              -- both still rest, one before the other
              have hkeeps : ∀ {y y₁ : Order}, (s.book asset).orders[y.orderId]? = some y →
                  (s₁.book asset).orders[y.orderId]? = some y₁ →
                  y₁.side = y.side ∧ y₁.price = y.price ∧ y₁.orderId = y.orderId := by
                intro y y₁ hy hy₁
                obtain ⟨y₀, hy₀, hside, hprice⟩ := hstep.rested hv (hv.below hy) hy₁
                rw [hy] at hy₀
                cases hy₀
                exact ⟨hside, hprice, (hv₁.book asset).orderId_eq hy₁⟩
              have hpos := hkeeps ho ho₁
              have hpos' := hkeeps hx hx₁
              have hlater := ih hv₁ hreset₂ hrest (hpos.2.2.symm ▸ ho₁) (hpos'.2.2.symm ▸ hx₁)
                (hbefore.congr hpos hpos') (by rwa [hpos.2.2])
              rw [hfirst, ← hpos'.2.2, hlater]

end Runs

/-- **Nobody is overtaken.** In any state that a run reaches, in either build and whatever wraps, let one
order rest before another of its market: on the same side at a better price, or at the same price for
longer. If the one behind trades as a maker in a run without reset from there, then at the end of that run
the one before rests nowhere any more, and what it rested with has been filled since, but for what it was
cancelled with. -/
theorem run_no_overtaking (checks : Bool) (builtins : Builtins) (fees : FeeSchedule) (msgs later : List Msg)
    (hreset : ∀ r, Msg.reset r ∉ later) {s s' : EngineState} {outputs outputs' : List Output}
    (hrun : run (u64 checks) builtins (.new fees) msgs = .ok (s, outputs))
    (hlater : run (u64 checks) builtins s later = .ok (s', outputs')) (asset : Asset) {id id' : Nat}
    {o x : Order} (ho : Rests s id asset o) (hx : Rests s id' asset x) (hbefore : o.Before x)
    (htrades : 0 < makerFilled id' (executions outputs')) :
    (∀ a, (s'.book a).orders[id]? = none) ∧
      makerFilled id (executions outputs') + (cancelledQtys id (executions outputs')).sum
        = o.remainingQty := by
  have hv := ((run_valid (u64 checks) builtins _ (valid_new fees) [] ⟨List.Pairwise.nil, by simp⟩
    msgs).of_ok hrun).1
  have hid := (hv.book asset).orderId_eq ho
  have hid' := (hv.book asset).orderId_eq hx
  subst hid hid'
  have hnone : (s'.book asset).orders[o.orderId]? = none := by
    by_contra hrests
    rw [run_not_overtaken hv hreset hlater ho hx hbefore hrests] at htrades
    exact Nat.lt_irrefl 0 htrades
  obtain ⟨_, htraced⟩ := run_traced hv hreset hlater ho
  cases htraced with
  | resting hget =>
      rw [hnone] at hget
      cases hget
  | gone hgone hsum => exact ⟨hgone.2, hsum.symm⟩

/-- Three asks of two users, the second at a better price and the third behind the first. -/
def threeAsks : List Msg :=
  [.onramp ⟨1, 5000, "q", "a"⟩, .deposit ⟨2, "sol", 10, "q", "b"⟩, .deposit ⟨3, "sol", 10, "q", "c"⟩,
    .order ⟨2, "SOL", "ask", .limit, 100, 5, none, .gtc, "q", "d"⟩,
    .order ⟨3, "SOL", "ask", .limit, 90, 2, none, .gtc, "q", "e"⟩,
    .order ⟨3, "SOL", "ask", .limit, 100, 5, none, .gtc, "q", "f"⟩]

/-- A bid takes the first ask in part, its owner cancels the rest of it, and a second bid reaches the
third. -/
def threeLater : List Msg :=
  [.order ⟨1, "SOL", "bid", .limit, 100, 5, none, .gtc, "q", "g"⟩, .cancel ⟨2, 1, "q", "h"⟩,
    .order ⟨1, "SOL", "bid", .limit, 100, 4, none, .gtc, "q", "i"⟩]

def firstAsk : Order := { orderId := 1, userId := 2, side := .ask, price := 100, remainingQty := 5 }

def thirdAsk : Order := { orderId := 3, userId := 3, side := .ask, price := 100, remainingQty := 5 }

theorem run_no_overtaking_threeAsks :
    ∃ s outputs s' outputs', run (u64 false) .noSlippage (.new ⟨10, 20⟩) threeAsks = .ok (s, outputs) ∧
      run (u64 false) .noSlippage s threeLater = .ok (s', outputs') ∧
      (∀ a, (s'.book a).orders[1]? = none) ∧
      makerFilled 1 (executions outputs') + (cancelledQtys 1 (executions outputs')).sum = 5 := by
  obtain ⟨⟨s, outputs⟩, hrun, htest⟩ := exists_of_returns
    (run (u64 false) .noSlippage (.new ⟨10, 20⟩) threeAsks)
    (fun r => decide ((r.1.book .sol).orders[1]? = some firstAsk) &&
      decide ((r.1.book .sol).orders[3]? = some thirdAsk) &&
      returns (fun r' : EngineState × List Output => decide (0 < makerFilled 3 (executions r'.2)))
        (run (u64 false) .noSlippage r.1 threeLater)) (by decide +kernel)
  simp only [Bool.and_eq_true, decide_eq_true_eq] at htest
  obtain ⟨⟨hfirst, hthird⟩, hreturns⟩ := htest
  obtain ⟨⟨s', outputs'⟩, hlater, htrades⟩ := exists_of_returns _ _ hreturns
  exact ⟨s, outputs, s', outputs', hrun, hlater, run_no_overtaking false .noSlippage ⟨10, 20⟩ threeAsks
    threeLater (by simp [threeLater]) hrun hlater .sol hfirst hthird (by decide)
    (of_decide_eq_true htrades)⟩

end CexRs
