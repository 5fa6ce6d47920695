import CexRs.Proof.Cancels

/-!
# Trade events

The events of an order's trades are built once the whole match has run. They still tell the fills apart
and say what each left of its maker, since a match meets a maker once and an id is handed out once; so
what an order has rested with is accounted for by its later fills, its cancellation and what still rests.
-/

namespace CexRs

open FixedWidth OrderedMap EngineState

def ExecutionEvent.tradeRef : ExecutionEvent → Option (Nat × Nat)
  | .tradeExecuted makerOrderId takerOrderId _ _ _ _ _ _ _ _ _ _ => some (makerOrderId, takerOrderId)
  | _ => none

def tradeRefs (events : List ExecutionEvent) : List (Nat × Nat) :=
  events.filterMap ExecutionEvent.tradeRef

def ExecutionEvent.makerFill (id : Nat) : ExecutionEvent → Nat
  | .tradeExecuted makerOrderId _ _ _ _ _ qty _ _ _ _ _ => if makerOrderId = id then qty else 0
  | _ => 0

def makerFilled (id : Nat) (events : List ExecutionEvent) : Nat :=
  (events.map (ExecutionEvent.makerFill id)).sum

def ExecutionEvent.cancelledQty (id : Nat) : ExecutionEvent → Option Nat
  | .orderCancelled orderId _ remainingQty => if orderId = id then some remainingQty else none
  | _ => none

def cancelledQtys (id : Nat) (events : List ExecutionEvent) : List Nat :=
  events.filterMap (ExecutionEvent.cancelledQty id)

@[simp] theorem tradeRefs_append (events events' : List ExecutionEvent) :
    tradeRefs (events ++ events') = tradeRefs events ++ tradeRefs events' :=
  List.filterMap_append

@[simp] theorem makerFilled_append (id : Nat) (events events' : List ExecutionEvent) :
    makerFilled id (events ++ events') = makerFilled id events + makerFilled id events' := by
  simp [makerFilled]

@[simp] theorem cancelledQtys_append (id : Nat) (events events' : List ExecutionEvent) :
    cancelledQtys id (events ++ events') = cancelledQtys id events ++ cancelledQtys id events' :=
  List.filterMap_append

/-! ### A match meets a maker once -/

theorem Matching.Fills.nodup_makers {taker : Taker} {past : Nat → Bool} {m m' : Matching}
    {fs : List (Order × Nat)} (h : Fills taker past m fs m') (hv : m.book.Valid) :
    (fs.map fun f => f.1.orderId).Nodup := by
  induction h with
  | refl m => exact List.nodup_nil
  | @step m m' o rest fs hpos hfront hcross htail ih =>
      have hfilled := valid_fill hv hfront
      rw [List.map_cons, List.nodup_cons]
      refine ⟨?_, ih hfilled⟩
      intro hmem
      obtain ⟨⟨o', n⟩, hf, hid⟩ := List.mem_map.mp hmem
      obtain ⟨hget, _⟩ := htail.mem hfilled hf
      by_cases hle : o.remainingQty ≤ m.remainingQty
      · -- a maker that is used up has left the book
        simp only at hid
        rw [hid] at hget
        simp [fill, if_pos hle] at hget
      · -- nothing remains after a partial fill, so none follows
        have hzero : (m.fill taker o).remainingQty = 0 := by
          simp only [fill]
          omega
        cases htail with
        | refl => cases hf
        | step hpos' => omega

/-! ### The events of a match -/

section Reports

variable {ob : Orderbook} {asset : Asset} {taker : Taker} {fs : List (Order × Nat)}
  {events : List ExecutionEvent}

def Taker.Reports (ob : Orderbook) (asset : Asset) (taker : Taker) (f : Order × Nat)
    (event : ExecutionEvent) : Prop :=
  ∃ buyer seller price quoteAmount buyerFee sellerFee, event = .tradeExecuted f.1.orderId taker.orderId
    buyer seller asset.market price f.2 quoteAmount (ob.unfilled f.1.orderId) 0 buyerFee sellerFee

theorem reports_fills
    (h : List.Forall₂ (Trade.Reports ob asset) (Matching.trades taker fs) events) :
    List.Forall₂ (taker.Reports ob asset) fs events := by
  rw [Matching.trades, List.forall₂_map_left_iff] at h
  apply h.imp
  rintro f event ⟨quoteAmount, buyerFee, sellerFee, rfl⟩
  cases hside : taker.side with
  | bid =>
      rw [Matching.fillTrade_bid hside]
      exact ⟨_, _, _, _, _, _, rfl⟩
  | ask =>
      rw [Matching.fillTrade_ask hside]
      exact ⟨_, _, _, _, _, _, rfl⟩

theorem tradeRefs_reports (h : List.Forall₂ (taker.Reports ob asset) fs events) :
    tradeRefs events = fs.map fun f => (f.1.orderId, taker.orderId) := by
  induction h with
  | nil => rfl
  | cons hreports _ ih =>
      obtain ⟨_, _, _, _, _, _, rfl⟩ := hreports
      rw [List.map_cons, ← ih]
      rfl

theorem makerFilled_reports (h : List.Forall₂ (taker.Reports ob asset) fs events) (id : Nat) :
    makerFilled id events = (fs.map fun f => if f.1.orderId = id then f.2 else 0).sum := by
  induction h with
  | nil => rfl
  | cons hreports _ ih =>
      obtain ⟨_, _, _, _, _, _, rfl⟩ := hreports
      rw [List.map_cons, List.sum_cons, ← ih]
      rfl

theorem cancelledQtys_reports (h : List.Forall₂ (taker.Reports ob asset) fs events) (id : Nat) :
    cancelledQtys id events = [] := by
  induction h with
  | nil => rfl
  | cons hreports _ ih =>
      obtain ⟨_, _, _, _, _, _, rfl⟩ := hreports
      exact ih

/-- What a maker that is met once has given. -/
theorem sum_maker (hnodup : (fs.map fun f => f.1.orderId).Nodup) {f : Order × Nat} (hf : f ∈ fs) :
    (fs.map fun f' => if f'.1.orderId = f.1.orderId then f'.2 else 0).sum = f.2 := by
  induction fs with
  | nil => cases hf
  | cons f' fs ih =>
      rw [List.map_cons, List.nodup_cons] at hnodup
      rw [List.map_cons, List.sum_cons]
      rcases List.mem_cons.mp hf with rfl | hmem
      · have hothers : (fs.map fun f' => if f'.1.orderId = f.1.orderId then f'.2 else 0).sum = 0 := by
          apply List.sum_eq_zero
          intro n hn
          obtain ⟨f', hf', rfl⟩ := List.mem_map.mp hn
          apply if_neg
          intro heq
          exact hnodup.1 (List.mem_map.mpr ⟨f', hf', heq⟩)
        rw [if_pos rfl, hothers, Nat.add_zero]
      · have hne : f'.1.orderId ≠ f.1.orderId := by
          intro heq
          exact hnodup.1 (List.mem_map.mpr ⟨f, hmem, heq.symm⟩)
        rw [if_neg hne, Nat.zero_add, ih hnodup.2 hmem]

end Reports

section Resting

variable (msg : OrderMsg) (asset : Asset) (resting : Option Order)

@[simp] theorem tradeRefs_depth (market : String) (bids asks : List (Nat × Nat)) :
    tradeRefs [.depthUpdated market bids asks] = [] := rfl

@[simp] theorem tradeRefs_resting : tradeRefs (restingEvents msg asset resting) = [] := by
  cases resting <;> rfl

@[simp] theorem makerFilled_resting (id : Nat) : makerFilled id (restingEvents msg asset resting) = 0 := by
  cases resting <;> rfl

@[simp] theorem cancelledQtys_resting (id : Nat) :
    cancelledQtys id (restingEvents msg asset resting) = [] := by
  cases resting <;> rfl

variable {msg asset resting} in
/-- Of what an order publishes, only the events of its match are trades. -/
theorem mem_events_of_tradeRef {events : List ExecutionEvent} {market : String}
    {bids asks : List (Nat × Nat)} {e : ExecutionEvent} {ref : Nat × Nat} (href : e.tradeRef = some ref)
    (he : e ∈ events ++ restingEvents msg asset resting ++ [.depthUpdated market bids asks]) :
    e ∈ events := by
  rw [List.mem_append, List.mem_append] at he
  rcases he with (hmem | hmem) | hmem
  · exact hmem
  · unfold restingEvents at hmem
    rw [Option.mem_toList, Option.map_eq_some_iff] at hmem
    obtain ⟨o, _, rfl⟩ := hmem
    cases href
  · rw [List.mem_singleton] at hmem
    subst hmem
    cases href

end Resting

section Funding

variable {events : List ExecutionEvent} (h : ∀ e ∈ events, ∃ user currency amount operation,
  e = .fundingExecuted user currency amount operation)

include h

theorem tradeRefs_funding : tradeRefs events = [] := by
  apply List.filterMap_eq_nil_iff.mpr
  intro e he
  obtain ⟨_, _, _, _, rfl⟩ := h e he
  rfl

theorem makerFilled_funding (id : Nat) : makerFilled id events = 0 := by
  apply List.sum_eq_zero
  intro n hn
  obtain ⟨e, he, rfl⟩ := List.mem_map.mp hn
  obtain ⟨_, _, _, _, rfl⟩ := h e he
  rfl

theorem cancelledQtys_funding (id : Nat) : cancelledQtys id events = [] := by
  apply List.filterMap_eq_nil_iff.mpr
  intro e he
  obtain ⟨_, _, _, _, rfl⟩ := h e he
  rfl

end Funding

/-! ### What a message says of the makers -/

/-- Among the trade events of a message each maker occurs once, and with what has been filled before it
and what it fills itself, each event leaves of the maker what rested before the message. -/
structure MakersReported (s : EngineState) (events : List ExecutionEvent) : Prop where
  once : ((tradeRefs events).map Prod.fst).Nodup
  remaining : ∀ {front back : List ExecutionEvent} {makerOrderId takerOrderId buyer seller : Nat}
    {market : String} {price qty quoteAmount makerRemainingQty takerRemainingQty buyerFee sellerFee : Nat},
    events = front ++ .tradeExecuted makerOrderId takerOrderId buyer seller market price qty quoteAmount
      makerRemainingQty takerRemainingQty buyerFee sellerFee :: back →
    ∃ asset o, market = Asset.market asset ∧ Rests s makerOrderId asset o ∧
      makerFilled makerOrderId front + qty + makerRemainingQty = o.remainingQty

theorem makersReported_of_nil {s : EngineState} {events : List ExecutionEvent}
    (h : tradeRefs events = []) : MakersReported s events := by
  constructor
  · rw [h]
    exact List.nodup_nil
  · rintro front back makerOrderId takerOrderId _ _ _ _ _ _ _ _ _ _ rfl
    rw [tradeRefs_append] at h
    cases (List.append_eq_nil_iff.mp h).2

section Steps

variable {A : Arith} {builtins : Builtins} {s s' : EngineState}

theorem Executed.unfilled_maker {asset : Asset} {taker : Taker} {past : Nat → Bool} {qty : Nat}
    {fs : List (Order × Nat)} {m : Matching} {resting : Option Order}
    (h : Executed s s' asset taker past qty fs m resting) (hv : s.Valid) {f : Order × Nat} (hf : f ∈ fs) :
    f.2 + (s'.book asset).unfilled f.1.orderId = f.1.remainingQty := by
  have hle := (h.took.fills.mem ((hv.book asset).issue taker.orderId) hf).2.2.2.2
  have hget := h.get_maker hv hf
  simp only [Orderbook.unfilled, Orderbook.getOrder, hget]
  split
  · simp only [Matching.shrinkOrder, Option.map_some, Option.getD_some]
    omega
  · simp only [Option.map_none, Option.getD_none]
    omega

theorem Enters.makersReported {msg : OrderMsg} {side : Side} {found : Bool} {fs : List (Order × Nat)}
    {m : Matching} {p : Placement} (h : Enters A builtins s msg side found fs m p) (hv : s.Valid)
    (bids asks : List (Nat × Nat)) :
    MakersReported s (p.settlement.events
      ++ restingEvents msg p.asset (remainderOf msg ⟨s.nextOrderId, msg.userId, side⟩ m)
      ++ [.depthUpdated p.asset.market bids asks]) := by
  have hexec := h.filled.executed
  have hreports := reports_fills h.filled.reports
  have hnodup := hexec.took.fills.nodup_makers ((hv.book p.asset).issue _)
  constructor
  · rw [tradeRefs_append, tradeRefs_append, tradeRefs_resting, tradeRefs_reports hreports, tradeRefs_depth,
      List.append_nil, List.append_nil, List.map_map]
    exact hnodup
  · intro front back makerOrderId _ _ _ _ _ qty _ makerRemainingQty _ _ _ hsplit
    have hmem := mem_events_of_tradeRef rfl
      (hsplit.symm ▸ List.mem_append_right front (List.mem_cons_self ..))
    obtain ⟨f, hf, hreport⟩ := exists_left_of_mem hreports hmem
    obtain ⟨_, _, _, _, _, _, heq⟩ := hreport
    cases heq
    have hrests := (hexec.maker hv hf).1
    have hleft := hexec.unfilled_maker hv hf
    -- the event itself accounts for all that the message has filled of the maker
    have htotal := congrArg (makerFilled f.1.orderId) hsplit
    rw [makerFilled_append, makerFilled_append, makerFilled_resting, makerFilled_reports hreports,
      sum_maker hnodup hf, makerFilled_append] at htotal
    simp only [makerFilled, List.map_cons, List.map_nil, List.sum_cons, List.sum_nil,
      ExecutionEvent.makerFill, if_true] at htotal
    refine ⟨p.asset, f.1, rfl, hrests, ?_⟩
    simp only [makerFilled]
    omega

theorem VenueStep.makersReported {msg : Msg} {events : List ExecutionEvent}
    (h : VenueStep A builtins s msg s' events) (hv : s.Valid) : MakersReported s events := by
  cases h with
  | idle _ hevents => exact makersReported_of_nil (tradeRefs_funding hevents)
  | order henters => exact henters.makersReported hv _ _
  | cancel _ _ _ => exact makersReported_of_nil rfl
  | reset => exact makersReported_of_nil rfl

/-- The trades of a message have makers from before it, and the id that the message takes. -/
theorem VenueStep.refs {msg : Msg} {events : List ExecutionEvent}
    (h : VenueStep A builtins s msg s' events) (hv : s.Valid) (hreset : ∀ r, msg ≠ .reset r) :
    s.nextOrderId ≤ s'.nextOrderId ∧ ∀ ref ∈ tradeRefs events,
      ref.1 < s.nextOrderId ∧ s.nextOrderId ≤ ref.2 ∧ ref.2 < s'.nextOrderId := by
  cases h with
  | idle hsame hevents =>
      rw [tradeRefs_funding hevents]
      exact ⟨le_of_eq hsame.nextOrderId.symm, by simp⟩
  | @order msg side found fs m p bids asks henters =>
      have hexec := henters.filled.executed
      have hnext := hexec.nextOrderId
      refine ⟨by omega, fun ref href => ?_⟩
      rw [tradeRefs_append, tradeRefs_append, tradeRefs_resting, tradeRefs_depth, List.append_nil,
        List.append_nil, tradeRefs_reports (reports_fills henters.filled.reports)] at href
      obtain ⟨f, hf, rfl⟩ := List.mem_map.mp href
      exact ⟨hv.below (hexec.maker hv hf).1, le_refl _, by rw [hnext]; exact Nat.lt_succ_self _⟩
  | cancel _ _ hsame =>
      refine ⟨le_of_eq ?_, fun ref href => by cases href⟩
      rw [hsame.nextOrderId, nextOrderId_setBook]
  | @reset msg => exact absurd rfl (hreset msg)

end Steps

/-- Over a run without reset, no two trades have the same maker and the same taker, and the maker of a
trade has the lower id. -/
theorem run_tradeRefs {A : Arith} {builtins : Builtins} {fees : FeeSchedule} {msgs : List Msg}
    {s : EngineState} {outputs : List Output} (hreset : ∀ r, Msg.reset r ∉ msgs)
    (hrun : run A builtins (.new fees) msgs = .ok (s, outputs)) :
    s.Valid ∧ (tradeRefs (executions outputs)).Nodup ∧
      ∀ ref ∈ tradeRefs (executions outputs), ref.1 < ref.2 ∧ ref.2 < s.nextOrderId := by
  induction msgs using List.reverseRecOn generalizing s outputs with
  | nil =>
      cases hrun
      exact ⟨valid_new fees, List.nodup_nil, fun ref href => by cases href⟩
  | append_singleton msgs msg ih =>
      obtain ⟨s₁, outputs₁, outputs₂, hfront, hlast, rfl⟩ := run_concat hrun
      obtain ⟨hv, hnodup, hbelow⟩ := ih (fun r hmem => hreset r (List.mem_append_left _ hmem)) hfront
      have hstep := (handle_venue A builtins s₁ hv.book msg).of_ok hlast
      obtain ⟨hmono, hrefs⟩ := hstep.refs hv (by
        rintro r rfl
        exact hreset r (List.mem_append_right _ (List.mem_singleton_self _)))
      have hmakers := (hstep.makersReported hv).once
      rw [executions_append, tradeRefs_append]
      refine ⟨hstep.valid hv, ?_, ?_⟩
      · apply List.Nodup.append hnodup (List.Nodup.of_map _ hmakers)
        -- the ids of later takers are not below the counter
        intro ref href href'
        have hlt := (hbelow ref href).2
        have hle := (hrefs ref href').2.1
        omega
      · intro ref href
        rcases List.mem_append.mp href with href | href
        · exact ⟨(hbelow ref href).1, lt_of_lt_of_le (hbelow ref href).2 hmono⟩
        · obtain ⟨hmaker, hle, hlt⟩ := hrefs ref href
          exact ⟨lt_of_lt_of_le hmaker hle, hlt⟩

/-! ### What becomes of a resting order -/

/-- What an order rested with is accounted for: by what it has given as a maker since, by the quantity it
was cancelled with, and by what still rests. -/
structure Accounted (o : Order) (s : EngineState) (asset : Asset) (events : List ExecutionEvent) :
    Prop where
  sum : o.remainingQty = makerFilled o.orderId events + (cancelledQtys o.orderId events).sum
    + (s.book asset).unfilled o.orderId
  once : (cancelledQtys o.orderId events).length ≤ 1
  gone : cancelledQtys o.orderId events ≠ [] → ∀ a, (s.book a).orders[o.orderId]? = none

inductive Traced (o : Order) (s : EngineState) (asset : Asset) (events : List ExecutionEvent) : Prop
  | resting {o' : Order} (hget : (s.book asset).orders[o.orderId]? = some o')
      (hsum : o.remainingQty = makerFilled o.orderId events + o'.remainingQty)
      (hcancelled : cancelledQtys o.orderId events = [])
  | gone (hgone : Gone s o.orderId)
      (hsum : o.remainingQty
        = makerFilled o.orderId events + (cancelledQtys o.orderId events).sum)
      (honce : (cancelledQtys o.orderId events).length ≤ 1)

theorem Traced.accounted {o : Order} {s : EngineState} {asset : Asset} {events : List ExecutionEvent}
    (h : Traced o s asset events) : Accounted o s asset events := by
  cases h with
  | resting hget hsum hcancelled =>
      refine ⟨?_, ?_, fun hne => absurd hcancelled hne⟩
      · simp [Orderbook.unfilled, Orderbook.getOrder, hget, hcancelled, hsum]
      · simp [hcancelled]
  | gone hgone hsum honce =>
      refine ⟨?_, honce, fun _ => hgone.2⟩
      simp [Orderbook.unfilled, Orderbook.getOrder, hgone.2 asset, hsum]

section Trace

variable {A : Arith} {builtins : Builtins} {s s' : EngineState} {msg : Msg}
  {events : List ExecutionEvent}

/-- No event of a message names an order that rests nowhere as a maker, or as cancelled. -/
theorem VenueStep.silent (h : VenueStep A builtins s msg s' events) (hv : s.Valid) {id : Nat}
    (hgone : Gone s id) : makerFilled id events = 0 ∧ cancelledQtys id events = [] := by
  cases h with
  | idle _ hevents => exact ⟨makerFilled_funding hevents id, cancelledQtys_funding hevents id⟩
  | @order msg side found fs m p bids asks henters =>
      have hreports := reports_fills henters.filled.reports
      constructor
      · have hzero : (fs.map fun f => if f.1.orderId = id then f.2 else 0).sum = 0 := by
          apply List.sum_eq_zero
          intro n hn
          obtain ⟨f, hf, rfl⟩ := List.mem_map.mp hn
          apply if_neg
          rintro rfl
          have hget := (henters.filled.executed.maker hv hf).1
          rw [hgone.2] at hget
          cases hget
        rw [makerFilled_append, makerFilled_append, makerFilled_resting, makerFilled_reports hreports, hzero]
        rfl
      · rw [cancelledQtys_append, cancelledQtys_append, cancelledQtys_resting,
          cancelledQtys_reports hreports]
        rfl
  | @cancel msg s' asset o bids asks hget huser hsame =>
      have hid := (hv.book asset).orderId_eq hget
      have hne : o.orderId ≠ id := by
        rintro rfl
        rw [← hid, hgone.2] at hget
        cases hget
      refine ⟨rfl, ?_⟩
      simp [cancelledQtys, ExecutionEvent.cancelledQty, hne]
  | reset => exact ⟨rfl, rfl⟩

theorem Enters.traced {msg : OrderMsg} {side : Side} {found : Bool} {fs : List (Order × Nat)}
    {m : Matching} {p : Placement} (h : Enters A builtins s msg side found fs m p) (hv : s.Valid)
    (bids asks : List (Nat × Nat)) {asset : Asset} {o : Order}
    (hget : (s.book asset).orders[o.orderId]? = some o) :
    Traced o p.state asset (p.settlement.events
      ++ restingEvents msg p.asset (remainderOf msg ⟨s.nextOrderId, msg.userId, side⟩ m)
      ++ [.depthUpdated p.asset.market bids asks]) := by
  have hexec := h.filled.executed
  have hreports := reports_fills h.filled.reports
  have hbelow := hv.below hget
  have hfilled : makerFilled o.orderId (p.settlement.events
      ++ restingEvents msg p.asset (remainderOf msg ⟨s.nextOrderId, msg.userId, side⟩ m)
      ++ [.depthUpdated p.asset.market bids asks])
      = (fs.map fun f => if f.1.orderId = o.orderId then f.2 else 0).sum := by
    rw [makerFilled_append, makerFilled_append, makerFilled_resting, makerFilled_reports hreports]
    rfl
  have hcancelled : cancelledQtys o.orderId (p.settlement.events
      ++ restingEvents msg p.asset (remainderOf msg ⟨s.nextOrderId, msg.userId, side⟩ m)
      ++ [.depthUpdated p.asset.market bids asks]) = [] := by
    rw [cancelledQtys_append, cancelledQtys_append, cancelledQtys_resting, cancelledQtys_reports hreports]
    rfl
  by_cases hmaker : ∃ f ∈ fs, f.1.orderId = o.orderId
  · obtain ⟨f, hf, hid⟩ := hmaker
    have hrests := (hexec.maker hv hf).1
    rw [hid] at hrests
    have hasset := hv.disjoint hget hrests
    subst hasset
    rw [hget] at hrests
    cases hrests
    have hsum := sum_maker (hexec.took.fills.nodup_makers ((hv.book p.asset).issue _)) hf
    have hleft := hexec.unfilled_maker hv hf
    cases hafter : (p.state.book p.asset).orders[f.1.orderId]? with
    | some o' =>
        simp only [Orderbook.unfilled, Orderbook.getOrder, hafter, Option.map_some,
          Option.getD_some] at hleft
        exact .resting hafter (by rw [hfilled, hsum]; omega) hcancelled
    | none =>
        simp only [Orderbook.unfilled, Orderbook.getOrder, hafter, Option.map_none,
          Option.getD_none] at hleft
        refine .gone ⟨by rw [hexec.nextOrderId]; omega, fun a => ?_⟩ ?_ (by rw [hcancelled]; decide)
        · by_cases ha : a = p.asset
          · rw [ha]
            exact hafter
          · rw [hexec.book_other a ha]
            cases hother : (s.book a).orders[f.1.orderId]? with
            | none => rfl
            | some o' => exact absurd (hv.disjoint hother hget) ha
        · rw [hfilled, hsum, hcancelled, List.sum_nil]
          omega
  · have hother : ∀ f ∈ fs, f.1.orderId ≠ o.orderId := fun f hf heq => hmaker ⟨f, hf, heq⟩
    have hzero : (fs.map fun f => if f.1.orderId = o.orderId then f.2 else 0).sum = 0 := by
      apply List.sum_eq_zero
      intro n hn
      obtain ⟨f, hf, rfl⟩ := List.mem_map.mp hn
      exact if_neg (hother f hf)
    refine .resting ((hexec.get_other (by omega) hother asset).trans hget) ?_ hcancelled
    rw [hfilled, hzero, Nat.zero_add]

theorem VenueStep.traced (h : VenueStep A builtins s msg s' events) (hv : s.Valid)
    (hreset : ∀ r, msg ≠ .reset r) {asset : Asset} {o : Order}
    (hget : (s.book asset).orders[o.orderId]? = some o) : Traced o s' asset events := by
  cases h with
  | idle hsame hevents =>
      refine .resting (by rw [hsame.book]; exact hget) ?_ (cancelledQtys_funding hevents _)
      rw [makerFilled_funding hevents, Nat.zero_add]
  | order henters => exact henters.traced hv _ _ hget
  | @cancel msg s' a o₀ bids asks hget₀ huser hsame =>
      have hid := (hv.book a).orderId_eq hget₀
      by_cases hsame_id : o₀.orderId = o.orderId
      · have hget₁ : (s.book a).orders[o.orderId]? = some o₀ := by
          rw [← hsame_id, hid]
          exact hget₀
        have ha := hv.disjoint hget hget₁
        subst ha
        rw [hget] at hget₁
        cases hget₁
        have hcancelled : cancelledQtys o.orderId [.orderCancelled o.orderId o.userId o.remainingQty,
            .depthUpdated asset.market bids asks] = [o.remainingQty] := by
          simp [cancelledQtys, ExecutionEvent.cancelledQty]
        have hgone := (takesOut_remove hv hget hsame).gone hv hget
        refine .gone hgone ?_ (by rw [hcancelled]; exact le_refl _)
        rw [hcancelled]
        simp [makerFilled, ExecutionEvent.makerFill]
      · have hget' : (s'.book asset).orders[o.orderId]? = some o := by
          rw [hsame.book]
          by_cases ha : asset = a
          · subst ha
            rw [book_setBook_self, Orderbook.orders_remove, get_erase, if_neg hsame_id]
            exact hget
          · rw [book_setBook_of_ne _ _ _ ha]
            exact hget
        refine .resting hget' ?_ ?_
        · simp [makerFilled, ExecutionEvent.makerFill]
        · simp [cancelledQtys, ExecutionEvent.cancelledQty, hsame_id]
  | @reset msg => exact absurd rfl (hreset msg)

theorem Traced.step {o : Order} {asset : Asset} {events₀ : List ExecutionEvent}
    (h : Traced o s asset events₀) (hv : s.Valid) (hreset : ∀ r, msg ≠ .reset r)
    (hstep : VenueStep A builtins s msg s' events) : Traced o s' asset (events₀ ++ events) := by
  cases h with
  | @resting o' hget hsum hcancelled =>
      have hid : o'.orderId = o.orderId := (hv.book asset).orderId_eq hget
      have htraced : Traced o' s' asset events := hstep.traced hv hreset (hid.symm ▸ hget)
      cases htraced with
      | @resting o'' hget' hsum' hcancelled' =>
          rw [hid] at hget' hsum' hcancelled'
          refine .resting hget' ?_ ?_
          · rw [makerFilled_append]
            omega
          · rw [cancelledQtys_append, hcancelled, hcancelled']
            rfl
      | gone hgone hsum' honce =>
          rw [hid] at hgone hsum' honce
          refine .gone hgone ?_ ?_
          · rw [makerFilled_append, cancelledQtys_append, hcancelled, List.nil_append]
            omega
          · rw [cancelledQtys_append, hcancelled, List.nil_append]
            exact honce
  | gone hgone hsum honce =>
      obtain ⟨hfilled, hcancelled⟩ := hstep.silent hv hgone
      refine .gone (hstep.gone hv hreset hgone) ?_ ?_
      · rw [makerFilled_append, cancelledQtys_append, hfilled, hcancelled, List.append_nil, Nat.add_zero]
        exact hsum
      · rw [cancelledQtys_append, hcancelled, List.append_nil]
        exact honce

/-- Over a run without reset, whatever rests at its start is accounted for at its end. -/
theorem run_traced {msgs : List Msg} {outputs : List Output} (hv : s.Valid)
    (hreset : ∀ r, Msg.reset r ∉ msgs) (hrun : run A builtins s msgs = .ok (s', outputs))
    {asset : Asset} {o : Order} (hget : (s.book asset).orders[o.orderId]? = some o) :
    s'.Valid ∧ Traced o s' asset (executions outputs) := by
  induction msgs using List.reverseRecOn generalizing s' outputs with
  | nil =>
      cases hrun
      exact ⟨hv, .resting hget (Nat.zero_add _).symm rfl⟩
  | append_singleton msgs msg ih =>
      obtain ⟨s₁, outputs₁, outputs₂, hfront, hlast, rfl⟩ := run_concat hrun
      obtain ⟨hv₁, htraced⟩ := ih (fun r hmem => hreset r (List.mem_append_left _ hmem)) hfront
      have hstep := (handle_venue A builtins s₁ hv₁.book msg).of_ok hlast
      refine ⟨hstep.valid hv₁, ?_⟩
      rw [executions_append]
      apply htraced.step hv₁ _ hstep
      rintro r rfl
      exact hreset r (List.mem_append_right _ (List.mem_singleton_self _))

end Trace

/-- **Trade events identify fills.** Over a run without reset, in either build, no two trade events have
the same maker and the same taker; among those of one message each maker occurs once, and each says what
its fill has left of the maker; and from any point at which an order rests, its quantity is accounted for
by its later fills, by the quantity it was cancelled with, and by what still rests. -/
theorem run_trades_accounted (checks : Bool) (builtins : Builtins) (fees : FeeSchedule) (msgs : List Msg)
    (hreset : ∀ r, Msg.reset r ∉ msgs) {s : EngineState} {outputs : List Output}
    (hrun : run (u64 checks) builtins (.new fees) msgs = .ok (s, outputs)) :
    (tradeRefs (executions outputs)).Nodup ∧
    (∀ (front back : List Msg) (msg : Msg) (s₁ s₂ : EngineState) (outputs₁ outputs₂ : List Output),
      msgs = front ++ msg :: back → run (u64 checks) builtins (.new fees) front = .ok (s₁, outputs₁) →
      handle (u64 checks) builtins s₁ msg = .ok (s₂, outputs₂) →
      MakersReported s₁ (executions outputs₂)) ∧
    ∀ (front back : List Msg) (s₁ : EngineState) (outputs₁ outputs₂ : List Output) (asset : Asset)
      (id : Nat) (o : Order), msgs = front ++ back →
      run (u64 checks) builtins (.new fees) front = .ok (s₁, outputs₁) →
      run (u64 checks) builtins s₁ back = .ok (s, outputs₂) → Rests s₁ id asset o →
      o.orderId = id ∧ Accounted o s asset (executions outputs₂) := by
  refine ⟨(run_tradeRefs hreset hrun).2.1, ?_, ?_⟩
  · rintro front back msg s₁ s₂ outputs₁ outputs₂ rfl hfront hhandle
    have hv := (run_tradeRefs (fun r hmem => hreset r (List.mem_append_left _ hmem)) hfront).1
    exact ((handle_venue (u64 checks) builtins s₁ hv.book msg).of_ok hhandle).makersReported hv
  · rintro front back s₁ outputs₁ outputs₂ asset id o rfl hfront hback hrests
    have hv := (run_tradeRefs (fun r hmem => hreset r (List.mem_append_left _ hmem)) hfront).1
    have hid := (hv.book asset).orderId_eq hrests
    refine ⟨hid, (run_traced hv (fun r hmem => hreset r (List.mem_append_right _ hmem)) hback
      (hid.symm ▸ hrests)).2.accounted⟩

/-- The two fills of the bid are told apart. -/
theorem run_trades_accounted_session :
    ∃ s outputs, run (u64 false) .noSlippage (.new ⟨10, 20⟩) session = .ok (s, outputs) ∧
      tradeRefs (executions outputs) = [(1, 2), (1, 3)] ∧ (tradeRefs (executions outputs)).Nodup := by
  obtain ⟨⟨s, outputs⟩, hrun, htest⟩ := exists_of_returns
    (run (u64 false) .noSlippage (.new ⟨10, 20⟩) session)
    (fun r => decide (tradeRefs (executions r.2) = [(1, 2), (1, 3)])) (by decide +kernel)
  exact ⟨s, outputs, hrun, of_decide_eq_true htest,
    (run_trades_accounted false .noSlippage ⟨10, 20⟩ session (by simp [session]) hrun).1⟩

end CexRs
