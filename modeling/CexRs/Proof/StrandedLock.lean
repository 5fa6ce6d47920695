import CexRs.Proof.LockCoverage

/-!
# Locked USD without a bid

The maker fee that a resting bid holds back is one floor, and what its fills take are floors of parts.
Where an incoming ask takes a part of a bid and the floors of the two parts fall short of the floor of
the whole, the difference stays locked when the bid is gone. As long as no ask does that, locked USD is
exactly what the resting bids need.
-/

namespace CexRs

open FixedWidth OrderedMap Journal EngineState

structure AcceptedAsk (s : EngineState) (msg : OrderMsg) (asset : Asset) : Prop where
  named : Asset.ofString? msg.asset = some asset
  asks : Side.ofString? msg.side = some .ask
  positive : 0 < msg.qty.toInt
  priced : msg.orderType = .limit → 0 < msg.price.toInt
  afforded : msg.qty.toInt.toNat ≤ (s.asset msg.userId asset).available

def crossedBids (builtins : Builtins) (s : EngineState) (msg : OrderMsg) (asset : Asset) :
    List Order :=
  ((s.book asset).priority .bid).takeWhile fun o => !orderPast builtins s msg asset .ask o.price

def FeeSchedule.SplitsAt (fees : FeeSchedule) (part rest : Nat) : Prop :=
  fees.makerFee (part + rest) = fees.makerFee part + fees.makerFee rest

/-- If a quantity uses up the bids of `front` and then takes a part of the bid `o`, the maker fee on `o`
splits exactly over the part taken and the rest. -/
def FeeSchedule.SplitsAfter (fees : FeeSchedule) (qty : Nat) (front : List Order) (o : Order) : Prop :=
  let taken := qty - (front.map Order.remainingQty).sum
  0 < taken → taken < o.remainingQty →
    fees.SplitsAt (o.price * taken) (o.price * (o.remainingQty - taken))

/-- If the message is an ask that is let through, the bid it takes a part of splits its maker fee
exactly. -/
def SplitsExactly (builtins : Builtins) (s : EngineState) : Msg → Prop
  | .order msg => ∀ asset, AcceptedAsk s msg asset → ∀ front o back,
      crossedBids builtins s msg asset = front ++ o :: back →
        s.feeSchedule.SplitsAfter msg.qty.toInt.toNat front o
  | _ => True

/-- Every message of a run, taken in the state it is handled in, meets a condition. -/
def StepsMeet (cond : EngineState → Msg → Prop) (A : Arith) (builtins : Builtins) :
    EngineState → List Msg → Prop
  | _, [] => True
  | s, msg :: msgs => cond s msg ∧
      ∀ s' outputs, handle A builtins s msg = .ok (s', outputs) → StepsMeet cond A builtins s' msgs

def Exact (s : EngineState) : Prop := ∀ user, s.holding ⟨user, .usd, true⟩ = s.usdNeed user

/-! ### Fills of bids -/

namespace Matching

variable {taker : Taker} {past : Nat → Bool} {m m' : Matching} {fs : List (Order × Nat)}

/-- A bid that is used up, or whose maker fee splits exactly, gives up what the trade takes. -/
theorem bidNeed_fill_eq (fees : FeeSchedule) (user : Nat) {o : Order} {n : Nat}
    (hside : o.side = .bid) (hn : n ≤ o.remainingQty)
    (hsplit : n < o.remainingQty →
      fees.SplitsAt (o.price * n) (o.price * (o.remainingQty - n))) :
    leftWeight (bidNeed fees user) (o, n)
        + (if o.userId = user then o.price * n + fees.makerFee (o.price * n) else 0)
      = bidNeed fees user o := by
  unfold leftWeight bidNeed
  by_cases huser : o.userId = user
  · simp only [huser, hside, and_self, if_true, shrinkOrder, Order.cost]
    by_cases hlt : n < o.remainingQty
    · have hwhole : o.price * n + o.price * (o.remainingQty - n) = o.price * o.remainingQty := by
        rw [← Nat.mul_add, Nat.add_sub_cancel' hn]
      have hfee := hsplit hlt
      rw [FeeSchedule.SplitsAt, hwhole] at hfee
      rw [if_pos hlt]
      omega
    · have hall : n = o.remainingQty := by omega
      rw [if_neg hlt, hall]
      omega
  · simp [huser, shrinkOrder]

theorem Fills.bidNeed_eq (hside : taker.side = .ask) (h : Fills taker past m fs m')
    (hv : m.book.Valid) (fees : FeeSchedule)
    (hsplit : ∀ o n, (o, n) ∈ fs → n < o.remainingQty →
      fees.SplitsAt (o.price * n) (o.price * (o.remainingQty - n))) (user : Nat) :
    weigh (bidNeed fees user) m'.book + paidBy fees user (trades taker fs)
      = weigh (bidNeed fees user) m.book := by
  have heq := h.weigh_eq hv (bidNeed fees user)
  have hsum : (fs.map (leftWeight (bidNeed fees user))).sum + paidBy fees user (trades taker fs)
      = (fs.map fun f => bidNeed fees user f.1).sum := by
    rw [paidBy, trades, List.map_map, ← List.sum_map_add]
    congr 1
    refine List.map_congr_left ?_
    rintro ⟨o, n⟩ hmem
    obtain ⟨_, hmaker, _, _, hn⟩ := h.mem hv hmem
    rw [hside] at hmaker
    have hfill := bidNeed_fill_eq fees user hmaker hn (hsplit o n hmem)
    simpa [fillTrade_ask hside, Trade.debit, Trade.value, FeeSchedule.feeOfBuyer] using hfill
  omega

end Matching

/-! ### Effects and runs -/

theorem Exact.of_moves {s s' : EngineState} (hexact : Exact s) {ps : List (Posting Account)}
    (h : Moves s s' ps) (hps : ∀ x ∈ ps, x.account.locked = false) : Exact s' := by
  intro user
  have hposts := h.posts ⟨user, .usd, true⟩
  have hzero : net (· = ⟨user, .usd, true⟩) ps = 0 := by
    refine net_eq_zero _ fun x hx heq => ?_
    have hfalse := hps x hx
    simp [heq] at hfalse
  rw [usdNeed_of_same h.venue, ← hexact user]
  omega

theorem exact_of_empty {s : EngineState} (horders : ∀ asset, (s.book asset).orders = ∅)
    (husd : s.usdBalance = ∅) : Exact s := by
  intro user
  simp [usdNeed, Asset.all, weigh_of_empty (horders _), holding, balance, usd, husd]

theorem Placed.exact {s : EngineState} {msg : OrderMsg} {side : Side} {past : Nat → Bool} {qty : Nat}
    {fs : List (Order × Nat)} {m : Matching} {resting : Option Order} {p : Placement}
    (h : Placed s msg side past qty fs m resting p) (hexact : Exact s) (hv : s.Valid)
    (hsplit : side = .ask → ∀ o n, (o, n) ∈ fs → n < o.remainingQty →
      s.feeSchedule.SplitsAt (o.price * n) (o.price * (o.remainingQty - n))) :
    Exact p.state := by
  intro user
  have hbefore := hexact user
  cases hside : side with
  | bid =>
      have husd := h.usd_of_bid hside hv user
      omega
  | ask =>
      obtain ⟨hlocked, hneed⟩ := h.usd_of_ask hside hv user
      subst hside
      have hweigh := Matching.Fills.bidNeed_eq rfl h.executed.took.fills
        ((hv.book p.asset).issue s.nextOrderId) s.feeSchedule (hsplit rfl) user
      simp only [Orderbook.weigh_countTo] at hweigh hneed
      omega

theorem Effect.exact {builtins : Builtins} {s s' : EngineState} {msg : Msg}
    {events : List ExecutionEvent} (h : Effect builtins s msg s' events) (hexact : Exact s)
    (hv : s.Valid) (hsplit : SplitsExactly builtins s msg) : Exact s' := by
  cases h with
  | still _ _ _ h => exact hexact.of_moves h (by simp)
  | onramp h => exact hexact.of_moves h (by simp [creditPostings])
  | deposit h => exact hexact.of_moves h (by simp [creditPostings])
  | @order msg side fs m p bids asks hadmitted _ h =>
      refine h.exact hexact hv ?_
      rintro rfl o n hmem hlt
      have hform := hadmitted.wellFormed
      have haccepted : AcceptedAsk s msg p.asset :=
        ⟨hform.asset, hform.side, hform.positive, hform.priced, hadmitted.afforded⟩
      rcases h.executed.took.greedy with hnil | hgreedy
      · rw [hnil] at hmem
        cases hmem
      · rw [hgreedy] at hmem
        obtain ⟨front, back, hcrossed, hfront, hend, hn⟩ := Greedy.mem_fills_partial _ hmem hlt
        have hfee := hsplit p.asset haccepted front o back hcrossed (by omega) (by omega)
        rwa [← hn] at hfee
  | cancel hget huser hvenue h =>
      intro user
      have husd := cancel_usd hv hget hvenue h user
      have hbefore := hexact user
      omega
  | reset => exact exact_of_empty (by rintro (_ | _ | _) <;> rfl) rfl

theorem run_exact (builtins : Builtins) (s : EngineState) (hcov : s.Covered) (hv : s.Valid)
    (hexact : Exact s) (msgs : List Msg)
    (hsteps : StepsMeet (SplitsExactly builtins) (u64 true) builtins s msgs) :
    Meets Overflows (run (u64 true) builtins s msgs) fun r => Exact r.1 := by
  induction msgs generalizing s with
  | nil => exact hexact
  | cons msg msgs ih =>
      obtain ⟨hsplit, hrest⟩ := hsteps
      unfold run
      have hhandle := handle_spec builtins s hcov hv msg
      cases hrun : handle (u64 true) builtins s msg with
      | error f => exact hhandle.of_error hrun
      | ok r =>
          have heffect := hhandle.of_ok hrun
          exact (ih r.1 (heffect.covered hcov hv) (heffect.valid hv)
            (heffect.exact hexact hv hsplit) (hrest r.1 r.2 hrun)).bind fun _ hr => hr

def NoRestingBid (s : EngineState) (user : Nat) : Prop :=
  ∀ (asset : Asset) (id : Nat) (o : Order), (s.book asset).orders[id]? = some o →
    ¬ (o.side = .bid ∧ o.userId = user)

theorem usdNeed_of_noRestingBid {s : EngineState} {user : Nat} (h : NoRestingBid s user) :
    s.usdNeed user = 0 := by
  have hzero : ∀ asset, Matching.weigh (bidNeed s.feeSchedule user) (s.book asset) = 0 := by
    intro asset
    unfold Matching.weigh total
    rw [List.sum_eq_zero_iff]
    intro n hn
    obtain ⟨e, he, rfl⟩ := List.mem_map.mp hn
    exact if_neg (h asset e.1 e.2 (mem_toList.mp he))
  simp [usdNeed, Asset.all, hzero]

/-! ### Deciding the condition -/

instance (s : EngineState) (msg : OrderMsg) (asset : Asset) : Decidable (AcceptedAsk s msg asset) :=
  decidable_of_iff (Asset.ofString? msg.asset = some asset ∧ Side.ofString? msg.side = some .ask ∧
      0 < msg.qty.toInt ∧ (msg.orderType = .limit → 0 < msg.price.toInt) ∧
      msg.qty.toInt.toNat ≤ (s.asset msg.userId asset).available)
    ⟨fun ⟨h₁, h₂, h₃, h₄, h₅⟩ => ⟨h₁, h₂, h₃, h₄, h₅⟩,
      fun ⟨h₁, h₂, h₃, h₄, h₅⟩ => ⟨h₁, h₂, h₃, h₄, h₅⟩⟩

instance (fees : FeeSchedule) (qty : Nat) (front : List Order) (o : Order) :
    Decidable (fees.SplitsAfter qty front o) :=
  have (part rest : Nat) : Decidable (fees.SplitsAt part rest) := inferInstanceAs (Decidable (_ = _))
  inferInstanceAs (Decidable (_ → _))

/-- Every bid of the list is reached by taking what stands before it. -/
theorem forall_split_iff {α : Type} {l : List α} {p : List α → α → Prop} :
    (∀ front o back, l = front ++ o :: back → p front o) ↔
      ∀ i : Fin l.length, p (l.take i) (l.get i) := by
  constructor
  · intro h i
    apply h (l.take i) (l.get i) (l.drop (i + 1))
    simp
  · rintro h front o back rfl
    have hat := h ⟨front.length, by simp⟩
    simpa using hat

instance (builtins : Builtins) (s : EngineState) (msg : Msg) :
    Decidable (SplitsExactly builtins s msg) :=
  match msg with
  | .order msg =>
      decidable_of_iff (∀ asset ∈ Asset.all, AcceptedAsk s msg asset →
          ∀ i : Fin (crossedBids builtins s msg asset).length,
            s.feeSchedule.SplitsAfter msg.qty.toInt.toNat
              ((crossedBids builtins s msg asset).take i)
              ((crossedBids builtins s msg asset).get i))
        (by
          have hall : ∀ asset, asset ∈ Asset.all := by rintro (_ | _ | _) <;> decide
          simp only [hall, forall_const]
          exact forall_congr' fun asset => imp_congr_right fun _ => by rw [← forall_split_iff])
  | .signup _ | .onramp _ | .deposit _ | .balance _ | .cancel _ | .orderbook _ | .openOrders _
  | .orderStatus _ | .reset _ => isTrue trivial

instance decidableStepsMeet (cond : EngineState → Msg → Prop) [∀ s msg, Decidable (cond s msg)]
    (A : Arith) (builtins : Builtins) :
    (s : EngineState) → (msgs : List Msg) → Decidable (StepsMeet cond A builtins s msgs)
  | _, [] => isTrue trivial
  | s, msg :: msgs =>
      have : Decidable (∀ s' outputs, handle A builtins s msg = .ok (s', outputs) →
          StepsMeet cond A builtins s' msgs) :=
        match hhandle : handle A builtins s msg with
        | .error _ => isTrue (by simp)
        | .ok (s', outputs) =>
            have := decidableStepsMeet cond A builtins s' msgs
            decidable_of_iff (StepsMeet cond A builtins s' msgs) (by
              simp only [Except.ok.injEq, Prod.mk.injEq, and_imp]
              exact ⟨fun h s'' _ heq _ => heq ▸ h, fun h => h s' outputs rfl rfl⟩)
      inferInstanceAs (Decidable (_ ∧ _))

/-- **No stranded USD.** In a run in which nothing overflows and every partial fill of a resting bid
splits its maker fee exactly, a user without a resting bid has no USD locked. -/
theorem run_strands_no_usd (builtins : Builtins) (fees : FeeSchedule) (msgs : List Msg)
    (hover : run (u64 true) builtins (.new fees) msgs ≠ .error .overflow)
    (hsteps : StepsMeet (SplitsExactly builtins) (u64 true) builtins (.new fees) msgs) :
    ∃ s outputs, (∀ checks, run (u64 checks) builtins (.new fees) msgs = .ok (s, outputs)) ∧
      ∀ user, NoRestingBid s user → (s.usd user).locked = 0 := by
  obtain ⟨s, outputs, hrun, _⟩ := runs_of_ne_overflow hover
  have hempty : Exact (.new fees) := exact_of_empty (by rintro (_ | _ | _) <;> rfl) rfl
  have hexact := (run_exact builtins _ (covered_new fees) (valid_new fees) hempty msgs hsteps).of_ok
    (hrun true)
  refine ⟨s, outputs, hrun, fun user huser => ?_⟩
  rw [← usdNeed_of_noRestingBid huser]
  exact hexact user

instance (s : EngineState) (user : Nat) : Decidable (NoRestingBid s user) :=
  decidable_of_iff (∀ asset ∈ Asset.all, ∀ e ∈ (s.book asset).orders.toList,
      ¬ (e.2.side = .bid ∧ e.2.userId = user))
    (by
      have hall : ∀ asset, asset ∈ Asset.all := by rintro (_ | _ | _) <;> decide
      simp only [hall, forall_const, NoRestingBid, Prod.forall, mem_toList])

/-- Two partial fills that each carry a whole unit of the maker fee leave nothing locked. -/
theorem run_strands_no_usd_session :
    ∃ s outputs, run (u64 false) .noSlippage (.new ⟨20, 10⟩) session = .ok (s, outputs) ∧
      NoRestingBid s 1 ∧ (s.usd 1).locked = 0 := by
  obtain ⟨s, outputs, hrun, hlocked⟩ := run_strands_no_usd .noSlippage ⟨20, 10⟩ session
    (ne_overflow_of_overflowed (by decide +kernel)) (by decide +kernel)
  obtain ⟨r, hr, hbid⟩ := exists_of_returns
    (run (u64 false) .noSlippage (.new ⟨20, 10⟩) session)
    (fun r => decide (NoRestingBid r.1 1)) (by decide +kernel)
  rw [hrun false] at hr
  cases hr
  have hnone := of_decide_eq_true hbid
  exact ⟨s, outputs, hrun false, hnone, hlocked 1 hnone⟩

/-- At ten basis points the same two fills pay no maker fee, and the unit that was held back for the
whole bid stays locked when the bid is gone. -/
theorem run_strands_usd_session :
    ∃ s outputs, (∀ checks, run (u64 checks) .noSlippage (.new ⟨10, 20⟩) session
        = .ok (s, outputs)) ∧ NoRestingBid s 1 ∧ (s.usd 1).locked = 1 := by
  obtain ⟨⟨s, outputs⟩, hrun, htest⟩ := exists_of_returns
    (run (u64 true) .noSlippage (.new ⟨10, 20⟩) session)
    (fun r => decide (NoRestingBid r.1 1 ∧ (r.1.usd 1).locked = 1)) (by decide +kernel)
  exact ⟨s, outputs, fun checks => run_agrees checks _ _ _ _ hrun, of_decide_eq_true htest⟩

end CexRs
