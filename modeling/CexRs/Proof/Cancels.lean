import CexRs.Proof.Depth
import CexRs.Proof.PaidBuys

/-!
# Cancels

A cancel takes one order out of its queue and gives its owner back what the order held. In a run that
never left the word, the sum that can still leave it is the owner's available balance.
-/

namespace CexRs

open FixedWidth OrderedMap Journal EngineState

/-! ### Runs that return are within the word -/

section Returned

variable {builtins : Builtins} {s s' : EngineState}

/-- A limit order that the checking build has let through has a cost and a fee within the word. -/
theorem handleLimit_sized {msg : OrderMsg} {asset : Asset} {side : Side} {p : Placement}
    (h : handleLimit (u64 true) s msg asset side msg.qty.toInt.toNat = .ok (.placed p)) :
    s.feeSchedule.Sized (limitCost msg) := by
  unfold handleLimit at h
  split at h
  · cases h
  · obtain ⟨cost, hcost, h⟩ := bind_ok h
    obtain ⟨product, hproduct, h⟩ := bind_ok h
    obtain ⟨total, htotal, _⟩ := bind_ok h
    have hexact : cost = limitCost msg := wrap_ok hcost
    subst hexact
    have hlt := wrap_lt hproduct
    have hsum := wrap_lt htotal
    rw [wrap_ok hproduct] at hlt htotal
    rw [wrap_ok htotal] at hsum
    exact ⟨hlt, hsum⟩

theorem handleOrder_wordSized (hcov : s.Covered) (hv : s.Valid) (hword : WordSized s) {msg : OrderMsg}
    {outputs : List Output} (h : handleOrder (u64 true) s builtins msg = .ok (s', outputs)) :
    WordSized s' := by
  obtain ⟨verdict, hjudge, h⟩ := bind_ok h
  have hverdict := (judgeOrder_spec s builtins msg hcov hv).of_ok hjudge
  cases verdict with
  | refused state reply =>
      cases h
      exact hword.of_same hverdict.1.venue
  | placed p =>
      obtain ⟨side, fs, m, hadmitted, _, hplaced⟩ := hverdict
      obtain ⟨depth, hdepth, h⟩ := bind_ok h
      obtain ⟨snapshot, hstate, _⟩ := bind_ok hdepth
      cases h
      have hform := hadmitted.wellFormed
      constructor
      · apply hplaced.sized hv hform.positive hword.sized
        intro hlimit
        unfold judgeOrder at hjudge
        simp only [hform.asset, hform.side, if_neg (Int.not_le.mpr hform.positive), hlimit] at hjudge
        exact handleLimit_sized hjudge
      · intro asset
        by_cases hasset : asset = p.asset
        · subst hasset
          exact Orderbook.shallow_of_getState ((hplaced.executed.valid hv).book p.asset) hstate
        · rw [hplaced.executed.book_other asset hasset]
          exact hword.shallow asset

/-- A run of the checking build that returns has kept the bounds. -/
theorem run_wordSized {msgs : List Msg} {outputs : List Output} (hcov : s.Covered) (hv : s.Valid)
    (hword : WordSized s) (h : run (u64 true) builtins s msgs = .ok (s', outputs)) :
    s'.Covered ∧ s'.Valid ∧ WordSized s' := by
  induction msgs generalizing s outputs with
  | nil =>
      cases h
      exact ⟨hcov, hv, hword⟩
  | cons msg msgs ih =>
      obtain ⟨⟨s₁, first⟩, hhandle, h⟩ := bind_ok h
      obtain ⟨⟨s₂, rest⟩, hrest, h⟩ := bind_ok h
      cases h
      have heffect := (handle_spec builtins s hcov hv msg).of_ok hhandle
      apply ih (heffect.covered hcov hv) (heffect.valid hv) _ hrest
      apply heffect.wordSized_of hv hword
      rintro order rfl
      exact handleOrder_wordSized hcov hv hword hhandle

end Returned

/-! ### What a cancel does -/

/-- One order is taken out of its queue, and the level with it if nothing else is queued there; all else
stands as before. -/
structure TakesOut (s s' : EngineState) (asset : Asset) (o : Order) : Prop where
  orders : ∀ id : Nat, (s'.book asset).orders[id]?
    = if id = o.orderId then none else (s.book asset).orders[id]?
  levels : ∀ (side : Side) (price : Nat), ((s'.book asset).levels side)[price]?
    = (((s.book asset).levels side)[price]?).bind fun level =>
      if level.orders.erase o.orderId = [] then none else some ⟨level.orders.erase o.orderId⟩
  bookCounter : (s'.book asset).nextOrderId = (s.book asset).nextOrderId
  others : ∀ a, a ≠ asset → s'.book a = s.book a
  nextOrderId : s'.nextOrderId = s.nextOrderId
  feeSchedule : s'.feeSchedule = s.feeSchedule

structure Refunds (s s' : EngineState) (user : Nat) (currency : Currency) (amount : Nat) : Prop where
  covered : amount ≤ (s.balance user currency).locked
  moved : s'.balance user currency
    = ⟨(s.balance user currency).available + amount, (s.balance user currency).locked - amount⟩
  others : ∀ user' currency', ¬ (user' = user ∧ currency' = currency) →
    s'.balance user' currency' = s.balance user' currency'

def Rests (s : EngineState) (id : Nat) (asset : Asset) (o : Order) : Prop :=
  (s.book asset).orders[id]? = some o

structure CancelledExactly (s : EngineState) (msg : CancelMsg) (s' : EngineState)
    (outputs : List Output) : Prop where
  owned : ∀ asset o, Rests s msg.orderId asset o → o.userId = msg.userId →
    TakesOut s s' asset o ∧
      Refunds s s' o.userId (funds o.side asset) (o.held s.feeSchedule)
  refused : (∀ asset o, Rests s msg.orderId asset o → o.userId ≠ msg.userId) →
    s' = s ∧ ∃ error, outputs = [replyCancelError msg.queueId msg.identifier error] ∧
      (error = "Not order owner" ↔ ∃ asset o, Rests s msg.orderId asset o) ∧
      (error = "Open order not found" ↔ ¬ ∃ asset o, Rests s msg.orderId asset o)

section Cancel

variable {s s' : EngineState} {asset : Asset} {o : Order}

theorem takesOut_remove (hv : s.Valid) (hget : (s.book asset).orders[o.orderId]? = some o)
    (hvenue : SameVenue (s.setBook asset ((s.book asset).remove o)) s') : TakesOut s s' asset o := by
  have hbook : s'.book asset = (s.book asset).remove o := by
    rw [hvenue.book, book_setBook_self]
  constructor
  · intro id
    rw [hbook, Orderbook.orders_remove, get_erase]
    by_cases hid : o.orderId = id
    · rw [if_pos hid, if_pos hid.symm]
    · rw [if_neg hid, if_neg (Ne.symm hid)]
  · intro side price
    rw [hbook, Orderbook.get_remove (hv.book asset) hget]
  · rw [hbook]
    cases hside : o.side <;> simp [Orderbook.remove, Orderbook.setLevels, hside]
  · intro a ha
    rw [hvenue.book, book_setBook_of_ne _ _ _ ha]
  · rw [hvenue.nextOrderId, nextOrderId_setBook]
  · rw [hvenue.feeSchedule, feeSchedule_setBook]

theorem EngineState.Pays.refunds {user : Nat} {currency : Currency} {amount : Nat}
    (h : Pays s s' (unlockPostings user currency amount))
    (hle : amount ≤ s.holding ⟨user, currency, true⟩) : Refunds s s' user currency amount := by
  have havailable : ∀ user' currency', ((s'.balance user' currency').available : Int)
      = (s.balance user' currency').available
        + if user = user' ∧ currency = currency' then (amount : Int) else 0 := by
    intro user' currency'
    have hposts := h.posts ⟨user', currency', false⟩
    simpa [holding, unlockPostings] using hposts
  have hlocked : ∀ user' currency', ((s'.balance user' currency').locked : Int)
      = (s.balance user' currency').locked
        + if user = user' ∧ currency = currency' then -(amount : Int) else 0 := by
    intro user' currency'
    have hposts := h.posts ⟨user', currency', true⟩
    simpa [holding, unlockPostings] using hposts
  have hcovered : amount ≤ (s.balance user currency).locked := hle
  refine ⟨hcovered, ?_, ?_⟩
  · have ha := havailable user currency
    have hl := hlocked user currency
    rw [if_pos ⟨rfl, rfl⟩] at ha hl
    apply Balance.ext
    · simp only
      omega
    · simp only
      omega
  · intro user' currency' hne
    have ha := havailable user' currency'
    have hl := hlocked user' currency'
    have hne' : ¬ (user = user' ∧ currency = currency') := fun heq => hne ⟨heq.1.symm, heq.2.symm⟩
    rw [if_neg hne'] at ha hl
    apply Balance.ext
    · omega
    · omega

theorem handleCancel_exact (hcov : s.Covered) (hv : s.Valid) (msg : CancelMsg) :
    Meets Overflows (handleCancel (u64 true) s msg) fun r => CancelledExactly s msg r.1 r.2 := by
  have hany : (Asset.all.any fun asset => ((s.book asset).getOrder msg.orderId).isSome) = true
      ↔ ∃ asset o, Rests s msg.orderId asset o := by
    rw [List.any_eq_true]
    constructor
    · rintro ⟨asset, _, hsome⟩
      obtain ⟨o, hget⟩ := Option.isSome_iff_exists.mp hsome
      exact ⟨asset, o, hget⟩
    · rintro ⟨asset, o, hget⟩
      exact ⟨asset, by cases asset <;> decide, Option.isSome_iff_exists.mpr ⟨o, hget⟩⟩
  unfold handleCancel
  rcases cancelInBooks_spec s hv.book msg.orderId msg.userId Asset.all with
    ⟨hrun, hnone⟩ | ⟨asset, o, hget, huser, hrun⟩
  · rw [hrun]
    refine ⟨?_, fun _ => ⟨rfl, _, rfl, ?_, ?_⟩⟩
    · intro asset o hrests howner
      exact absurd howner (hnone asset (by cases asset <;> decide) o hrests)
    · rw [← hany]
      split <;> simp_all
    · rw [← hany]
      split <;> simp_all
  · rw [hrun]
    have hid := (hv.book asset).orderId_eq hget
    have hpays := pays_setBook s asset ((s.book asset).remove o)
    have hle := held_le s hcov hget
    refine (refundCancelled_spec (s.setBook asset ((s.book asset).remove o)) asset
      (by rwa [feeSchedule_setBook, hpays.holding_eq])).bind fun s' hmoves => ?_
    refine (depthEvent_venue (u64 true) s' asset).bind ?_
    rintro _ ⟨bids, asks, rfl⟩
    have hpaid := hpays.trans hmoves.toPays
    rw [feeSchedule_setBook] at hpaid
    refine meets_ok.mpr ⟨?_, fun hothers => absurd huser (hothers asset o hget)⟩
    intro asset' o' hrests _
    have hasset := hv.disjoint hrests hget
    subst hasset
    rw [Rests, hget] at hrests
    cases hrests
    exact ⟨takesOut_remove hv (hid.symm ▸ hget) hmoves.venue, hpaid.refunds hle⟩

/-- The refund that any build pays out leaves a word in the available balance. -/
theorem handleCancel_available_lt (checks : Bool) (hv : s.Valid) {msg : CancelMsg} {outputs : List Output}
    (hget : (s.book asset).orders[msg.orderId]? = some o) (howner : o.userId = msg.userId)
    (h : handleCancel (u64 checks) s msg = .ok (s', outputs)) :
    (s'.balance o.userId (funds o.side asset)).available < 2 ^ 64 := by
  unfold handleCancel at h
  rcases cancelInBooks_spec s hv.book msg.orderId msg.userId Asset.all with
    ⟨_, hnone⟩ | ⟨asset', o', hget', _, hrun⟩
  · exact absurd howner (hnone asset (by cases asset <;> decide) o hget)
  · have hasset := hv.disjoint hget' hget
    subst hasset
    rw [hget] at hget'
    cases hget'
    simp only [hrun, ok_bind] at h
    obtain ⟨s₁, hrefund, h⟩ := bind_ok h
    obtain ⟨depth, _, h⟩ := bind_ok h
    cases h
    have hpaid : ∀ {currency : Currency} {amount : Nat} {s₀ s₁ : EngineState},
        s₀.balanceMut o.userId currency (Balance.unlock (u64 checks) amount) = .ok s₁ →
        (s₁.balance o.userId currency).available < 2 ^ 64 := by
      intro currency amount s₀ s₁ hmut
      obtain ⟨b, hb, rfl⟩ := balanceMut_ok hmut
      obtain ⟨locked, _, hb⟩ := bind_ok hb
      obtain ⟨available, hadd, hb⟩ := bind_ok hb
      cases hb
      rw [balance_withBalance, if_pos ⟨rfl, rfl⟩]
      exact wrap_lt hadd
    unfold refundCancelled at hrefund
    simp only [cancelled] at hrefund
    cases hside : o.side with
    | bid =>
        simp only [hside] at hrefund
        obtain ⟨cost, _, hrefund⟩ := bind_ok hrefund
        obtain ⟨fee, _, hrefund⟩ := bind_ok hrefund
        obtain ⟨refund, _, hrefund⟩ := bind_ok hrefund
        exact hpaid hrefund
    | ask =>
        simp only [hside] at hrefund
        exact hpaid hrefund

end Cancel

/-! ### After a cancel -/

def Gone (s : EngineState) (id : Nat) : Prop :=
  id < s.nextOrderId ∧ ∀ asset, (s.book asset).orders[id]? = none

section Gone

variable {A : Arith} {builtins : Builtins} {s s' : EngineState} {id : Nat}

theorem VenueStep.gone {msg : Msg} {events : List ExecutionEvent}
    (h : VenueStep A builtins s msg s' events) (hv : s.Valid) (hreset : ∀ r, msg ≠ .reset r)
    (hgone : Gone s id) : Gone s' id := by
  obtain ⟨hbelow, hnone⟩ := hgone
  cases h with
  | idle hsame _ =>
      refine ⟨hsame.nextOrderId.symm ▸ hbelow, fun asset => ?_⟩
      rw [hsame.book]
      exact hnone asset
  | @order msg side found fs m p bids asks henters =>
      have hexec := henters.filled.executed
      refine ⟨by rw [hexec.nextOrderId]; omega, fun asset => ?_⟩
      cases hget : (p.state.book asset).orders[id]? with
      | none => rfl
      | some o =>
          rcases hexec.get_orders (hv.book p.asset) hget with ⟨o₀, hget₀⟩ | ⟨_, hid⟩
          · rw [hnone asset] at hget₀
            cases hget₀
          · omega
  | @cancel msg s' asset o bids asks hget huser hsame =>
      refine ⟨by rw [hsame.nextOrderId, nextOrderId_setBook]; exact hbelow, fun a => ?_⟩
      rw [hsame.book]
      cases hget' : ((s.setBook asset ((s.book asset).remove o)).book a).orders[id]? with
      | none => rfl
      | some o' =>
          have hbefore := get_orders_removed hget'
          rw [hnone a] at hbefore
          cases hbefore
  | @reset msg => exact absurd rfl (hreset msg)

theorem run_gone {msgs : List Msg} {outputs : List Output} (hv : s.Valid)
    (hreset : ∀ r, Msg.reset r ∉ msgs) (hgone : Gone s id)
    (hrun : run A builtins s msgs = .ok (s', outputs)) : s'.Valid ∧ Gone s' id := by
  induction msgs generalizing s outputs with
  | nil =>
      cases hrun
      exact ⟨hv, hgone⟩
  | cons msg msgs ih =>
      obtain ⟨⟨s₁, first⟩, hhandle, hrun⟩ := bind_ok hrun
      obtain ⟨⟨s₂, rest⟩, hrest, hrun⟩ := bind_ok hrun
      cases hrun
      have hstep := (handle_venue A builtins s hv.book msg).of_ok hhandle
      apply ih (hstep.valid hv) (fun r hmem => hreset r (List.mem_cons_of_mem _ hmem)) _ hrest
      apply hstep.gone hv _ hgone
      rintro r rfl
      exact hreset r (List.mem_cons_self ..)

theorem handleCancel_gone (hv : s.Valid) (hgone : Gone s id) {msg : CancelMsg} (hid : msg.orderId = id) :
    handleCancel A s msg
      = .ok (s, [replyCancelError msg.queueId msg.identifier "Open order not found"]) := by
  subst hid
  unfold handleCancel
  rcases cancelInBooks_spec s hv.book msg.orderId msg.userId Asset.all with
    ⟨hrun, _⟩ | ⟨asset, o, hget, _⟩
  · have hany : (Asset.all.any fun asset => ((s.book asset).getOrder msg.orderId).isSome) = false := by
      rw [List.any_eq_false]
      intro asset _
      simp [Orderbook.getOrder, hgone.2 asset]
    rw [hrun, ok_bind]
    simp only [hany]
    rfl
  · rw [hgone.2 asset] at hget
    cases hget

variable (A builtins) in
/-- From here on, as long as there is no reset, every cancel of an id is told that no such order is
open. -/
def NeverFoundAgain (s : EngineState) (id : Nat) : Prop :=
  ∀ (msgs : List Msg) (s' : EngineState) (outputs : List Output), (∀ r, Msg.reset r ∉ msgs) →
    run A builtins s msgs = .ok (s', outputs) → ∀ msg : CancelMsg, msg.orderId = id →
      handleCancel A s' msg
        = .ok (s', [replyCancelError msg.queueId msg.identifier "Open order not found"])

theorem Gone.neverFoundAgain (hgone : Gone s id) (hv : s.Valid) : NeverFoundAgain A builtins s id := by
  intro msgs s' outputs hreset hrun msg hid
  obtain ⟨hv', hgone'⟩ := run_gone hv hreset hgone hrun
  exact handleCancel_gone hv' hgone' hid

end Gone

/-! ### Reached states -/

def CancelsExactly (A : Arith) (builtins : Builtins) (s : EngineState) (msg : CancelMsg) : Prop :=
  ∃ s' outputs, handleCancel A s msg = .ok (s', outputs) ∧ CancelledExactly s msg s' outputs ∧
    ∀ asset o, Rests s msg.orderId asset o → o.userId = msg.userId →
      NeverFoundAgain A builtins s' msg.orderId

def RefundFits (s : EngineState) (msg : CancelMsg) : Prop :=
  ∀ asset o, Rests s msg.orderId asset o → o.userId = msg.userId →
    (s.balance o.userId (funds o.side asset)).available + o.held s.feeSchedule < 2 ^ 64

theorem TakesOut.gone {s s' : EngineState} {asset : Asset} {o : Order} (h : TakesOut s s' asset o)
    (hv : s.Valid) (hget : (s.book asset).orders[o.orderId]? = some o) : Gone s' o.orderId := by
  refine ⟨h.nextOrderId.symm ▸ hv.below hget, fun a => ?_⟩
  by_cases ha : a = asset
  · subst ha
    rw [h.orders, if_pos rfl]
  · rw [h.others a ha]
    cases hget' : (s.book a).orders[o.orderId]? with
    | none => rfl
    | some o' => exact absurd (hv.disjoint hget' hget) ha

theorem cancelsExactly_of_fits {builtins : Builtins} {s : EngineState} (hcov : s.Covered) (hv : s.Valid)
    (hword : WordSized s) (checks : Bool) {msg : CancelMsg} (hfits : RefundFits s msg) :
    CancelsExactly (u64 checks) builtins s msg := by
  have hstep : StepFits builtins s (.cancel msg) := fun asset _ o hget howner =>
    hfits asset o hget howner
  obtain ⟨⟨s', outputs⟩, hrun, hexact⟩ := (handleCancel_exact hcov hv msg).ok_of_fits
    (handleCancel_fits hcov hv hword msg hstep)
  have hvalid : s'.Valid :=
    ((handleCancel_spec builtins s hcov hv msg).of_ok hrun).valid hv
  refine ⟨s', outputs, handleCancel_agrees checks s msg _ hrun, hexact, ?_⟩
  intro asset o hrests howner
  have hid := (hv.book asset).orderId_eq hrests
  have hgone := (hexact.owned asset o hrests howner).1.gone hv (hid.symm ▸ hrests)
  rw [hid] at hgone
  exact hgone.neverFoundAgain hvalid

theorem CancelsExactly.fits {builtins : Builtins} {s : EngineState} {checks : Bool} {msg : CancelMsg}
    (h : CancelsExactly (u64 checks) builtins s msg) (hv : s.Valid) : RefundFits s msg := by
  obtain ⟨s', outputs, hhandle, hexact, _⟩ := h
  intro asset o hrests howner
  have hmoved := (hexact.owned asset o hrests howner).2.moved
  have hlt := handleCancel_available_lt checks hv hrests howner hhandle
  rw [hmoved] at hlt
  exact hlt

/-- **Cancels are exact where the refund fits.** In a state that a run reaches without leaving the word,
and in either build, a cancel of an order by its owner takes exactly that order out, gives back exactly
what it held and leaves an id that is never found again, and any other cancel changes nothing and is
told why, if and only if the owner's available balance has room for the refund. -/
theorem run_cancels_exactly_iff (builtins : Builtins) (fees : FeeSchedule) (msgs : List Msg)
    (hover : run (u64 true) builtins (.new fees) msgs ≠ .error .overflow) :
    ∃ s outputs, (∀ checks, run (u64 checks) builtins (.new fees) msgs = .ok (s, outputs)) ∧
      ∀ checks msg, CancelsExactly (u64 checks) builtins s msg ↔ RefundFits s msg := by
  obtain ⟨s, outputs, hrun, _⟩ := runs_of_ne_overflow hover
  have hempty : WordSized (.new fees) := wordSized_of_empty (by rintro (_ | _ | _) <;> rfl)
  obtain ⟨hcov, hv, hword⟩ := run_wordSized (covered_new fees) (valid_new fees) hempty (hrun true)
  refine ⟨s, outputs, hrun, fun checks msg => ⟨?_, cancelsExactly_of_fits hcov hv hword checks⟩⟩
  intro hexact
  exact hexact.fits hv

instance (s : EngineState) (msg : CancelMsg) : Decidable (RefundFits s msg) :=
  decidable_of_iff (∀ asset ∈ Asset.all, ∀ o ∈ (s.book asset).orders[msg.orderId]?,
      o.userId = msg.userId →
        (s.balance o.userId (funds o.side asset)).available + o.held s.feeSchedule < 2 ^ 64)
    ⟨fun h asset o hrests => h asset (by cases asset <;> decide) o hrests,
      fun h asset _ o hrests => h asset o hrests⟩

/-- The owner cancels the bid before anything of it is filled. -/
theorem run_cancels_exactly_iff_session :
    ∃ s outputs, run (u64 false) .noSlippage (.new ⟨10, 20⟩) (session.take 3) = .ok (s, outputs) ∧
      (∃ o, Rests s 1 .sol o ∧ o.userId = 1) ∧
      CancelsExactly (u64 false) .noSlippage s ⟨1, 1, "q", "f"⟩ := by
  obtain ⟨s, outputs, hrun, hiff⟩ := run_cancels_exactly_iff .noSlippage ⟨10, 20⟩ (session.take 3)
    (ne_overflow_of_overflowed (by decide +kernel))
  obtain ⟨r, hr, htest⟩ := exists_of_returns
    (run (u64 false) .noSlippage (.new ⟨10, 20⟩) (session.take 3))
    (fun r => ((r.1.book .sol).orders[1]?).any (fun o => o.userId = 1) &&
      decide (RefundFits r.1 ⟨1, 1, "q", "f"⟩)) (by decide +kernel)
  rw [hrun false] at hr
  cases hr
  rw [Bool.and_eq_true] at htest
  obtain ⟨o, hget, huser⟩ := (Option.any_eq_true _ _).mp htest.1
  exact ⟨s, outputs, hrun false, ⟨o, hget, of_decide_eq_true huser⟩,
    (hiff false _).mpr (of_decide_eq_true htest.2)⟩

/-- A user fills the account up, bids, and fills it up again. -/
def fullAccount : List Msg :=
  [.onramp ⟨1, 18446744073709551615, "q", "a"⟩,
    .order ⟨1, "SOL", "bid", .limit, 100, 10, none, .gtc, "q", "b"⟩, .onramp ⟨1, 1001, "q", "c"⟩]

/-- The bid holds 1001, for which the account has no room: its cancel stops the checking build, and in
the other the owner is left with 1000. -/
theorem fullAccount_loses_refund :
    ∃ s outputs, run (u64 true) .noSlippage (.new ⟨10, 20⟩) fullAccount = .ok (s, outputs) ∧
      (∃ o, Rests s 1 .sol o ∧ o.userId = 1) ∧
      handleCancel (u64 true) s ⟨1, 1, "q", "d"⟩ = .error .overflow ∧
      (∃ s' outputs', handleCancel (u64 false) s ⟨1, 1, "q", "d"⟩ = .ok (s', outputs') ∧
        s.usd 1 = ⟨18446744073709551615, 1001⟩ ∧ s'.usd 1 = ⟨1000, 0⟩) ∧
      ∀ checks, ¬ CancelsExactly (u64 checks) .noSlippage s ⟨1, 1, "q", "d"⟩ := by
  obtain ⟨⟨s, outputs⟩, hrun, htest⟩ := exists_of_returns
    (run (u64 true) .noSlippage (.new ⟨10, 20⟩) fullAccount)
    (fun r => ((r.1.book .sol).orders[1]?).any (fun o : Order => o.userId = 1) &&
      overflowed (handleCancel (u64 true) r.1 ⟨1, 1, "q", "d"⟩) &&
      returns (fun r' : EngineState × List Output =>
          decide (r.1.usd 1 = ⟨18446744073709551615, 1001⟩ ∧ r'.1.usd 1 = ⟨1000, 0⟩))
        (handleCancel (u64 false) r.1 ⟨1, 1, "q", "d"⟩) &&
      !decide (RefundFits r.1 ⟨1, 1, "q", "d"⟩)) (by decide +kernel)
  simp only [Bool.and_eq_true, Bool.not_eq_true'] at htest
  obtain ⟨⟨⟨hrests, hover⟩, hreturns⟩, hfits⟩ := htest
  obtain ⟨o, hget, huser⟩ := (Option.any_eq_true _ _).mp hrests
  obtain ⟨⟨s', outputs'⟩, hhandle, hbalances⟩ := exists_of_returns _ _ hreturns
  have hv := (run_valid (u64 true) .noSlippage _ (valid_new ⟨10, 20⟩) []
    ⟨List.Pairwise.nil, by simp⟩ fullAccount).of_ok hrun
  refine ⟨s, outputs, hrun, ⟨o, hget, of_decide_eq_true huser⟩, eq_overflow_of_overflowed hover,
    ⟨s', outputs', hhandle, of_decide_eq_true hbalances⟩, fun checks hexact => ?_⟩
  exact of_decide_eq_false hfits (hexact.fits hv.1)

end CexRs
