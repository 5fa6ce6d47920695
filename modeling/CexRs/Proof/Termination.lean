import CexRs.Lib.Loop
import CexRs.Proof.Quotes

/-!
# The matching loops end

The two nested loops of `add_order_with_id` and of `execute_market_order_with_id`, one pass at a time
and with no bound on their number. Nothing in the loops counts down: the outer one reads the best price
again, and it would turn forever on a level without orders. On a book that satisfies the representation
invariant there is none, so each pass that takes a level up has an order to fill, and a fill takes that
order out of the book or leaves nothing to match.
-/

namespace CexRs

open FixedWidth OrderedMap Loop

namespace Matching

inductive LoopState where
  | outer (m : Matching)
  | inner (price : Nat) (m : Matching)
  | ended (m : Matching)

def LoopState.matching : LoopState → Matching
  | .outer m | .inner _ m | .ended m => m

variable (taker : Taker) (past : Nat → Bool)

/-- From the head of a loop to the next head that the code comes to. -/
def pass : LoopState → Except Fault LoopState
  | .outer m =>
      if m.remainingQty = 0 then return .ended m
      else
        match m.book.best taker.side.opposite with
        | none => return .ended m
        | some price => if past price then return .ended m else return .inner price m
  | .inner price m =>
      if m.remainingQty = 0 then return .outer m
      else
        match (m.book.levels taker.side.opposite)[price]?.bind fun l => l.orders.head? with
        | none => return .outer m
        | some makerId => do
            let (m, continue_) ← m.fillMaker taker price makerId
            return if continue_ then .inner price m else .outer m
  | .ended m => return .ended m

def InnerStep (price makerId : Nat) (m m' : Matching) : Prop :=
  m.remainingQty ≠ 0 ∧
    ((m.book.levels taker.side.opposite)[price]?.bind fun l => l.orders.head?) = some makerId ∧
    ∃ continue_, m.fillMaker taker price makerId = .ok (m', continue_)

def Removes (makerId : Nat) (m m' : Matching) : Prop :=
  (∃ maker, m.book.orders[makerId]? = some maker ∧ maker.side = taker.side.opposite) ∧
    m'.book.orders = m.book.orders.erase makerId

/-- The inner loop runs only at the best price, as long as something remains. -/
def LoopInv : LoopState → Prop
  | .outer m | .ended m => m.book.Valid
  | .inner price m =>
      m.book.Valid ∧ (m.remainingQty = 0 ∨ m.book.best taker.side.opposite = some price)

def Ended (s : LoopState) : Prop := ∃ m, s = .ended m

def makersLeft (m : Matching) : Nat :=
  if m.remainingQty = 0 then 0 else (m.book.priority taker.side.opposite).length

/-- A maker costs three passes at most: one that takes its level up, one that fills it and one that
finds nothing left to match. -/
def passesLeft : LoopState → Nat
  | .outer m => 3 * makersLeft taker m + 1
  | .inner _ m => if m.remainingQty = 0 then 2 else 3 * makersLeft taker m
  | .ended _ => 0

variable {taker past} {m m' : Matching} {price makerId fuel : Nat} {s s' : LoopState}

theorem LoopInv.valid (h : LoopInv taker s) : s.matching.book.Valid := by
  cases s with
  | outer m => exact h
  | inner price m => exact h.1
  | ended m => exact h

theorem makersLeft_zero (h : m.remainingQty = 0) : makersLeft taker m = 0 := if_pos h

/-! ### The bounded loops are the same loops -/

variable (past) in
theorem pass_inner (hpos : m.remainingQty ≠ 0)
    (hhead : ((m.book.levels taker.side.opposite)[price]?.bind fun l => l.orders.head?) = some makerId)
    {continue_ : Bool} (hfill : m.fillMaker taker price makerId = .ok (m', continue_)) :
    pass taker past (.inner price m)
      = .ok (if continue_ then .inner price m' else .outer m') := by
  simp only [pass, if_neg hpos, hhead, hfill]
  rfl

variable (past) in
theorem consumeLevel_reaches (h : consumeLevel taker price fuel m = .ok m') :
    ∃ n, Reaches (pass taker past) n (.inner price m) (.outer m') := by
  induction fuel generalizing m with
  | zero => simp [consumeLevel] at h
  | succ fuel ih =>
      rw [consumeLevel] at h
      split at h
      · next hzero =>
          cases h
          exact ⟨1, .head (by simp only [pass, if_pos hzero]; rfl) (.refl _)⟩
      · next hpos =>
          split at h
          · next hnone =>
              cases h
              exact ⟨1, .head (by simp only [pass, if_neg hpos, hnone]; rfl) (.refl _)⟩
          · next makerId hhead =>
              obtain ⟨⟨m₁, continue_⟩, hfill, hrest⟩ := bind_ok h
              have hpass := pass_inner past hpos hhead hfill
              cases continue_ with
              | true =>
                  obtain ⟨n, hreach⟩ := ih hrest
                  exact ⟨n + 1, .head hpass hreach⟩
              | false =>
                  cases hrest
                  exact ⟨1, .head hpass (.refl _)⟩

variable (past) in
theorem matchLevels_reaches (h : matchLevels taker past fuel m = .ok m') :
    ∃ n, Reaches (pass taker past) n (.outer m) (.ended m') := by
  induction fuel generalizing m with
  | zero => simp [matchLevels] at h
  | succ fuel ih =>
      rw [matchLevels] at h
      split at h
      · next hzero =>
          cases h
          exact ⟨1, .head (by simp only [pass, if_pos hzero]; rfl) (.refl _)⟩
      · next hpos =>
          split at h
          · next hnone =>
              cases h
              exact ⟨1, .head (by simp only [pass, if_neg hpos, hnone]; rfl) (.refl _)⟩
          · next price hbest =>
              split at h
              · next hpast =>
                  cases h
                  exact ⟨1, .head (by simp only [pass, if_neg hpos, hbest, hpast]; rfl) (.refl _)⟩
              · next hcross =>
                  obtain ⟨m₁, hinner, hrest⟩ := bind_ok h
                  obtain ⟨n, hlevel⟩ := consumeLevel_reaches past hinner
                  obtain ⟨n', hreach⟩ := ih hrest
                  refine ⟨n + n' + 1, .head ?_ (hlevel.trans hreach)⟩
                  simp only [pass, if_neg hpos, hbest, hcross]
                  rfl

/-! ### One pass -/

/-- The outer loop breaks, or it takes up the best level with something to match against it. -/
theorem pass_outer_cases (m : Matching) :
    pass taker past (.outer m) = .ok (.ended m) ∨
      ∃ price, pass taker past (.outer m) = .ok (.inner price m) ∧ m.remainingQty ≠ 0 ∧
        m.book.best taker.side.opposite = some price := by
  unfold pass
  by_cases hzero : m.remainingQty = 0
  · exact Or.inl (if_pos hzero)
  · simp only [if_neg hzero]
    cases hbest : m.book.best taker.side.opposite with
    | none => exact Or.inl rfl
    | some price =>
        cases hpast : past price with
        | true => exact Or.inl (if_pos hpast)
        | false => exact Or.inr ⟨price, by simp [hpast, pure, Except.pure], hzero, rfl⟩

theorem makersLeft_fill {o : Order} {rest : List Order} (hv : m.book.Valid)
    (hfront : m.book.priority taker.side.opposite = o :: rest) (hpos : m.remainingQty ≠ 0) :
    makersLeft taker (m.fill taker o) < makersLeft taker m := by
  have hbefore : makersLeft taker m = rest.length + 1 := by
    rw [makersLeft, if_neg hpos, hfront, List.length_cons]
  rw [hbefore]
  by_cases hle : o.remainingQty ≤ m.remainingQty
  · rw [makersLeft, priority_fill hv hfront, if_pos hle]
    split <;> omega
  · -- the maker keeps its place, but nothing remains for it to fill
    have hzero : (m.fill taker o).remainingQty = 0 := by
      simp only [fill]
      omega
    rw [makersLeft_zero hzero]
    omega

variable (past) in
/-- Short of its end a loop has another pass, which keeps the invariant and uses up what it counts. -/
theorem pass_spec (h : LoopInv taker s) (hend : ¬ Ended s) :
    ∃ s', pass taker past s = .ok s' ∧ LoopInv taker s' ∧ passesLeft taker s' < passesLeft taker s := by
  cases s with
  | ended m => exact absurd ⟨m, rfl⟩ hend
  | outer m =>
      rcases pass_outer_cases m with hpass | ⟨price, hpass, hpos, hbest⟩
      · exact ⟨.ended m, hpass, h, Nat.succ_pos _⟩
      · refine ⟨.inner price m, hpass, ⟨h, Or.inr hbest⟩, ?_⟩
        simp only [passesLeft, if_neg hpos]
        omega
  | inner price m =>
      obtain ⟨hv, hbest⟩ := h
      by_cases hzero : m.remainingQty = 0
      · refine ⟨.outer m, ?_, hv, ?_⟩
        · simp only [pass, if_pos hzero]
          rfl
        · simp only [passesLeft, if_pos hzero, makersLeft_zero hzero]
          omega
      · obtain ⟨o, rest, continue_, hfront, rfl, hhead, hfill, hgo⟩ :=
          fillMaker_best hv (hbest.resolve_left hzero)
        have hfilled := valid_fill hv hfront
        have hless := makersLeft_fill hv hfront hzero
        refine ⟨_, pass_inner past hzero hhead hfill, ?_⟩
        cases continue_ with
        | false =>
            refine ⟨hfilled, ?_⟩
            simp only [Bool.false_eq_true, if_false, passesLeft, if_neg hzero]
            omega
        | true =>
            refine ⟨⟨hfilled, Or.inr (hgo rfl).2⟩, ?_⟩
            simp only [if_true, passesLeft, if_neg hzero]
            split <;> omega

theorem pass_ended (m : Matching) : pass taker past (.ended m) = .ok (.ended m) := rfl

theorem pass_loopInv (h : LoopInv taker s) (hpass : pass taker past s = .ok s') :
    LoopInv taker s' := by
  by_cases hend : Ended s
  · obtain ⟨m, rfl⟩ := hend
    cases hpass
    exact h
  · obtain ⟨s₁, hpass₁, h₁, _⟩ := pass_spec past h hend
    rw [hpass₁] at hpass
    cases hpass
    exact h₁

/-- A pass of the outer loop breaks, or it takes up a level that has a maker to fill. -/
theorem pass_outer (hv : m.book.Valid) :
    pass taker past (.outer m) = .ok (.ended m) ∨
      ∃ price makerId m', pass taker past (.outer m) = .ok (.inner price m) ∧
        InnerStep taker price makerId m m' := by
  rcases pass_outer_cases m with hpass | ⟨price, hpass, hpos, hbest⟩
  · exact Or.inl hpass
  · obtain ⟨o, rest, continue_, -, -, hhead, hfill, -⟩ := fillMaker_best hv hbest
    exact Or.inr ⟨price, o.orderId, _, hpass, hpos, hhead, continue_, hfill⟩

/-- An inner step fills the front order, which leaves the book unless nothing remains to match. -/
theorem InnerStep.removes (h : InnerStep taker price makerId m m')
    (hinv : LoopInv taker (.inner price m)) : Removes taker makerId m m' ∨ m'.remainingQty = 0 := by
  obtain ⟨hv, hbest⟩ := hinv
  obtain ⟨hpos, hhead, continue_, hfill⟩ := h
  obtain ⟨o, rest, continue', hfront, -, hhead', hfill', -⟩ :=
    fillMaker_best hv (hbest.resolve_left hpos)
  rw [hhead'] at hhead
  cases hhead
  rw [hfill'] at hfill
  cases hfill
  by_cases hle : o.remainingQty ≤ m.remainingQty
  · left
    refine ⟨⟨o, front_get hv hfront⟩, ?_⟩
    simp only [fill, if_pos hle, Orderbook.orders_remove]
  · right
    simp only [fill]
    omega

end Matching

namespace Orderbook

open Matching

variable {ob : Orderbook}

/-- What it means that the loops of an order end, seen from any head that they come to; `loops` is what
the code's loops return. -/
structure LoopsTerminate (ob : Orderbook) (taker : Taker) (past : Nat → Bool) (qty : Nat)
    (loops : Except Fault Matching) : Prop where
  ends : ∃ n ≤ 3 * (ob.priority taker.side.opposite).length + 1, ∃ m,
    Reaches (pass taker past) n (.outer ⟨ob, qty, []⟩) (.ended m) ∧ loops = .ok m
  restored : ∀ {n : Nat} {s : LoopState}, Reaches (pass taker past) n (.outer ⟨ob, qty, []⟩) s →
    s.matching.book.Represented
  works : ∀ {n : Nat} {m : Matching},
    Reaches (pass taker past) n (.outer ⟨ob, qty, []⟩) (.outer m) →
      pass taker past (.outer m) = .ok (.ended m) ∨
        ∃ price makerId m', pass taker past (.outer m) = .ok (.inner price m) ∧
          InnerStep taker price makerId m m'
  consumes : ∀ {n price makerId : Nat} {m m' : Matching},
    Reaches (pass taker past) n (.outer ⟨ob, qty, []⟩) (.inner price m) →
      InnerStep taker price makerId m m' → Removes taker makerId m m' ∨ m'.remainingQty = 0

theorem Valid.loopsTerminate (hv : ob.Valid) (taker : Taker) (past : Nat → Bool) (qty : Nat) :
    ob.LoopsTerminate taker past qty (ob.matchOrder taker past qty) := by
  have hinv : ∀ {n s}, Reaches (pass taker past) n (.outer ⟨ob, qty, []⟩) s → LoopInv taker s :=
    fun hreach => hreach.invariant (fun _ _ => pass_loopInv) hv
  refine ⟨?_, fun hreach => (hinv hreach).valid.represented, fun hreach => pass_outer (hinv hreach),
    fun hreach hstep => hstep.removes (hinv hreach)⟩
  obtain ⟨n, hle, _, hreach, ⟨m, rfl⟩, _⟩ := exists_reaches_of_variant (passesLeft taker)
    (fun _ h hend => pass_spec past h hend)
    (show LoopInv taker (.outer ⟨ob, qty, []⟩) from hv)
  obtain ⟨fs, m', hrun, _⟩ := matchOrder_spec hv taker past qty
  obtain ⟨n', hreach'⟩ := matchLevels_reaches past hrun
  have hsame := hreach.unique (pass_ended m) hreach' (pass_ended m')
  cases hsame
  refine ⟨n, hle.trans ?_, m, hreach, hrun⟩
  simp only [passesLeft, makersLeft]
  split <;> omega

/-- The loops of a market order are the same loops with another stop. -/
theorem Valid.marketLoopsTerminate (hv : ob.Valid) (taker : Taker) (worst : Option Nat) (qty : Nat) :
    ob.LoopsTerminate taker (pastWorst taker.side worst) qty (ob.matchMarketOrder taker worst qty) := by
  rw [matchMarketOrder_eq]
  exact hv.loopsTerminate taker _ qty

/-- **The matching loops terminate.** On a book that satisfies the representation invariant the nested
loops of a limit order and of a market order end, after three passes for each maker on the opposite side
and one more at most. At each head the invariant holds again; a pass of the outer loop that does not
break is followed by an inner step, and an inner step removes a maker or leaves nothing to match. So all
that can stop the calls is an overflow: of the sum over the liquidity, or of the id. -/
theorem matching_terminates (h : ob.Represented) (orderId userId : Nat) (side : Side) (price qty : Nat)
    (worst : Option Nat) :
    (∀ next, (ob.countTo next).LoopsTerminate ⟨orderId, userId, side⟩ (pastLimit side price) qty
        ((ob.countTo next).matchOrder ⟨orderId, userId, side⟩ (pastLimit side price) qty)) ∧
      (∀ next, (ob.countTo next).LoopsTerminate ⟨orderId, userId, side⟩ (pastWorst side worst) qty
        ((ob.countTo next).matchMarketOrder ⟨orderId, userId, side⟩ worst qty)) ∧
      (∀ A tif, Meets Overflows (ob.addOrderWithId A orderId userId side price qty tif) fun _ => True) ∧
      ∀ A, (A.checks = true → orderId + 1 < 2 ^ A.bits) →
        ∃ r, ob.executeMarketOrderWithId A orderId userId side qty worst = .ok r := by
  have hv := h.valid
  refine ⟨fun next => (hv.countTo next).loopsTerminate _ _ _,
    fun next => (hv.countTo next).marketLoopsTerminate ⟨orderId, userId, side⟩ _ _, ?_, ?_⟩
  · intro A tif
    cases hadd : A.add orderId 1 with
    | error fault =>
        have hover := (meets_wrap A (orderId + 1)).of_error hadd
        simp only [addOrderWithId, hadd]
        exact hover
    | ok next =>
        by_cases hprice : price = 0
        · simp [addOrderWithId, hadd, hprice]
        by_cases hqty : qty = 0
        · simp [addOrderWithId, hadd, hprice, hqty]
        obtain ⟨fs, m, _, hrun⟩ := addOrderWithId_eq hv orderId userId side hadd
          (Nat.pos_of_ne_zero hprice) (Nat.pos_of_ne_zero hqty)
        rw [hrun]
        have hfaults : Meets Overflows (if tif = .fok then
            (ob.countTo next).canFillQuantity A side price qty else pure true) fun _ => True := by
          split
          · exact canFillQuantity_faults A _ _ _ _
          · trivial
        refine hfaults.bind fun fillable _ => ?_
        split <;> trivial
  · intro A hid
    obtain ⟨next, hadd⟩ := A.exists_add hid
    by_cases hqty : qty = 0
    · simp [executeMarketOrderWithId, hadd, hqty, pure, Except.pure]
    obtain ⟨fs, m, _, hrun⟩ := executeMarketOrderWithId_eq hv orderId userId side hadd
      (Nat.pos_of_ne_zero hqty) worst
    exact ⟨_, hrun⟩

/-- An ask of twelve at 90 against three bids of five. -/
theorem matching_terminates_threeBids : ∃ n ≤ 10, ∃ m,
    Reaches (pass ⟨4, 40, .ask⟩ (pastLimit .ask 90)) n (.outer ⟨threeBids.issue 4, 12, []⟩) (.ended m) ∧
      m.remainingQty = 0 := by
  obtain ⟨n, hle, m, hreach, hrun⟩ := ((matching_terminates valid_threeBids.represented 4 40 .ask
    90 12 none).1 (4 + 1)).ends
  have hthree : ((threeBids.issue 4).priority .bid).length = 3 := by decide +kernel
  obtain ⟨m', hrun', hzero⟩ := exists_of_returns
    ((threeBids.issue 4).matchOrder ⟨4, 40, .ask⟩ (pastLimit .ask 90) 12)
    (fun m => m.remainingQty = 0) (by decide +kernel)
  rw [hrun] at hrun'
  cases hrun'
  refine ⟨n, hle.trans ?_, m, hreach, of_decide_eq_true hzero⟩
  show 3 * ((threeBids.issue 4).priority .bid).length + 1 ≤ 10
  rw [hthree]

end Orderbook

end CexRs
