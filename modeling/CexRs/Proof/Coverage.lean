import CexRs.Proof.Representation
import CexRs.Proof.Settlement

/-!
# What resting orders need

A resting bid needs its cost and the maker fee on it in locked USD, a resting ask its quantity in the
locked asset. A match takes from the makers' needs at least what its trades take from their owners,
and what a taker spends stays within what it has locked: the fee on a sum covers the fees on its parts.
-/

namespace CexRs

open FixedWidth OrderedMap Journal EngineState

/-! ### Fees on parts and on the whole -/

theorem bpsFee_add_le (bps v w : Nat) : bpsFee bps v + bpsFee bps w ≤ bpsFee bps (v + w) := by
  unfold bpsFee
  rw [Nat.add_mul]
  exact Nat.div_add_div_le_add_div ..

theorem bpsFee_mono (bps : Nat) {v w : Nat} (h : v ≤ w) : bpsFee bps v ≤ bpsFee bps w :=
  Nat.div_le_div_right (Nat.mul_le_mul_right _ h)

theorem bpsFee_le_of_le {bps bps' : Nat} (h : bps ≤ bps') (v : Nat) : bpsFee bps v ≤ bpsFee bps' v :=
  Nat.div_le_div_right (Nat.mul_le_mul_left _ h)

theorem sum_bpsFee_le (bps : Nat) (l : List Nat) : (l.map (bpsFee bps)).sum ≤ bpsFee bps l.sum := by
  induction l with
  | nil => simp
  | cons v l ih =>
      have hadd := bpsFee_add_le bps v l.sum
      rw [List.map_cons, List.sum_cons, List.sum_cons]
      omega

/-- The fee at the larger of the two rates, which a limit bid sets aside. -/
def FeeSchedule.maxFee (fees : FeeSchedule) (value : Nat) : Nat :=
  bpsFee (max fees.takerFeeBps fees.makerFeeBps) value

/-! ### Needs -/

def Order.cost (o : Order) : Nat := o.price * o.remainingQty

def bidNeed (fees : FeeSchedule) (user : Nat) (o : Order) : Nat :=
  if o.side = .bid ∧ o.userId = user then o.cost + fees.makerFee o.cost else 0

def askNeed (user : Nat) (o : Order) : Nat :=
  if o.side = .ask ∧ o.userId = user then o.remainingQty else 0

namespace Matching

variable {taker : Taker} {past : Nat → Bool} {m m' : Matching} {fs : List (Order × Nat)}

/-- A weight that the makers do not carry is not touched by a match. -/
theorem Fills.weigh_of_zero (h : Fills taker past m fs m') (hv : m.book.Valid) {w : Order → Nat}
    (hw : ∀ o : Order, o.side = taker.side.opposite → w o = 0) : weigh w m'.book = weigh w m.book := by
  have heq := h.weigh_eq hv w
  have hzero : (fs.map fun f => w f.1).sum = 0 ∧ (fs.map (leftWeight w)).sum = 0 := by
    constructor
    all_goals
      rw [List.sum_eq_zero_iff]
      intro n hn
      obtain ⟨⟨o, k⟩, hmem, rfl⟩ := List.mem_map.mp hn
      have hside := (h.mem hv hmem).2.1
    · exact hw o hside
    · unfold leftWeight
      split
      · exact hw _ hside
      · rfl
  omega

/-- A bid that is filled gives up at least what the trade takes from its owner. -/
theorem bidNeed_fill (fees : FeeSchedule) (user : Nat) {o : Order} {n : Nat} (hside : o.side = .bid)
    (hn : n ≤ o.remainingQty) :
    leftWeight (bidNeed fees user) (o, n)
        + (if o.userId = user then o.price * n + fees.makerFee (o.price * n) else 0)
      ≤ bidNeed fees user o := by
  have hsplit : o.cost = o.price * (o.remainingQty - n) + o.price * n := by
    rw [Order.cost, ← Nat.mul_add, Nat.sub_add_cancel hn]
  have hfee : fees.makerFee _ + fees.makerFee _ ≤ fees.makerFee _ :=
    bpsFee_add_le _ (o.price * (o.remainingQty - n)) (o.price * n)
  rw [← hsplit] at hfee
  unfold leftWeight bidNeed
  by_cases huser : o.userId = user
  · simp only [huser, hside, and_self, if_true, shrinkOrder, Order.cost]
    rw [Order.cost] at hsplit hfee
    split <;> omega
  · simp [huser, shrinkOrder]

/-- An ask that is filled gives up exactly what the trade takes from its owner. -/
theorem askNeed_fill (user : Nat) {o : Order} {n : Nat} (hside : o.side = .ask)
    (hn : n ≤ o.remainingQty) :
    leftWeight (askNeed user) (o, n) + (if o.userId = user then n else 0) = askNeed user o := by
  unfold leftWeight askNeed
  by_cases huser : o.userId = user
  · simp only [huser, hside, and_self, if_true, shrinkOrder]
    split <;> omega
  · simp [huser, shrinkOrder]

section Ask

variable (hside : taker.side = .ask) (h : Fills taker past m fs m') (hv : m.book.Valid)

include hside h hv

theorem Fills.bidNeed_le (fees : FeeSchedule) (user : Nat) :
    weigh (bidNeed fees user) m'.book + paidBy fees user (trades taker fs)
      ≤ weigh (bidNeed fees user) m.book := by
  have heq := h.weigh_eq hv (bidNeed fees user)
  have hle : (fs.map (leftWeight (bidNeed fees user))).sum + paidBy fees user (trades taker fs)
      ≤ (fs.map fun f => bidNeed fees user f.1).sum := by
    rw [paidBy, trades, List.map_map, ← List.sum_map_add]
    apply List.sum_le_sum
    rintro ⟨o, n⟩ hmem
    obtain ⟨_, hmaker, _, _, hn⟩ := h.mem hv hmem
    rw [hside] at hmaker
    have hfill := bidNeed_fill fees user hmaker hn
    simpa [fillTrade_ask hside, Trade.debit, Trade.value, FeeSchedule.feeOfBuyer] using hfill
  omega

theorem Fills.askNeed_of_ask (user : Nat) :
    weigh (askNeed user) m'.book = weigh (askNeed user) m.book := by
  refine h.weigh_of_zero hv fun o ho => ?_
  rw [hside] at ho
  simp [askNeed, ho, Side.opposite]

omit h hv in
theorem givenBy_ask (fs : List (Order × Nat)) (user : Nat) :
    givenBy user (trades taker fs) = if taker.userId = user then (fs.map Prod.snd).sum else 0 := by
  simp only [givenBy, trades, List.map_map, Function.comp_def, fillTrade_ask hside]
  by_cases huser : taker.userId = user
  · simp [huser]
  · simp [huser]

end Ask

section Bid

variable (hside : taker.side = .bid) (h : Fills taker past m fs m') (hv : m.book.Valid)

include hside h hv

theorem Fills.askNeed_eq (user : Nat) :
    weigh (askNeed user) m'.book + givenBy user (trades taker fs) = weigh (askNeed user) m.book := by
  have heq := h.weigh_eq hv (askNeed user)
  have hsum : (fs.map (leftWeight (askNeed user))).sum + givenBy user (trades taker fs)
      = (fs.map fun f => askNeed user f.1).sum := by
    rw [givenBy, trades, List.map_map, ← List.sum_map_add]
    congr 1
    refine List.map_congr_left ?_
    rintro ⟨o, n⟩ hmem
    obtain ⟨_, hmaker, _, _, hn⟩ := h.mem hv hmem
    rw [hside] at hmaker
    have hfill := askNeed_fill user hmaker hn
    simpa [fillTrade_bid hside] using hfill
  omega

theorem Fills.bidNeed_of_bid (fees : FeeSchedule) (user : Nat) :
    weigh (bidNeed fees user) m'.book = weigh (bidNeed fees user) m.book := by
  refine h.weigh_of_zero hv fun o ho => ?_
  rw [hside] at ho
  simp [bidNeed, ho, Side.opposite]

omit h hv in
theorem paidBy_bid (fees : FeeSchedule) (fs : List (Order × Nat)) (user : Nat) :
    paidBy fees user (trades taker fs)
      = if taker.userId = user then ((trades taker fs).map (Trade.debit fees)).sum else 0 := by
  simp only [paidBy, trades, List.map_map, Function.comp_def, fillTrade_bid hside]
  by_cases huser : taker.userId = user
  · simp [huser]
  · simp [huser]

end Bid

end Matching

end CexRs
