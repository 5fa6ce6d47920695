import CexRs.Lib.Greedy
import CexRs.Proof.Book

/-!
# The matching loops

On a valid book one pass of the inner loop fills the front order of the opposite side. `Fills` is the
closure of that step, and both loops are shown to be such a sequence of fills that stops where nothing
remains or the front order is past the limit. What a match does is then read off one fill at a time;
in particular the trades are the greedy allocation of the quantity over the opposite priority list.
-/

namespace CexRs

open FixedWidth OrderedMap

namespace Matching

/-- Fill the front order of the opposite side: it leaves the book if it is used up, else it keeps its
place with less. -/
def fill (taker : Taker) (m : Matching) (o : Order) : Matching where
  book := if o.remainingQty ≤ m.remainingQty then m.book.remove o
    else m.book.reduce o m.remainingQty
  remainingQty := m.remainingQty - min m.remainingQty o.remainingQty
  results := m.results
    ++ [taker.trade o.price (min m.remainingQty o.remainingQty) o.orderId o.userId]

/-- A sequence of fills, with the makers as they stood before it and what each of them gave. -/
inductive Fills (taker : Taker) (past : Nat → Bool) :
    Matching → List (Order × Nat) → Matching → Prop
  | refl (m : Matching) : Fills taker past m [] m
  | step {m m' : Matching} {o : Order} {rest : List Order} {fs : List (Order × Nat)}
      (hpos : 0 < m.remainingQty) (hfront : m.book.priority taker.side.opposite = o :: rest)
      (hcross : past o.price = false) (htail : Fills taker past (m.fill taker o) fs m') :
      Fills taker past m ((o, min m.remainingQty o.remainingQty) :: fs) m'

/-- Nothing remains, or the front order is past the limit. -/
def Stopped (taker : Taker) (past : Nat → Bool) (m : Matching) : Prop :=
  m.remainingQty = 0 ∨
    ∀ o rest, m.book.priority taker.side.opposite = o :: rest → past o.price = true

variable {taker : Taker} {past : Nat → Bool} {m m' m'' : Matching} {o : Order}
  {rest : List Order} {fs fs' : List (Order × Nat)}

theorem Fills.trans (h : Fills taker past m fs m') (h' : Fills taker past m' fs' m'') :
    Fills taker past m (fs ++ fs') m'' := by
  induction h with
  | refl m => exact h'
  | step hpos hfront hcross _ ih => exact .step hpos hfront hcross (ih h')

/-- Where a match ends is settled by where it starts and by what it takes. -/
theorem Fills.unique {past' : Nat → Bool} (h : Fills taker past m fs m')
    (h' : Fills taker past' m fs m'') : m'' = m' := by
  induction h with
  | refl m =>
      cases h'
      rfl
  | @step m m' o rest fs hpos hfront hcross htail ih =>
      cases h' with
      | step _ hfront' _ htail' => exact ih htail'

theorem Fills.symbol (h : Fills taker past m fs m') : m'.book.symbol = m.book.symbol := by
  induction h with
  | refl m => rfl
  | @step m m' o rest fs hpos hfront hcross htail ih =>
      rw [ih]
      simp only [fill]
      split
      · simp [Orderbook.remove]
      · rfl

theorem Fills.nextOrderId (h : Fills taker past m fs m') :
    m'.book.nextOrderId = m.book.nextOrderId := by
  induction h with
  | refl m => rfl
  | @step m m' o rest fs hpos hfront hcross htail ih =>
      rw [ih]
      simp only [fill]
      split
      · simp [Orderbook.remove]
      · rfl

/-! ### One fill -/

section Fill

variable (hv : m.book.Valid) (hfront : m.book.priority taker.side.opposite = o :: rest)

include hv hfront

theorem front_get : m.book.orders[o.orderId]? = some o ∧ o.side = taker.side.opposite :=
  hv.mem_priority.mp (hfront ▸ List.mem_cons_self ..)

theorem valid_fill : (m.fill taker o).book.Valid := by
  have hget := (front_get hv hfront).1
  simp only [fill]
  split
  · exact hv.remove hget
  · next hlt => exact hv.reduce hget (Nat.lt_of_not_le hlt)

theorem priority_fill : (m.fill taker o).book.priority taker.side.opposite
    = if o.remainingQty ≤ m.remainingQty then rest
      else { o with remainingQty := o.remainingQty - m.remainingQty } :: rest := by
  simp only [fill]
  split
  · exact hv.priority_remove_front hfront
  · exact hv.priority_reduce_front hfront _

theorem size_fill (hle : o.remainingQty ≤ m.remainingQty) :
    (m.fill taker o).book.orders.size < m.book.orders.size := by
  simp only [fill, if_pos hle, Orderbook.orders_remove]
  exact size_erase_lt (front_get hv hfront).1

end Fill

/-! ### The loops -/

theorem popFront_eq {ob : Orderbook} {side : Side} {price : Nat} {level : PriceLevel}
    {id : Nat} {ids : List Nat} (orders : Std.ExtTreeMap Nat Order)
    (hlevel : (ob.levels side)[price]? = some level) (hids : level.orders = id :: ids) :
    { ob with orders := orders }.popFront side price
      = .ok ({ ob.setLevels side (if ids = [] then (ob.levels side).erase price
          else (ob.levels side).insert price ⟨ids⟩) with orders := orders }, decide (ids = [])) := by
  have hset : ∀ levels, { ob with orders := orders }.setLevels side levels
      = { ob.setLevels side levels with orders := orders } := by
    intro levels
    cases side <;> rfl
  simp only [Orderbook.popFront, Orderbook.levels_mk, hlevel, hids, hset]
  cases ids with
  | nil => rfl
  | cons id' ids => rfl

theorem fillMaker_eq (hv : m.book.Valid)
    (hfront : m.book.priority taker.side.opposite = o :: rest) {level : PriceLevel}
    {ids : List Nat} (hlevel : (m.book.levels taker.side.opposite)[o.price]? = some level)
    (hids : level.orders = o.orderId :: ids) :
    m.fillMaker taker o.price o.orderId
      = .ok (m.fill taker o, decide (o.remainingQty ≤ m.remainingQty ∧ ids ≠ [])) := by
  obtain ⟨hget, hside⟩ := front_get hv hfront
  simp only [fillMaker, hget]
  by_cases hle : o.remainingQty ≤ m.remainingQty
  · have hzero : o.remainingQty - min m.remainingQty o.remainingQty = 0 := by omega
    have hremove : m.book.remove o
        = { m.book.setLevels taker.side.opposite
            (if ids = [] then (m.book.levels taker.side.opposite).erase o.price
              else (m.book.levels taker.side.opposite).insert o.price ⟨ids⟩)
            with orders := m.book.orders.erase o.orderId } := by
      simp only [Orderbook.remove, Orderbook.queueAt, hside, hlevel, Option.map_some,
        Option.getD_some, hids, List.erase_cons_head]
    rw [if_pos hzero, erase_insert, popFront_eq _ hlevel hids, ← hremove]
    simp [fill, hle, pure, Except.pure, bind, Except.bind]
  · have hpos : ¬ o.remainingQty - min m.remainingQty o.remainingQty = 0 := by omega
    have hmin : min m.remainingQty o.remainingQty = m.remainingQty := by omega
    rw [if_neg hpos]
    simp [fill, hle, hmin, Orderbook.reduce, pure, Except.pure]

/-- A pass of the inner loop at the best price fills the front order. The loop goes on if that used the
order up and left another at the price. -/
theorem fillMaker_best (hv : m.book.Valid) {price : Nat}
    (hbest : m.book.best taker.side.opposite = some price) :
    ∃ o rest continue_, m.book.priority taker.side.opposite = o :: rest ∧ o.price = price ∧
      ((m.book.levels taker.side.opposite)[price]?.bind fun l => l.orders.head?) = some o.orderId ∧
      m.fillMaker taker price o.orderId = .ok (m.fill taker o, continue_) ∧
      (continue_ = true → o.remainingQty ≤ m.remainingQty ∧
        (m.fill taker o).book.best taker.side.opposite = some price) := by
  rw [hv.best_eq] at hbest
  cases hfront : m.book.priority taker.side.opposite with
  | nil => simp [hfront] at hbest
  | cons o rest =>
      simp only [hfront, List.head?_cons, Option.map_some, Option.some.injEq] at hbest
      subst hbest
      obtain ⟨level, back, ids, hwalk, hlevel, hids⟩ := hv.front_level hfront
      refine ⟨o, rest, _, rfl, rfl, ?_, fillMaker_eq hv hfront hlevel hids, fun hgo => ?_⟩
      · rw [hlevel, Option.bind_some, hids, List.head?_cons]
      · have hgo := of_decide_eq_true hgo
        refine ⟨hgo.1, ?_⟩
        rw [(valid_fill hv hfront).best_eq, priority_fill hv hfront, if_pos hgo.1]
        obtain ⟨id, ids', rfl⟩ := List.exists_cons_of_ne_nil hgo.2
        obtain ⟨next, tail, hrest, hprice⟩ := hv.front_next hfront hwalk hids
        simp [hrest, hprice]

/-- The inner loop fills front orders until nothing remains, or at least one order is gone. -/
theorem consumeLevel_spec {price : Nat} (hcross : past price = false) (fuel : Nat) (m : Matching)
    (hv : m.book.Valid) (hfuel : m.book.orders.size < fuel)
    (hbest : m.remainingQty = 0 ∨ m.book.best taker.side.opposite = some price) :
    ∃ fs m', consumeLevel taker price fuel m = .ok m' ∧ Fills taker past m fs m' ∧
      m'.book.Valid ∧ (m'.remainingQty = 0 ∨ m'.book.orders.size < m.book.orders.size) := by
  induction fuel generalizing m with
  | zero => omega
  | succ fuel ih =>
      by_cases hzero : m.remainingQty = 0
      · exact ⟨[], m, by rw [consumeLevel, if_pos hzero]; rfl, .refl m, hv, Or.inl hzero⟩
      · obtain ⟨o, rest, continue_, hfront, rfl, hhead, hfill, hgo⟩ :=
          fillMaker_best hv (hbest.resolve_left hzero)
        have hfilled := valid_fill hv hfront
        have hstep : Fills taker past m _ (m.fill taker o) :=
          .step (by omega) hfront hcross (.refl _)
        have hdone : (m.fill taker o).remainingQty = 0 ∨
            (m.fill taker o).book.orders.size < m.book.orders.size := by
          by_cases hle : o.remainingQty ≤ m.remainingQty
          · exact Or.inr (size_fill hv hfront hle)
          · left
            simp only [fill]
            omega
        have hunfold : consumeLevel taker o.price (fuel + 1) m
            = if continue_ then consumeLevel taker o.price fuel (m.fill taker o)
              else .ok (m.fill taker o) := by
          rw [consumeLevel, if_neg hzero, hhead]
          simp only [hfill]
          rfl
        rw [hunfold]
        cases continue_ with
        | false => exact ⟨_, _, rfl, hstep, hfilled, hdone⟩
        | true =>
            obtain ⟨hle, hnext⟩ := hgo rfl
            have hsize := size_fill hv hfront hle
            obtain ⟨fs, m', hrun, hfills, hv', hend⟩ := ih _ hfilled (by omega) (Or.inr hnext)
            refine ⟨_, m', hrun, hstep.trans hfills, hv', ?_⟩
            rcases hend with hend | hend
            · exact Or.inl hend
            · exact Or.inr (by omega)

/-- The outer loop fills front orders until it has to stop. -/
theorem matchLevels_spec (fuel : Nat) (m : Matching) (hv : m.book.Valid)
    (hfuel : m.book.orders.size < fuel) :
    ∃ fs m', matchLevels taker past fuel m = .ok m' ∧ Fills taker past m fs m' ∧
      m'.book.Valid ∧ Stopped taker past m' := by
  induction fuel generalizing m with
  | zero => omega
  | succ fuel ih =>
      by_cases hzero : m.remainingQty = 0
      · exact ⟨[], m, by rw [matchLevels, if_pos hzero]; rfl, .refl m, hv, Or.inl hzero⟩
      · have hbest := hv.best_eq taker.side.opposite
        cases hfront : m.book.priority taker.side.opposite with
        | nil =>
            refine ⟨[], m, ?_, .refl m, hv, Or.inr fun o rest h => ?_⟩
            · rw [matchLevels, if_neg hzero, hbest, hfront]
              rfl
            · rw [hfront] at h
              cases h
        | cons o rest =>
            rw [hfront, List.head?_cons, Option.map_some] at hbest
            cases hcross : past o.price with
            | true =>
                refine ⟨[], m, ?_, .refl m, hv, Or.inr fun o' rest' h => ?_⟩
                · rw [matchLevels, if_neg hzero, hbest]
                  simp only [hcross, if_true]
                  rfl
                · rw [hfront] at h
                  cases h
                  exact hcross
            | false =>
                obtain ⟨fs, m₁, hinner, hfills, hv₁, hend⟩ :=
                  consumeLevel_spec hcross (m.book.orders.size + 1) m hv (Nat.lt_succ_self _)
                    (Or.inr hbest)
                have hunfold : matchLevels taker past (fuel + 1) m
                    = matchLevels taker past fuel m₁ := by
                  rw [matchLevels, if_neg hzero, hbest]
                  simp only [hcross, Bool.false_eq_true, if_false, hinner]
                  rfl
                have hsize := size_erase_lt (front_get hv hfront).1
                rw [hunfold]
                rcases hend with hend | hend
                · obtain ⟨fuel', rfl⟩ : ∃ fuel', fuel = fuel' + 1 := ⟨fuel - 1, by omega⟩
                  exact ⟨fs, m₁, by rw [matchLevels, if_pos hend]; rfl, hfills, hv₁, Or.inl hend⟩
                · obtain ⟨fs', m', hrun, hfills', hv', hstop⟩ := ih m₁ hv₁ (by omega)
                  exact ⟨_, m', hrun, hfills.trans hfills', hv', hstop⟩

theorem matchOrder_spec {ob : Orderbook} (hv : ob.Valid) (taker : Taker) (past : Nat → Bool)
    (qty : Nat) :
    ∃ fs m', ob.matchOrder taker past qty = .ok m' ∧
      Fills taker past { book := ob, remainingQty := qty, results := [] } fs m' ∧ m'.book.Valid ∧
      Stopped taker past m' :=
  matchLevels_spec _ { book := ob, remainingQty := qty, results := [] } hv (Nat.lt_succ_self _)

/-! ### The loops of a market order

The two copies of the loops read and write the same variables, so each pass of the one is a pass of the
other, from any book and whatever the bound on the passes. -/

/-- The copy settles whether the maker is done by reading it back. -/
theorem makerDone_eq (orders : Std.ExtTreeMap Nat Order) (makerId : Nat) (maker : Order) :
    ((orders.insert makerId maker)[makerId]?.map fun o : Order => o.remainingQty == 0).getD false
      = decide (maker.remainingQty = 0) := by
  rw [get_insert, if_pos rfl]
  rfl

theorem consumeMarketLevel_eq (price fuel : Nat) (m : Matching) :
    consumeMarketLevel taker price fuel m = consumeLevel taker price fuel m := by
  induction fuel generalizing m with
  | zero => rfl
  | succ fuel ih =>
      unfold consumeMarketLevel consumeLevel
      split
      · rfl
      · cases (m.book.levels taker.side.opposite)[price]?.bind fun l => l.orders.head? with
        | none => rfl
        | some makerId =>
            simp only [fillMaker]
            cases m.book.orders[makerId]? with
            | none => rfl
            | some maker =>
                simp only [makerDone_eq, decide_eq_true_eq]
                split
                · -- both pop the front order, and go on unless that emptied the level
                  rw [bind_assoc]
                  apply bind_congr
                  rintro ⟨book, levelEmpty⟩
                  cases levelEmpty with
                  | true => rfl
                  | false => exact ih _
                · rfl

theorem restingPrice_eq (ob : Orderbook) (side : Side) : ob.restingPrice side = ob.best side.opposite := by
  cases side <;> rfl

theorem matchMarketLevels_eq (worst : Option Nat) (fuel : Nat) (m : Matching) :
    matchMarketLevels taker worst fuel m
      = matchLevels taker (Orderbook.pastWorst taker.side worst) fuel m := by
  induction fuel generalizing m with
  | zero => rfl
  | succ fuel ih =>
      unfold matchMarketLevels matchLevels
      split
      · rfl
      · rw [restingPrice_eq]
        cases m.book.best taker.side.opposite with
        | none => rfl
        | some price =>
            simp only [consumeMarketLevel_eq]
            split
            · rfl
            · exact bind_congr ih

theorem matchMarketOrder_eq (ob : Orderbook) (taker : Taker) (worst : Option Nat) (qty : Nat) :
    ob.matchMarketOrder taker worst qty = ob.matchOrder taker (Orderbook.pastWorst taker.side worst) qty :=
  matchMarketLevels_eq worst _ _

/-! ### The trades are the greedy allocation -/

/-- The opposite orders that a match may touch: the prefix of the priority list up to the first that
is past the limit. -/
def reach (taker : Taker) (past : Nat → Bool) (ob : Orderbook) : List Order :=
  (ob.priority taker.side.opposite).takeWhile fun o => !past o.price

def beyond (taker : Taker) (past : Nat → Bool) (ob : Orderbook) : List Order :=
  (ob.priority taker.side.opposite).dropWhile fun o => !past o.price

def shrinkOrder (o : Order) (qty : Nat) : Order := { o with remainingQty := o.remainingQty - qty }

def fillTrade (taker : Taker) (f : Order × Nat) : Trade :=
  taker.trade f.1.price f.2 f.1.orderId f.1.userId

def trades (taker : Taker) (fs : List (Order × Nat)) : List Trade := fs.map (fillTrade taker)

theorem fillTrade_ask (hside : taker.side = .ask) (f : Order × Nat) :
    fillTrade taker f = ⟨f.1.userId, taker.userId, f.1.price, f.2, taker.orderId, f.1.orderId, .ask⟩ := by
  simp [fillTrade, Taker.trade, hside]

theorem fillTrade_bid (hside : taker.side = .bid) (f : Order × Nat) :
    fillTrade taker f = ⟨taker.userId, f.1.userId, f.1.price, f.2, taker.orderId, f.1.orderId, .bid⟩ := by
  simp [fillTrade, Taker.trade, hside]

theorem sum_qty_trades (taker : Taker) (fs : List (Order × Nat)) :
    ((trades taker fs).map Trade.qty).sum = (fs.map Prod.snd).sum := by
  have hqty : ∀ f : Order × Nat, (fillTrade taker f).qty = f.2 := by
    intro f
    cases hside : taker.side with
    | bid => rw [fillTrade_bid hside]
    | ask => rw [fillTrade_ask hside]
  simp [trades, Function.comp_def, hqty]

theorem Fills.results_eq (h : Fills taker past m fs m') :
    m'.results = m.results ++ fs.map (fillTrade taker) := by
  induction h with
  | refl m => simp
  | step hpos hfront hcross htail ih =>
      rw [ih]
      simp [fill, fillTrade]

theorem Fills.remaining (h : Fills taker past m fs m') :
    m'.remainingQty + (fs.map Prod.snd).sum = m.remainingQty := by
  induction h with
  | refl m => simp
  | step hpos hfront hcross htail ih =>
      simp only [fill] at ih
      rw [List.map_cons, List.sum_cons]
      omega

/-- The fills up to where a match stops are the greedy allocation to the orders within reach. -/
theorem Fills.greedy (h : Fills taker past m fs m') (hv : m.book.Valid)
    (hstop : Stopped taker past m') :
    fs = Greedy.fills Order.remainingQty m.remainingQty (reach taker past m.book) ∧
      m'.book.priority taker.side.opposite
        = Greedy.left Order.remainingQty shrinkOrder m.remainingQty (reach taker past m.book)
          ++ beyond taker past m.book := by
  induction h with
  | refl m =>
      have happend : reach taker past m.book ++ beyond taker past m.book
          = m.book.priority taker.side.opposite := List.takeWhile_append_dropWhile
      rcases hstop with hzero | hpast
      · simp [hzero, happend]
      · have hnil : reach taker past m.book = [] := by
          unfold reach
          cases hfront : m.book.priority taker.side.opposite with
          | nil => rfl
          | cons o rest => simp [hpast o rest hfront]
        rw [hnil, List.nil_append] at happend
        simp [hnil, Greedy.fills, Greedy.left, happend]
  | @step m m' o rest fs hpos hfront hcross htail ih =>
      obtain ⟨hfills, hpriority⟩ := ih (valid_fill hv hfront) hstop
      have hreach : reach taker past m.book = o :: rest.takeWhile fun o => !past o.price := by
        simp [reach, hfront, hcross]
      have hbeyond : beyond taker past m.book = rest.dropWhile fun o => !past o.price := by
        simp [beyond, hfront, hcross]
      have hpriority_fill := priority_fill hv hfront
      by_cases hle : o.remainingQty ≤ m.remainingQty
      · rw [if_pos hle] at hpriority_fill
        have hmin : min m.remainingQty o.remainingQty = o.remainingQty := by omega
        have hreach' : reach taker past (m.fill taker o).book
            = rest.takeWhile fun o => !past o.price := by
          rw [reach, hpriority_fill]
        have hbeyond' : beyond taker past (m.fill taker o).book
            = rest.dropWhile fun o => !past o.price := by
          rw [beyond, hpriority_fill]
        have hqty : (m.fill taker o).remainingQty = m.remainingQty - o.remainingQty := by
          simp [fill, hmin]
        rw [hreach', hqty] at hfills hpriority
        rw [hbeyond'] at hpriority
        refine ⟨?_, ?_⟩
        · rw [hfills, hreach, Greedy.fills_cons _ hpos, hmin]
        · rw [hpriority, hreach, hbeyond, Greedy.left_cons_of_le _ _ hpos hle]
      · -- the maker is only reduced, so nothing remains and no fill follows
        have hmin : min m.remainingQty o.remainingQty = m.remainingQty := by omega
        have hqty : (m.fill taker o).remainingQty = 0 := by simp [fill, hmin]
        rw [if_neg hle] at hpriority_fill
        have happend : reach taker past (m.fill taker o).book
            ++ beyond taker past (m.fill taker o).book
              = (m.fill taker o).book.priority taker.side.opposite :=
          List.takeWhile_append_dropWhile
        rw [hqty] at hfills hpriority
        rw [Greedy.left_zero, happend, hpriority_fill] at hpriority
        refine ⟨?_, ?_⟩
        · rw [hfills, hreach, Greedy.fills_cons _ hpos, hmin]
          simp
        · rw [hpriority, hreach, hbeyond, Greedy.left_cons_of_lt _ _ hpos (by omega)]
          simp [shrinkOrder]

/-- A match leaves the taker's own side alone. -/
theorem Fills.own_side (h : Fills taker past m fs m') (hv : m.book.Valid) :
    m'.book.levels taker.side = m.book.levels taker.side ∧
      m'.book.priority taker.side = m.book.priority taker.side := by
  induction h with
  | refl m => exact ⟨rfl, rfl⟩
  | @step m m' o rest fs hpos hfront hcross htail ih =>
      obtain ⟨hlevels, hpriority⟩ := ih (valid_fill hv hfront)
      obtain ⟨hget, hside⟩ := front_get hv hfront
      have hne : taker.side ≠ o.side := by
        rw [hside]
        cases taker.side <;> simp [Side.opposite]
      rw [hlevels, hpriority]
      simp only [fill]
      split
      · exact ⟨Orderbook.levels_remove_of_ne hne, hv.priority_remove_other hget hne⟩
      · exact ⟨Orderbook.levels_reduce _, hv.priority_reduce_other hget hne _⟩

/-- What rests after a match rested before it, at the same side and price and with no less. -/
theorem Fills.get_orders (h : Fills taker past m fs m') (hv : m.book.Valid) {id : Nat} {o' : Order}
    (hget : m'.book.orders[id]? = some o') :
    ∃ o, m.book.orders[id]? = some o ∧ o'.side = o.side ∧ o'.price = o.price ∧
      o'.userId = o.userId ∧ o'.remainingQty ≤ o.remainingQty := by
  induction h with
  | refl m => exact ⟨o', hget, rfl, rfl, rfl, Nat.le_refl _⟩
  | @step m m' o rest fs hpos hfront hcross htail ih =>
      obtain ⟨o₁, hget₁, hside, hprice, huser, hle⟩ := ih (valid_fill hv hfront) hget
      have hfront_get := (front_get hv hfront).1
      simp only [fill] at hget₁
      split at hget₁
      · rw [Orderbook.orders_remove, get_erase] at hget₁
        split at hget₁
        · cases hget₁
        · exact ⟨o₁, hget₁, hside, hprice, huser, hle⟩
      · rw [Orderbook.orders_reduce, get_insert] at hget₁
        split at hget₁
        · next heq =>
            cases hget₁
            subst heq
            exact ⟨o, hfront_get, hside, hprice, huser, by simp only at hle; omega⟩
        · exact ⟨o₁, hget₁, hside, hprice, huser, hle⟩

/-- A maker is an order that rested before the match, on the opposite side and within the limit. -/
theorem Fills.mem (h : Fills taker past m fs m') (hv : m.book.Valid) {o : Order} {n : Nat}
    (hmem : (o, n) ∈ fs) :
    m.book.orders[o.orderId]? = some o ∧ o.side = taker.side.opposite ∧ past o.price = false ∧
      0 < n ∧ n ≤ o.remainingQty := by
  induction h with
  | refl m => simp at hmem
  | @step m m' o' rest fs hpos hfront hcross htail ih =>
      obtain ⟨hget, hside⟩ := front_get hv hfront
      rcases List.mem_cons.mp hmem with heq | hmem
      · cases heq
        have hqty := (hv.positive hget).2
        exact ⟨hget, hside, hcross, by omega, Nat.min_le_right ..⟩
      · obtain ⟨hget', hrest⟩ := ih (valid_fill hv hfront) hmem
        by_cases hle : o'.remainingQty ≤ m.remainingQty
        · simp only [fill, if_pos hle, Orderbook.orders_remove, get_erase] at hget'
          split at hget'
          · cases hget'
          · exact ⟨hget', hrest⟩
        · -- nothing remains after a partial fill, so none follows
          have hzero : (m.fill taker o').remainingQty = 0 := by
            simp only [fill]
            omega
          cases htail with
          | refl => simp at hmem
          | step hpos' => omega

theorem get_fill (m : Matching) (o : Order) {id : Nat} (hid : o.orderId ≠ id) :
    (m.fill taker o).book.orders[id]? = m.book.orders[id]? := by
  simp only [fill]
  split
  · rw [Orderbook.orders_remove, get_erase, if_neg hid]
  · rw [Orderbook.orders_reduce, get_insert, if_neg hid]

/-- A match leaves the orders alone that are not its makers. -/
theorem Fills.get_other (h : Fills taker past m fs m') {id : Nat}
    (hid : ∀ f ∈ fs, f.1.orderId ≠ id) : m'.book.orders[id]? = m.book.orders[id]? := by
  induction h with
  | refl m => rfl
  | @step m m' o rest fs hpos hfront hcross htail ih =>
      rw [ih fun f hf => hid f (List.mem_cons_of_mem _ hf)]
      exact get_fill m o (hid _ (List.mem_cons_self ..))

/-- What a match leaves of a maker: it is gone if it is used up, else it has given once. -/
theorem Fills.get_maker (h : Fills taker past m fs m') (hv : m.book.Valid) {o : Order} {n : Nat}
    (hmem : (o, n) ∈ fs) :
    m'.book.orders[o.orderId]? = if n < o.remainingQty then some (shrinkOrder o n) else none := by
  induction h with
  | refl m => simp at hmem
  | @step m m' o' rest fs hpos hfront hcross htail ih =>
      have hfilled := valid_fill hv hfront
      rcases List.mem_cons.mp hmem with heq | hmem
      · cases heq
        by_cases hle : o.remainingQty ≤ m.remainingQty
        · have hgone : (m.fill taker o).book.orders[o.orderId]? = none := by
            simp [fill, if_pos hle]
          have hother : ∀ f ∈ fs, f.1.orderId ≠ o.orderId := by
            rintro ⟨x, k⟩ hx heq
            obtain ⟨hget, _⟩ := htail.mem hfilled hx
            simp only at heq
            rw [heq, hgone] at hget
            cases hget
          rw [htail.get_other hother, hgone, if_neg (by omega)]
        · -- nothing remains after a partial fill, so none follows
          have hzero : (m.fill taker o).remainingQty = 0 := by
            simp only [fill]
            omega
          have hmin : min m.remainingQty o.remainingQty = m.remainingQty := by omega
          cases htail with
          | refl =>
              rw [hmin, if_pos (by omega)]
              simp [fill, if_neg hle, Orderbook.orders_reduce, shrinkOrder]
          | step hpos' => omega
      · exact ih hfilled hmem

/-! ### Weights

A weight on orders sums up over a book. Each fill exchanges the weight of its maker for the weight of
what is left of it. -/

def weigh (w : Order → Nat) (ob : Orderbook) : Nat := total (fun _ o => w o) ob.orders

def leftWeight (w : Order → Nat) (f : Order × Nat) : Nat :=
  if f.2 < f.1.remainingQty then w (shrinkOrder f.1 f.2) else 0

theorem weigh_fill (hv : m.book.Valid) (hfront : m.book.priority taker.side.opposite = o :: rest)
    (w : Order → Nat) :
    weigh w (m.fill taker o).book + w o
      = weigh w m.book + leftWeight w (o, min m.remainingQty o.remainingQty) := by
  have hget := (front_get hv hfront).1
  unfold weigh leftWeight
  by_cases hle : o.remainingQty ≤ m.remainingQty
  · have hmin : min m.remainingQty o.remainingQty = o.remainingQty := by omega
    simp only [fill, if_pos hle, Orderbook.orders_remove, hmin, Nat.lt_irrefl, if_false]
    rw [total_of_get _ hget]
    omega
  · have hmin : min m.remainingQty o.remainingQty = m.remainingQty := by omega
    simp only [fill, if_neg hle, Orderbook.orders_reduce, hmin]
    rw [if_pos (by omega)]
    exact total_insert_of_get _ hget

theorem Fills.weigh_eq (h : Fills taker past m fs m') (hv : m.book.Valid) (w : Order → Nat) :
    weigh w m'.book + (fs.map fun f => w f.1).sum
      = weigh w m.book + (fs.map (leftWeight w)).sum := by
  induction h with
  | refl m => simp
  | step hpos hfront hcross htail ih =>
      have htail_eq := ih (valid_fill hv hfront)
      have hfill := weigh_fill hv hfront w
      simp only [List.map_cons, List.sum_cons]
      omega

end Matching

end CexRs
