import CexRs.Orderbook

/-!
# The representation invariant of a book

Two sorted maps of queues and a map of orders are updated separately; `Valid` says what ties them
together. The module proves it of the two changes that take liquidity out of a side (an order removed,
an order reduced) and of the one that adds it (an order rested), and says what each does to the side's
priority list: its resting orders, best price first and first come first served within a price.
-/

namespace CexRs

open FixedWidth OrderedMap

namespace Orderbook

structure Valid (ob : Orderbook) : Prop where
  queued : ∀ {side : Side} {price : Nat} {level : PriceLevel},
    (ob.levels side)[price]? = some level → ∀ id ∈ level.orders,
      ∃ o : Order, ob.orders[id]? = some o ∧ o.orderId = id ∧ o.side = side ∧ o.price = price
  listed : ∀ {id : Nat} {o : Order}, ob.orders[id]? = some o →
    ∃ level : PriceLevel, (ob.levels o.side)[o.price]? = some level ∧ id ∈ level.orders
  nonempty : ∀ {side : Side} {price : Nat} {level : PriceLevel},
    (ob.levels side)[price]? = some level → level.orders ≠ []
  positive : ∀ {id : Nat} {o : Order}, ob.orders[id]? = some o →
    0 < o.price ∧ 0 < o.remainingQty
  increasing : ∀ {side : Side} {price : Nat} {level : PriceLevel},
    (ob.levels side)[price]? = some level → level.orders.Pairwise (· < ·)

def queueOrders (ob : Orderbook) (level : PriceLevel) : List Order :=
  level.orders.filterMap fun id => ob.orders[id]?

/-- The resting orders of a side, best price first and first come first served within a price. -/
def priority (ob : Orderbook) (side : Side) : List Order :=
  (ob.walk side).flatMap fun e => ob.queueOrders e.2

def queueAt (ob : Orderbook) (side : Side) (price : Nat) : List Nat :=
  ((ob.levels side)[price]?.map PriceLevel.orders).getD []

def remove (ob : Orderbook) (o : Order) : Orderbook :=
  let queue := (ob.queueAt o.side o.price).erase o.orderId
  let ob' := ob.setLevels o.side (if queue = [] then (ob.levels o.side).erase o.price
    else (ob.levels o.side).insert o.price ⟨queue⟩)
  { ob' with orders := ob.orders.erase o.orderId }

def reduce (ob : Orderbook) (o : Order) (qty : Nat) : Orderbook :=
  { ob with
    orders := ob.orders.insert o.orderId { o with remainingQty := o.remainingQty - qty } }

/-! ### Sides and their levels -/

section Levels

variable (ob : Orderbook) (side : Side) (levels : Levels)

@[simp] theorem levels_setLevels_self : (ob.setLevels side levels).levels side = levels := by
  cases side <;> rfl

theorem levels_setLevels_of_ne {side' : Side} (h : side' ≠ side) :
    (ob.setLevels side levels).levels side' = ob.levels side' := by
  cases side <;> cases side' <;> first | rfl | exact absurd rfl h

@[simp] theorem orders_setLevels : (ob.setLevels side levels).orders = ob.orders := by
  cases side <;> rfl

@[simp] theorem symbol_setLevels : (ob.setLevels side levels).symbol = ob.symbol := by
  cases side <;> rfl

@[simp] theorem nextOrderId_setLevels :
    (ob.setLevels side levels).nextOrderId = ob.nextOrderId := by
  cases side <;> rfl

@[simp] theorem levels_mk (orders : Std.ExtTreeMap Nat Order) :
    { ob with orders := orders }.levels side = ob.levels side := by
  cases side <;> rfl

@[simp] theorem walk_mk (orders : Std.ExtTreeMap Nat Order) :
    { ob with orders := orders }.walk side = ob.walk side := by
  cases side <;> rfl

theorem walk_setLevels_of_ne {side' : Side} (h : side' ≠ side) :
    (ob.setLevels side levels).walk side' = ob.walk side' := by
  cases side <;> cases side' <;> first | rfl | exact absurd rfl h

theorem best_eq_head_walk : ob.best side = (ob.walk side).head?.map Prod.fst := by
  cases side with
  | bid => simp [best, bestBid, walk]
  | ask => rfl

theorem mem_walk {price : Nat} {level : PriceLevel} :
    (price, level) ∈ ob.walk side ↔ (ob.levels side)[price]? = some level := by
  cases side with
  | bid =>
      rw [walk, List.mem_reverse]
      exact mem_toList
  | ask => exact mem_toList

theorem walk_pairwise_ne : (ob.walk side).Pairwise fun a b => a.1 ≠ b.1 := by
  have hsorted : ∀ levels : Levels, levels.toList.Pairwise fun a b => a.1 ≠ b.1 := by
    intro levels
    refine (toList_pairwise levels).imp ?_
    intro a b hlt heq
    simp [heq] at hlt
  cases side with
  | bid =>
      rw [walk, List.pairwise_reverse]
      exact (hsorted ob.bids).imp fun h => h.symm
  | ask => exact hsorted ob.asks

variable {ob side}
variable {front back : List (Nat × PriceLevel)} {price : Nat} {level level' : PriceLevel}

theorem walk_split_toList (h : ob.walk side = front ++ (price, level) :: back) :
    ∃ front' back', (ob.levels side).toList = front' ++ (price, level) :: back' ∧
      match side with
      | .bid => front' = back.reverse ∧ back' = front.reverse
      | .ask => front' = front ∧ back' = back := by
  cases side with
  | bid =>
      refine ⟨back.reverse, front.reverse, ?_, rfl, rfl⟩
      have hrev := congrArg List.reverse h
      simpa [walk, levels] using hrev
  | ask => exact ⟨front, back, h, rfl, rfl⟩

theorem price_ne_of_walk_split (h : ob.walk side = front ++ (price, level) :: back)
    {e : Nat × PriceLevel} (he : e ∈ front ++ back) : e.1 ≠ price := by
  have hdistinct := ob.walk_pairwise_ne side
  rw [h, List.pairwise_append, List.pairwise_cons] at hdistinct
  obtain ⟨_, ⟨hback, _⟩, hfront⟩ := hdistinct
  rcases List.mem_append.mp he with he | he
  · exact hfront e he _ (List.mem_cons_self ..)
  · exact (hback e he).symm

theorem walk_erase (h : ob.walk side = front ++ (price, level) :: back) :
    (ob.setLevels side ((ob.levels side).erase price)).walk side = front ++ back := by
  obtain ⟨front', back', hlist, hends⟩ := walk_split_toList h
  have herase := toList_erase_of_split hlist
  cases side with
  | bid =>
      obtain ⟨rfl, rfl⟩ := hends
      simp [walk, setLevels, herase]
  | ask =>
      obtain ⟨rfl, rfl⟩ := hends
      exact herase

theorem walk_insert (h : ob.walk side = front ++ (price, level) :: back) :
    (ob.setLevels side ((ob.levels side).insert price level')).walk side
      = front ++ (price, level') :: back := by
  obtain ⟨front', back', hlist, hends⟩ := walk_split_toList h
  have hinsert := toList_insert_of_split (w := level') hlist
  cases side with
  | bid =>
      obtain ⟨rfl, rfl⟩ := hends
      simp [walk, setLevels, hinsert]
  | ask =>
      obtain ⟨rfl, rfl⟩ := hends
      exact hinsert

end Levels

/-! ### Orders and where they are queued -/

namespace Valid

variable {ob : Orderbook} (hv : ob.Valid)

include hv

theorem orderId_eq {id : Nat} {o : Order} (h : ob.orders[id]? = some o) : o.orderId = id := by
  obtain ⟨level, hlevel, hmem⟩ := hv.listed h
  obtain ⟨o', ho', hid, _⟩ := hv.queued hlevel id hmem
  rw [h] at ho'
  cases ho'
  exact hid

theorem nodup {side : Side} {price : Nat} {level : PriceLevel}
    (h : (ob.levels side)[price]? = some level) : level.orders.Nodup :=
  (hv.increasing h).imp fun hlt => Nat.ne_of_lt hlt

/-- An order is queued at its own side and price only. -/
theorem level_unique {side : Side} {price : Nat} {level : PriceLevel} {id : Nat} {o : Order}
    (hlevel : (ob.levels side)[price]? = some level) (hmem : id ∈ level.orders)
    (ho : ob.orders[id]? = some o) : side = o.side ∧ price = o.price := by
  obtain ⟨o', ho', _, hside, hprice⟩ := hv.queued hlevel id hmem
  rw [ho] at ho'
  cases ho'
  exact ⟨hside.symm, hprice.symm⟩

theorem mem_queueOrders {level : PriceLevel} {o : Order} :
    o ∈ ob.queueOrders level ↔ o.orderId ∈ level.orders ∧ ob.orders[o.orderId]? = some o := by
  unfold queueOrders
  rw [List.mem_filterMap]
  constructor
  · rintro ⟨id, hmem, hget⟩
    rw [hv.orderId_eq hget]
    exact ⟨hmem, hget⟩
  · rintro ⟨hmem, hget⟩
    exact ⟨o.orderId, hmem, hget⟩

theorem queueOrders_orderId {side : Side} {price : Nat} {level : PriceLevel}
    (hlevel : (ob.levels side)[price]? = some level) :
    (ob.queueOrders level).map Order.orderId = level.orders := by
  have hall : ∀ ids : List Nat, (∀ id ∈ ids, id ∈ level.orders) →
      (ids.filterMap fun id => ob.orders[id]?).map Order.orderId = ids := by
    intro ids
    induction ids with
    | nil => intro _; rfl
    | cons id ids ih =>
        intro hids
        obtain ⟨o, ho, hid, _⟩ := hv.queued hlevel id (hids id (List.mem_cons_self ..))
        have htail := ih fun x hx => hids x (List.mem_cons_of_mem _ hx)
        simp only [List.filterMap_cons, ho, List.map_cons, hid, htail]
  exact hall level.orders fun _ h => h

theorem mem_priority {side : Side} {o : Order} :
    o ∈ ob.priority side ↔ ob.orders[o.orderId]? = some o ∧ o.side = side := by
  unfold priority
  simp only [List.mem_flatMap, Prod.exists]
  constructor
  · rintro ⟨price, level, hwalk, hmem⟩
    have hlevel := (ob.mem_walk side).mp hwalk
    obtain ⟨hqueued, hget⟩ := hv.mem_queueOrders.mp hmem
    exact ⟨hget, (hv.level_unique hlevel hqueued hget).1.symm⟩
  · rintro ⟨hget, rfl⟩
    obtain ⟨level, hlevel, hmem⟩ := hv.listed hget
    exact ⟨o.price, level, (ob.mem_walk o.side).mpr hlevel,
      hv.mem_queueOrders.mpr ⟨hmem, hget⟩⟩

theorem nodup_priority (side : Side) : (ob.priority side).Nodup := by
  unfold priority
  rw [List.nodup_flatMap]
  constructor
  · rintro ⟨price, level⟩ hmem
    have hlevel := (ob.mem_walk side).mp hmem
    refine List.Nodup.of_map Order.orderId ?_
    rw [hv.queueOrders_orderId hlevel]
    exact hv.nodup hlevel
  · refine List.Pairwise.imp_of_mem ?_ (ob.walk_pairwise_ne side)
    rintro ⟨p, l⟩ ⟨p', l'⟩ hp hp' hne
    have hl := (ob.mem_walk side).mp hp
    have hl' := (ob.mem_walk side).mp hp'
    intro o ho ho'
    obtain ⟨hmem, hget⟩ := hv.mem_queueOrders.mp ho
    obtain ⟨hmem', _⟩ := hv.mem_queueOrders.mp ho'
    have h1 := (hv.level_unique hl hmem hget).2
    have h2 := (hv.level_unique hl' hmem' hget).2
    exact hne (h1.trans h2.symm)

/-- A queue is the part of the priority list with its price. -/
theorem queueAt_eq (side : Side) (price : Nat) :
    ob.queueAt side price
      = ((ob.priority side).filter fun o => o.price = price).map Order.orderId := by
  have hsame : ∀ {p : Nat} {level : PriceLevel}, (p, level) ∈ ob.walk side →
      (ob.queueOrders level).filter (fun o => o.price = price)
        = if p = price then ob.queueOrders level else [] := by
    intro p level hmem
    have hlevel := (ob.mem_walk side).mp hmem
    have hprice : ∀ o ∈ ob.queueOrders level, o.price = p := by
      intro o ho
      obtain ⟨hqueued, hget⟩ := hv.mem_queueOrders.mp ho
      exact (hv.level_unique hlevel hqueued hget).2.symm
    split
    · next heq =>
        rw [List.filter_eq_self]
        intro o ho
        simp [hprice o ho, heq]
    · next hne =>
        rw [List.filter_eq_nil_iff]
        intro o ho
        simp [hprice o ho, hne]
  have hflat : ∀ l : List (Nat × PriceLevel), (∀ e ∈ l, e ∈ ob.walk side) →
      (l.flatMap fun e => (ob.queueOrders e.2).filter fun o => o.price = price)
        = l.flatMap fun e => if e.1 = price then ob.queueOrders e.2 else [] := by
    intro l hl
    exact List.flatMap_congr fun e he => hsame (hl e he)
  have hempty : ∀ l : List (Nat × PriceLevel), (∀ e ∈ l, e.1 ≠ price) →
      (l.flatMap fun e => if e.1 = price then ob.queueOrders e.2 else []) = [] := by
    intro l hl
    rw [List.flatMap_eq_nil_iff]
    intro e he
    rw [if_neg (hl e he)]
  rw [priority, List.filter_flatMap, hflat _ fun _ h => h, queueAt]
  cases hlevel : (ob.levels side)[price]? with
  | none =>
      rw [hempty]
      · rfl
      · rintro ⟨p, level⟩ he rfl
        rw [(ob.mem_walk side).mp he] at hlevel
        cases hlevel
  | some level =>
      obtain ⟨front, back, hwalk⟩ := List.append_of_mem ((ob.mem_walk side).mpr hlevel)
      have hne : ∀ e ∈ front ++ back, e.1 ≠ price := fun e he => price_ne_of_walk_split hwalk he
      rw [hwalk, List.flatMap_append, List.flatMap_cons,
        hempty front fun e he => hne e (List.mem_append_left _ he),
        hempty back fun e he => hne e (List.mem_append_right _ he)]
      simp [hv.queueOrders_orderId hlevel]

theorem eq_of_orderId {side side' : Side} {o o' : Order} (ho : o ∈ ob.priority side)
    (ho' : o' ∈ ob.priority side') (h : o.orderId = o'.orderId) : o = o' := by
  have hget := (hv.mem_priority.mp ho).1
  have hget' := (hv.mem_priority.mp ho').1
  rw [h, hget'] at hget
  exact (Option.some.inj hget).symm

end Valid

/-! ### Removing an order -/

section Remove

variable {ob : Orderbook} {o : Order}

@[simp] theorem orders_remove (ob : Orderbook) (o : Order) :
    (ob.remove o).orders = ob.orders.erase o.orderId := rfl

theorem levels_remove_of_ne {side : Side} (h : side ≠ o.side) :
    (ob.remove o).levels side = ob.levels side := by
  simp only [remove, levels_mk]
  exact levels_setLevels_of_ne _ _ _ h

variable (hv : ob.Valid) (ho : ob.orders[o.orderId]? = some o)

include hv ho

/-- Elsewhere than at its own level, taking the order out of a queue changes nothing. -/
theorem erase_queue_of_ne {side : Side} {price : Nat} {level : PriceLevel}
    (hlevel : (ob.levels side)[price]? = some level) (h : ¬ (side = o.side ∧ price = o.price)) :
    level.orders.erase o.orderId = level.orders := by
  apply List.erase_of_not_mem
  intro hmem
  exact h (hv.level_unique hlevel hmem ho)

/-- Every level of the book without the order is a level of the book, with the order taken out of its
queue. -/
theorem get_remove {side : Side} {price : Nat} :
    ((ob.remove o).levels side)[price]? = ((ob.levels side)[price]?).bind fun level =>
      if level.orders.erase o.orderId = [] then none
      else some ⟨level.orders.erase o.orderId⟩ := by
  obtain ⟨own, hown, _⟩ := hv.listed ho
  have hsame : ∀ {side price}, ¬ (side = o.side ∧ price = o.price) →
      (ob.levels side)[price]? = ((ob.levels side)[price]?).bind fun level =>
        if level.orders.erase o.orderId = [] then none
        else some ⟨level.orders.erase o.orderId⟩ := by
    intro side price hne
    cases hlevel : (ob.levels side)[price]? with
    | none => rfl
    | some level =>
        have hid := erase_queue_of_ne hv ho hlevel hne
        rw [Option.bind_some, hid, if_neg (hv.nonempty hlevel)]
  by_cases hside : side = o.side
  · subst hside
    simp only [remove, queueAt, hown, Option.map_some, Option.getD_some, levels_mk,
      levels_setLevels_self]
    by_cases hprice : o.price = price
    · subst hprice
      rw [hown]
      split
      · next hnil => rw [get_erase_self, Option.bind_some, if_pos hnil]
      · next hnil => rw [get_insert_self, Option.bind_some, if_neg hnil]
    · have hne : ¬ (o.side = o.side ∧ price = o.price) := fun h => hprice h.2.symm
      rw [← hsame hne]
      split
      · exact get_erase_of_ne hprice
      · exact get_insert_of_ne hprice
  · rw [levels_remove_of_ne hside]
    exact hsame fun h => hside h.1

theorem Valid.remove : (ob.remove o).Valid := by
  have hlevel_of : ∀ {side : Side} {price : Nat} {level' : PriceLevel},
      ((ob.remove o).levels side)[price]? = some level' →
      ∃ level : PriceLevel, (ob.levels side)[price]? = some level ∧
        level'.orders = level.orders.erase o.orderId ∧ level'.orders ≠ [] := by
    intro side price level' hget
    rw [get_remove hv ho] at hget
    cases hlevel : (ob.levels side)[price]? with
    | none => simp [hlevel] at hget
    | some level =>
        rw [hlevel, Option.bind_some] at hget
        split at hget
        · cases hget
        · next hnil =>
            cases hget
            exact ⟨level, rfl, rfl, hnil⟩
  constructor
  · intro side price level' hget id hid
    obtain ⟨level, hlevel, hqueue, _⟩ := hlevel_of hget
    rw [hqueue] at hid
    have hne : id ≠ o.orderId := by
      rintro rfl
      exact (hv.nodup hlevel).not_mem_erase hid
    obtain ⟨o', ho', hrest⟩ := hv.queued hlevel id (List.mem_of_mem_erase hid)
    refine ⟨o', ?_, hrest⟩
    rw [orders_remove, get_erase_of_ne hne.symm]
    exact ho'
  · intro id o' hget
    rw [orders_remove, get_erase] at hget
    split at hget
    · cases hget
    · next hne =>
        obtain ⟨level, hlevel, hmem⟩ := hv.listed hget
        have hmem' : id ∈ level.orders.erase o.orderId :=
          (List.mem_erase_of_ne (Ne.symm hne)).mpr hmem
        refine ⟨⟨level.orders.erase o.orderId⟩, ?_, hmem'⟩
        rw [get_remove hv ho, hlevel, Option.bind_some, if_neg (List.ne_nil_of_mem hmem')]
  · intro side price level' hget
    obtain ⟨_, _, _, hne⟩ := hlevel_of hget
    exact hne
  · intro id o' hget
    rw [orders_remove, get_erase] at hget
    split at hget
    · cases hget
    · exact hv.positive hget
  · intro side price level' hget
    obtain ⟨level, hlevel, hqueue, _⟩ := hlevel_of hget
    rw [hqueue]
    exact (hv.increasing hlevel).sublist (List.erase_sublist)

theorem queueOrders_remove {level : PriceLevel} (hnodup : level.orders.Nodup) :
    (ob.remove o).queueOrders ⟨level.orders.erase o.orderId⟩
      = (ob.queueOrders level).filter fun x => x.orderId ≠ o.orderId := by
  simp only [queueOrders, orders_remove, hnodup.erase_eq_filter]
  rw [List.filter_filterMap, List.filterMap_filter]
  refine List.filterMap_congr fun id _ => ?_
  by_cases hid : id = o.orderId
  · subst hid
    simp [ho, Option.filter]
  · rw [get_erase_of_ne (Ne.symm hid)]
    cases hget : ob.orders[id]? with
    | none => simp [hid]
    | some x => simp [hid, hv.orderId_eq hget, Option.filter]

/-- Removing an order takes it out of the priority list and leaves the rest in place. -/
theorem priority_remove (side : Side) :
    (ob.remove o).priority side = (ob.priority side).filter fun x => x.orderId ≠ o.orderId := by
  have hsame : ∀ e ∈ ob.walk side, ¬ (side = o.side ∧ e.1 = o.price) →
      (ob.remove o).queueOrders e.2 = (ob.queueOrders e.2).filter fun x => x.orderId ≠ o.orderId := by
    rintro ⟨price, level⟩ he hne
    have hlevel := (ob.mem_walk side).mp he
    have hqueue := queueOrders_remove hv ho (hv.nodup hlevel)
    rwa [erase_queue_of_ne hv ho hlevel hne] at hqueue
  simp only [priority, List.filter_flatMap]
  by_cases hside : side = o.side
  · subst hside
    obtain ⟨own, hown, _⟩ := hv.listed ho
    obtain ⟨front, back, hwalk⟩ := List.append_of_mem ((ob.mem_walk o.side).mpr hown)
    have hne : ∀ e ∈ front ++ back, ¬ (o.side = o.side ∧ e.1 = o.price) := by
      rintro e he ⟨_, hprice⟩
      exact price_ne_of_walk_split hwalk he hprice
    have hflat : ∀ l : List (Nat × PriceLevel), (∀ e ∈ l, e ∈ front ++ back) →
        (l.flatMap fun e => (ob.remove o).queueOrders e.2)
          = l.flatMap fun e => (ob.queueOrders e.2).filter fun x => x.orderId ≠ o.orderId := by
      intro l hl
      refine List.flatMap_congr fun e he => hsame e ?_ (hne e (hl e he))
      rw [hwalk]
      have := hl e he
      simp only [List.mem_append, List.mem_cons] at this ⊢
      tauto
    have hqueue := queueOrders_remove hv ho (hv.nodup hown)
    have hwalk' : (ob.remove o).walk o.side
        = front ++ (if own.orders.erase o.orderId = [] then []
          else [(o.price, ⟨own.orders.erase o.orderId⟩)]) ++ back := by
      simp only [remove, queueAt, hown, Option.map_some, Option.getD_some, walk_mk]
      split
      · rw [walk_erase hwalk]
        simp
      · rw [walk_insert hwalk]
        simp
    rw [hwalk', hwalk]
    simp only [List.flatMap_append, List.flatMap_cons]
    rw [hflat front fun e he => List.mem_append_left _ he,
      hflat back fun e he => List.mem_append_right _ he, ← hqueue, List.append_assoc]
    congr 1
    congr 1
    split
    · next hnil => simp [hnil, queueOrders]
    · simp
  · have hwalk : (ob.remove o).walk side = ob.walk side := by
      simp only [remove, walk_mk]
      exact walk_setLevels_of_ne _ _ _ hside
    rw [hwalk]
    exact List.flatMap_congr fun e he => hsame e he fun h => hside h.1

end Remove

/-! ### Reducing an order in place -/

section Reduce

variable {ob : Orderbook} {o : Order} {qty : Nat}

@[simp] theorem levels_reduce (side : Side) : (ob.reduce o qty).levels side = ob.levels side :=
  levels_mk _ _ _

@[simp] theorem walk_reduce (side : Side) : (ob.reduce o qty).walk side = ob.walk side :=
  walk_mk _ _ _

theorem orders_reduce (ob : Orderbook) (o : Order) (qty : Nat) :
    (ob.reduce o qty).orders
      = ob.orders.insert o.orderId { o with remainingQty := o.remainingQty - qty } := rfl

variable (hv : ob.Valid) (ho : ob.orders[o.orderId]? = some o)

include hv ho

theorem Valid.reduce (hqty : qty < o.remainingQty) : (ob.reduce o qty).Valid := by
  have hget : ∀ {id : Nat} {x : Order}, (ob.reduce o qty).orders[id]? = some x →
      ∃ y, ob.orders[id]? = some y ∧ x.orderId = y.orderId ∧ x.side = y.side ∧ x.price = y.price ∧
        0 < x.remainingQty := by
    intro id x hx
    rw [orders_reduce, get_insert] at hx
    split at hx
    · next heq =>
        cases hx
        subst heq
        exact ⟨o, ho, rfl, rfl, rfl, Nat.sub_pos_of_lt hqty⟩
    · exact ⟨x, hx, rfl, rfl, rfl, (hv.positive hx).2⟩
  constructor
  · intro side price level hlevel id hid
    rw [levels_reduce] at hlevel
    obtain ⟨y, hy, hyid, hyside, hyprice⟩ := hv.queued hlevel id hid
    rw [orders_reduce, get_insert]
    split
    · next heq =>
        subst heq
        rw [ho] at hy
        cases hy
        exact ⟨_, rfl, rfl, hyside, hyprice⟩
    · exact ⟨y, hy, hyid, hyside, hyprice⟩
  · intro id x hx
    obtain ⟨y, hy, _, hside, hprice, _⟩ := hget hx
    rw [levels_reduce, hside, hprice]
    exact hv.listed hy
  · intro side price level hlevel
    rw [levels_reduce] at hlevel
    exact hv.nonempty hlevel
  · intro id x hx
    obtain ⟨y, hy, _, _, hprice, hpos⟩ := hget hx
    rw [hprice]
    exact ⟨(hv.positive hy).1, hpos⟩
  · intro side price level hlevel
    rw [levels_reduce] at hlevel
    exact hv.increasing hlevel

/-- Reducing an order keeps every position of the priority list. -/
theorem priority_reduce (side : Side) :
    (ob.reduce o qty).priority side = (ob.priority side).map fun x =>
      if x.orderId = o.orderId then { o with remainingQty := o.remainingQty - qty } else x := by
  simp only [priority, walk_reduce, List.map_flatMap]
  refine List.flatMap_congr fun e _ => ?_
  simp only [queueOrders, orders_reduce, List.map_filterMap]
  refine List.filterMap_congr fun id _ => ?_
  rw [get_insert]
  by_cases hid : o.orderId = id
  · subst hid
    simp [ho]
  · rw [if_neg hid]
    cases hx : ob.orders[id]? with
    | none => rfl
    | some x =>
        have hxid := hv.orderId_eq hx
        simp [hxid, Ne.symm hid]

end Reduce

/-! ### The front of a side -/

section Front

variable {ob : Orderbook} {side : Side} {o : Order} {rest : List Order}

theorem Valid.best_eq (hv : ob.Valid) (side : Side) :
    ob.best side = (ob.priority side).head?.map Order.price := by
  rw [best_eq_head_walk, priority]
  cases hwalk : ob.walk side with
  | nil => rfl
  | cons e back =>
      obtain ⟨price, level⟩ := e
      have hlevel := (ob.mem_walk side).mp (hwalk ▸ List.mem_cons_self ..)
      cases hids : level.orders with
      | nil => exact absurd hids (hv.nonempty hlevel)
      | cons id ids =>
          obtain ⟨o, ho, _, _, hprice⟩ := hv.queued hlevel id (hids ▸ List.mem_cons_self ..)
          simp [queueOrders, hids, ho, hprice]

/-- The front order of a side heads the queue of its level, which is the best. -/
theorem Valid.front_level (hv : ob.Valid) (h : ob.priority side = o :: rest) :
    ∃ level back ids, ob.walk side = (o.price, level) :: back ∧
      (ob.levels side)[o.price]? = some level ∧ level.orders = o.orderId :: ids := by
  have hmem : o ∈ ob.priority side := h ▸ List.mem_cons_self ..
  obtain ⟨hget, hside⟩ := hv.mem_priority.mp hmem
  cases hwalk : ob.walk side with
  | nil => simp [priority, hwalk] at h
  | cons e back =>
      obtain ⟨price, level⟩ := e
      have hlevel := (ob.mem_walk side).mp (hwalk ▸ List.mem_cons_self ..)
      cases hids : level.orders with
      | nil => exact absurd hids (hv.nonempty hlevel)
      | cons id ids =>
          obtain ⟨o', ho', hid, _, hprice⟩ := hv.queued hlevel id (hids ▸ List.mem_cons_self ..)
          have hfront : o' = o := by
            have hhead := congrArg List.head? h
            simpa [priority, hwalk, queueOrders, hids, ho'] using hhead
          subst hfront
          subst hid
          subst hprice
          exact ⟨level, back, ids, rfl, hlevel, hids⟩

/-- Where the front order's queue goes on, the next order in priority has the same price. -/
theorem Valid.front_next (hv : ob.Valid) (h : ob.priority side = o :: rest) {level : PriceLevel}
    {back : List (Nat × PriceLevel)} {id : Nat} {ids : List Nat}
    (hwalk : ob.walk side = (o.price, level) :: back)
    (hids : level.orders = o.orderId :: id :: ids) :
    ∃ next tail, rest = next :: tail ∧ next.price = o.price := by
  have hmem : o ∈ ob.priority side := h ▸ List.mem_cons_self ..
  have hlevel := (ob.mem_walk side).mp (hwalk ▸ List.mem_cons_self ..)
  obtain ⟨next, hnext, _, _, hprice⟩ := hv.queued hlevel id (by simp [hids])
  simp only [priority, hwalk, List.flatMap_cons, queueOrders, hids, List.filterMap_cons,
    (hv.mem_priority.mp hmem).1, hnext, List.cons_append, List.cons.injEq, true_and] at h
  exact ⟨next, _, h.symm, hprice⟩

theorem Valid.orderId_ne_of_front (hv : ob.Valid) (h : ob.priority side = o :: rest) {x : Order}
    (hx : x ∈ rest) : x.orderId ≠ o.orderId := by
  have hmem : o ∈ ob.priority side := h ▸ List.mem_cons_self ..
  have hnodup := hv.nodup_priority side
  rw [h, List.nodup_cons] at hnodup
  intro heq
  have hxo := hv.eq_of_orderId (h ▸ List.mem_cons_of_mem o hx) hmem heq
  exact hnodup.1 (hxo ▸ hx)

theorem Valid.orderId_ne_of_side (hv : ob.Valid) (ho : ob.orders[o.orderId]? = some o)
    (hside : side ≠ o.side) {x : Order} (hx : x ∈ ob.priority side) : x.orderId ≠ o.orderId := by
  intro heq
  obtain ⟨hget, hxside⟩ := hv.mem_priority.mp hx
  rw [heq, ho] at hget
  cases hget
  exact hside hxside.symm

theorem Valid.priority_remove_front (hv : ob.Valid) (h : ob.priority side = o :: rest) :
    (ob.remove o).priority side = rest := by
  have hmem : o ∈ ob.priority side := h ▸ List.mem_cons_self ..
  rw [priority_remove hv (hv.mem_priority.mp hmem).1, h, List.filter_cons_of_neg (by simp),
    List.filter_eq_self]
  intro x hx
  simpa using hv.orderId_ne_of_front h hx

theorem Valid.priority_reduce_front (hv : ob.Valid) (h : ob.priority side = o :: rest)
    (qty : Nat) : (ob.reduce o qty).priority side
      = { o with remainingQty := o.remainingQty - qty } :: rest := by
  have hmem : o ∈ ob.priority side := h ▸ List.mem_cons_self ..
  rw [priority_reduce hv (hv.mem_priority.mp hmem).1, h, List.map_cons, if_pos rfl]
  congr 1
  rw [List.map_congr_left (g := id), List.map_id]
  intro x hx
  simp [hv.orderId_ne_of_front h hx]

/-- A change to one side leaves the other side's priority list as it was. -/
theorem Valid.priority_remove_other (hv : ob.Valid) (ho : ob.orders[o.orderId]? = some o)
    (hside : side ≠ o.side) : (ob.remove o).priority side = ob.priority side := by
  rw [priority_remove hv ho, List.filter_eq_self]
  intro x hx
  simpa using hv.orderId_ne_of_side ho hside hx

theorem Valid.priority_reduce_other (hv : ob.Valid) (ho : ob.orders[o.orderId]? = some o)
    (hside : side ≠ o.side) (qty : Nat) :
    (ob.reduce o qty).priority side = ob.priority side := by
  rw [priority_reduce hv ho, List.map_congr_left (g := id), List.map_id]
  intro x hx
  simp [hv.orderId_ne_of_side ho hside hx]

end Front

/-! ### Empty books -/

theorem valid_of_empty {ob : Orderbook} (hlevels : ∀ side, ob.levels side = ∅)
    (horders : ob.orders = ∅) : ob.Valid := by
  constructor
  all_goals simp [hlevels, horders]

theorem valid_new (symbol : String) : (new symbol).Valid :=
  valid_of_empty (by rintro (_ | _) <;> rfl) rfl

theorem valid_reset (ob : Orderbook) : ob.reset.Valid :=
  valid_of_empty (by rintro (_ | _) <;> rfl) rfl

/-! ### Resting an order -/

section Rest

variable {ob : Orderbook} {o : Order}

theorem orders_rest (ob : Orderbook) (o : Order) :
    (ob.rest o).orders = ob.orders.insert o.orderId o := by
  simp [rest]

theorem levels_rest_of_ne {side : Side} (h : side ≠ o.side) :
    (ob.rest o).levels side = ob.levels side := by
  simp only [rest, levels_mk]
  exact levels_setLevels_of_ne _ _ _ h

theorem get_rest (side : Side) (price : Nat) : ((ob.rest o).levels side)[price]? =
    if side = o.side ∧ price = o.price then some ⟨ob.queueAt o.side o.price ++ [o.orderId]⟩
    else (ob.levels side)[price]? := by
  by_cases hside : side = o.side
  · subst hside
    simp only [rest, levels_mk, levels_setLevels_self, get_insert, queueAt]
    by_cases hprice : o.price = price
    · simp [hprice]
    · simp [hprice, Ne.symm hprice]
  · rw [levels_rest_of_ne hside, if_neg fun h => hside h.1]

theorem Valid.rest (hv : ob.Valid) (hprice : 0 < o.price) (hqty : 0 < o.remainingQty)
    (hlast : ∀ id x, ob.orders[id]? = some x → id < o.orderId) : (ob.rest o).Valid := by
  have hqueue : ∀ id ∈ ob.queueAt o.side o.price, ∃ x, ob.orders[id]? = some x ∧
      x.orderId = id ∧ x.side = o.side ∧ x.price = o.price := by
    intro id hid
    unfold queueAt at hid
    cases hlevel : (ob.levels o.side)[o.price]? with
    | none => simp [hlevel] at hid
    | some level =>
        simp only [hlevel, Option.map_some, Option.getD_some] at hid
        exact hv.queued hlevel id hid
  have hold : ∀ {id : Nat} {x : Order}, ob.orders[id]? = some x →
      (ob.rest o).orders[id]? = some x := by
    intro id x hx
    rw [orders_rest, get_insert_of_ne (Nat.ne_of_gt (hlast id x hx))]
    exact hx
  constructor
  · intro side price level hlevel id hid
    rw [get_rest] at hlevel
    split at hlevel
    · next heq =>
        obtain ⟨rfl, rfl⟩ := heq
        cases hlevel
        rcases List.mem_append.mp hid with hid | hid
        · obtain ⟨x, hx, hrest⟩ := hqueue id hid
          exact ⟨x, hold hx, hrest⟩
        · obtain rfl := List.mem_singleton.mp hid
          exact ⟨o, by rw [orders_rest, get_insert_self], rfl, rfl, rfl⟩
    · obtain ⟨x, hx, hrest⟩ := hv.queued hlevel id hid
      exact ⟨x, hold hx, hrest⟩
  · intro id x hx
    rw [orders_rest, get_insert] at hx
    split at hx
    · next heq =>
        cases hx
        subst heq
        exact ⟨_, by rw [get_rest, if_pos ⟨rfl, rfl⟩], by simp⟩
    · obtain ⟨level, hlevel, hmem⟩ := hv.listed hx
      rw [get_rest]
      split
      · next heq =>
          refine ⟨_, rfl, ?_⟩
          rw [← heq.1, ← heq.2]
          simp [queueAt, hlevel, hmem]
      · exact ⟨level, hlevel, hmem⟩
  · intro side price level hlevel
    rw [get_rest] at hlevel
    split at hlevel
    · cases hlevel
      simp
    · exact hv.nonempty hlevel
  · intro id x hx
    rw [orders_rest, get_insert] at hx
    split at hx
    · cases hx
      exact ⟨hprice, hqty⟩
    · exact hv.positive hx
  · intro side price level hlevel
    rw [get_rest] at hlevel
    split at hlevel
    · cases hlevel
      rw [List.pairwise_append]
      refine ⟨?_, List.pairwise_singleton _ _, ?_⟩
      · unfold queueAt
        cases hlevel : (ob.levels o.side)[o.price]? with
        | none => exact List.Pairwise.nil
        | some level => exact hv.increasing hlevel
      · intro id hid id' hid'
        obtain rfl := List.mem_singleton.mp hid'
        obtain ⟨x, hx, _⟩ := hqueue id hid
        exact hlast id x hx
    · exact hv.increasing hlevel

theorem Valid.priority_rest_other (hv : ob.Valid) (hfresh : ob.orders[o.orderId]? = none)
    {side : Side} (hside : side ≠ o.side) : (ob.rest o).priority side = ob.priority side := by
  have hwalk : (ob.rest o).walk side = ob.walk side := by
    simp only [Orderbook.rest, walk_mk]
    exact walk_setLevels_of_ne _ _ _ hside
  simp only [priority, hwalk]
  refine List.flatMap_congr fun e he => ?_
  simp only [queueOrders, orders_rest]
  refine List.filterMap_congr fun id hid => ?_
  have hne : o.orderId ≠ id := by
    rintro rfl
    obtain ⟨x, hx, _⟩ := hv.queued ((ob.mem_walk side).mp he) _ hid
    rw [hfresh] at hx
    cases hx
  exact get_insert_of_ne hne

end Rest

end Orderbook

end CexRs
