import CexRs.Lib.Journal
import CexRs.Proof.Venue

/-!
# Accounts

A user's balance in a currency is two accounts, one available and one locked. Every balance operation
of the handlers is a journal of postings to them, and so is every sequence of operations; the totals
over all users follow the same journal.
-/

namespace CexRs

open FixedWidth OrderedMap Journal

inductive Currency where
  | usd
  | stock (symbol : String)
  deriving DecidableEq

structure Account where
  user : Nat
  currency : Currency
  locked : Bool
  deriving DecidableEq

/-- What a user is posted in a currency is what the available and the locked account are posted. -/
theorem net_held (user : Nat) (currency : Currency) (ps : List (Posting Account)) :
    net (fun k => k.user = user ∧ k.currency = currency) ps
      = net (· = ⟨user, currency, false⟩) ps + net (· = ⟨user, currency, true⟩) ps := by
  refine net_eq_add _ _ ?_ ?_ ps
  · rintro ⟨user', currency', locked⟩
    cases locked <;> simp
  · rintro k rfl
    simp

def Balance.total (b : Balance) : Nat := b.available + b.locked

namespace EngineState

def balance (s : EngineState) (user : Nat) : Currency → Balance
  | .usd => s.usd user
  | .stock symbol => s.stock user symbol

def withBalance (s : EngineState) (user : Nat) (currency : Currency) (b : Balance) : EngineState :=
  match currency with
  | .usd => s.withUsd user b
  | .stock symbol => s.withStock user symbol b

def holding (s : EngineState) (k : Account) : Nat :=
  if k.locked then (s.balance k.user k.currency).locked
  else (s.balance k.user k.currency).available

def supply (s : EngineState) : Currency → Nat
  | .usd => total (fun _ b => b.total) s.usdBalance
  | .stock symbol =>
      total (fun _ (m : Std.ExtTreeMap String Balance) => Balance.total (m[symbol]?.getD {}))
        s.stockBalance

section Views

variable (s : EngineState) (user : Nat) (currency : Currency) (b : Balance)

theorem balance_withBalance (user' : Nat) (currency' : Currency) :
    (s.withBalance user currency b).balance user' currency'
      = if user = user' ∧ currency = currency' then b else s.balance user' currency' := by
  cases currency with
  | usd =>
      cases currency' with
      | usd =>
          simp only [withBalance, balance, withUsd, usd, get_insert]
          by_cases huser : user = user'
          · simp [huser]
          · simp [huser]
      | stock symbol' => simp [withBalance, balance, withUsd, stock]
  | stock symbol =>
      cases currency' with
      | usd => simp [withBalance, balance, withStock, usd]
      | stock symbol' =>
          simp only [withBalance, balance, withStock, stock, get_insert, Currency.stock.injEq]
          by_cases huser : user = user'
          · subst huser
            by_cases hsymbol : symbol = symbol'
            · simp [hsymbol]
            · simp [hsymbol, get_insert]
          · simp [huser]

theorem total_update {κ β : Type} [Ord κ] [Std.TransOrd κ] [Std.LawfulEqOrd κ]
    (m : Std.ExtTreeMap κ β) (k : κ) (v dflt : β) (f : β → Nat) (hf : f dflt = 0) :
    total (fun _ x => f x) (m.insert k v) + f (m[k]?.getD dflt)
      = total (fun _ x => f x) m + f v := by
  cases hget : m[k]? with
  | none => rw [Option.getD_none, hf, total_insert_of_none _ hget, add_zero]
  | some w => rw [Option.getD_some, total_insert_of_get _ hget]

theorem supply_withBalance (currency' : Currency) :
    (s.withBalance user currency b).supply currency'
        + (if currency = currency' then (s.balance user currency).total else 0)
      = s.supply currency' + (if currency = currency' then b.total else 0) := by
  cases currency with
  | usd =>
      cases currency' with
      | usd =>
          simp only [withBalance, supply, balance, withUsd, usd, if_true]
          exact total_update _ _ _ _ _ rfl
      | stock symbol' => simp [withBalance, supply, withUsd]
  | stock symbol =>
      cases currency' with
      | usd => simp [withBalance, supply, withStock]
      | stock symbol' =>
          have hupdate := total_update s.stockBalance user
            ((s.stockBalance[user]?.getD ∅).insert symbol b) ∅
            (fun m => Balance.total (m[symbol']?.getD {})) (by simp [Balance.total])
          simp only [withBalance, supply, balance, withStock, stock, Currency.stock.injEq]
          by_cases hsymbol : symbol = symbol'
          · subst hsymbol
            simpa [get_insert] using hupdate
          · simpa [hsymbol, get_insert] using hupdate

theorem sameVenue_withBalance : SameVenue s (s.withBalance user currency b) := by
  cases currency with
  | usd => exact sameVenue_withUsd s user b
  | stock symbol => exact sameVenue_withStock s user symbol b

end Views

/-! ### Movements -/

/-- The money of one state becomes that of the next by a journal. -/
structure Pays (s s' : EngineState) (ps : List (Posting Account)) : Prop where
  posts : Posts holding s s' ps
  supply : ∀ currency, (s'.supply currency : Int)
    = s.supply currency + net (fun k => k.currency = currency) ps

theorem Pays.trans {s s' s'' : EngineState} {ps qs : List (Posting Account)} (h : Pays s s' ps)
    (h' : Pays s' s'' qs) : Pays s s'' (ps ++ qs) := by
  refine ⟨h.posts.trans h'.posts, fun currency => ?_⟩
  rw [h'.supply, h.supply, net_append]
  omega

/-- An empty posting changes nothing. -/
theorem Pays.zero {s s' : EngineState} {ps : List (Posting Account)} (h : Pays s s' ps)
    (k : Account) : Pays s s' (ps ++ [⟨k, 0⟩]) := by
  refine ⟨fun k' => ?_, fun currency => ?_⟩
  · rw [h.posts k']
    simp
  · rw [h.supply]
    simp

theorem Pays.holding_eq {s s' : EngineState} (h : Pays s s' []) (k : Account) :
    s'.holding k = s.holding k := by
  have hposts := h.posts k
  rw [net_nil] at hposts
  omega

/-- States that show the same balances and the same supplies have the same money. -/
theorem pays_nil {s s' : EngineState}
    (hbalance : ∀ user currency, s'.balance user currency = s.balance user currency)
    (hsupply : ∀ currency, s'.supply currency = s.supply currency) : Pays s s' [] :=
  ⟨fun k => by simp [holding, hbalance], fun currency => by simp [hsupply]⟩

theorem pays_of_eq {s s' : EngineState} (husd : s'.usdBalance = s.usdBalance)
    (hstock : s'.stockBalance = s.stockBalance) : Pays s s' [] := by
  refine pays_nil (fun user currency => ?_) fun currency => ?_
  · cases currency with
    | usd => simp [balance, usd, husd]
    | stock symbol => simp [balance, stock, hstock]
  · cases currency with
    | usd => simp [supply, husd]
    | stock symbol => simp [supply, hstock]

/-- The same, with books, counter and fees as they were. -/
structure Moves (s s' : EngineState) (ps : List (Posting Account)) : Prop extends Pays s s' ps where
  venue : SameVenue s s'

theorem Moves.refl (s : EngineState) : Moves s s [] :=
  ⟨⟨Posts.refl s, fun _ => by simp⟩, SameVenue.refl s⟩

theorem Moves.trans {s s' s'' : EngineState} {ps qs : List (Posting Account)} (h : Moves s s' ps)
    (h' : Moves s' s'' qs) : Moves s s'' (ps ++ qs) :=
  ⟨h.toPays.trans h'.toPays, h.venue.trans h'.venue⟩

/-- A new balance for one user in one currency posts the differences. -/
theorem moves_withBalance (s : EngineState) (user : Nat) (currency : Currency) (b : Balance)
    {ps : List (Posting Account)}
    (hps : ∀ x ∈ ps, x.account.user = user ∧ x.account.currency = currency)
    (havailable : (b.available : Int)
      = (s.balance user currency).available + net (· = ⟨user, currency, false⟩) ps)
    (hlocked : (b.locked : Int)
      = (s.balance user currency).locked + net (· = ⟨user, currency, true⟩) ps) :
    Moves s (s.withBalance user currency b) ps := by
  refine ⟨⟨?_, ?_⟩, sameVenue_withBalance s user currency b⟩
  · rintro ⟨user', currency', locked⟩
    simp only [holding, balance_withBalance]
    by_cases hsame : user = user' ∧ currency = currency'
    · obtain ⟨rfl, rfl⟩ := hsame
      cases locked with
      | false => simpa using havailable
      | true => simpa using hlocked
    · have hother : ∀ x ∈ ps, x.account ≠ ⟨user', currency', locked⟩ := by
        intro x hx heq
        obtain ⟨huser, hcurrency⟩ := hps x hx
        rw [heq] at huser hcurrency
        exact hsame ⟨huser.symm, hcurrency.symm⟩
      rw [if_neg hsame, net_eq_zero _ hother, add_zero]
  · intro currency'
    have hsupply := s.supply_withBalance user currency b currency'
    by_cases hsame : currency = currency'
    · subst hsame
      have hall : net (fun k => k.currency = currency) ps
          = net (· = (⟨user, currency, false⟩ : Account)) ps
            + net (· = ⟨user, currency, true⟩) ps := by
        rw [← net_held]
        refine net_congr _ _ fun x hx => ?_
        simp [hps x hx]
      rw [if_pos rfl, if_pos rfl] at hsupply
      simp only [Balance.total] at hsupply
      omega
    · rw [if_neg hsame, if_neg hsame] at hsupply
      have hother : ∀ x ∈ ps, x.account.currency ≠ currency' := by
        intro x hx heq
        exact hsame ((hps x hx).2.symm.trans heq)
      rw [net_eq_zero _ hother]
      omega

/-! ### The balance operations of the checked build -/

section Operations

variable (s : EngineState) (user : Nat) (currency : Currency) {n : Nat}

def balanceMut (f : Balance → Except Fault Balance) : Except Fault EngineState :=
  match currency with
  | .usd => s.usdMut user f
  | .stock symbol => s.stockMut user symbol f

theorem meets_balanceMut {allow : Fault → Prop} {f : Balance → Except Fault Balance}
    {post : EngineState → Prop}
    (h : Meets allow (f (s.balance user currency)) fun b => post (s.withBalance user currency b)) :
    Meets allow (s.balanceMut user currency f) post := by
  cases currency with
  | usd => exact meets_usdMut h
  | stock symbol => exact meets_stockMut h

theorem balanceMut_eq (f : Balance → Except Fault Balance) :
    s.balanceMut user currency f
      = f (s.balance user currency) >>= fun b => .ok (s.withBalance user currency b) := by
  cases currency <;> rfl

variable {s user currency} in
theorem balanceMut_ok {s' : EngineState} {f : Balance → Except Fault Balance}
    (h : s.balanceMut user currency f = .ok s') :
    ∃ b, f (s.balance user currency) = .ok b ∧ s' = s.withBalance user currency b := by
  rw [balanceMut_eq] at h
  obtain ⟨b, hf, h⟩ := bind_ok h
  cases h
  exact ⟨b, hf, rfl⟩

theorem locked_eq : (s.balance user currency).locked = s.holding ⟨user, currency, true⟩ := rfl

theorem available_eq : (s.balance user currency).available = s.holding ⟨user, currency, false⟩ := rfl

theorem spend_moves (hle : n ≤ s.holding ⟨user, currency, true⟩) :
    Meets Overflows (s.balanceMut user currency (Balance.spend (u64 true) n))
      fun s' => Moves s s' [⟨⟨user, currency, true⟩, -n⟩] := by
  refine meets_balanceMut s user currency ?_
  refine meets_bind.mpr (meets_sub hle ?_)
  refine moves_withBalance s user currency _ (by simp) ?_ ?_
  · simp
  · simp [locked_eq]
    omega

theorem credit_moves : Meets Overflows (s.balanceMut user currency (Balance.credit (u64 true) n))
    fun s' => Moves s s' [⟨⟨user, currency, false⟩, n⟩] := by
  refine meets_balanceMut s user currency ?_
  refine meets_bind.mpr (meets_add rfl fun _ => ?_)
  refine moves_withBalance s user currency _ (by simp) ?_ ?_
  · simp
  · simp

theorem lock_moves (hle : n ≤ s.holding ⟨user, currency, false⟩) :
    Meets Overflows (s.balanceMut user currency (Balance.lock (u64 true) n))
      fun s' => Moves s s' [⟨⟨user, currency, false⟩, -n⟩, ⟨⟨user, currency, true⟩, n⟩] := by
  refine meets_balanceMut s user currency ?_
  refine meets_bind.mpr (meets_sub hle ?_)
  refine meets_bind.mpr (meets_add rfl fun _ => ?_)
  refine moves_withBalance s user currency _ (by simp) ?_ ?_
  · simp [available_eq]
    omega
  · simp

theorem unlock_moves (hle : n ≤ s.holding ⟨user, currency, true⟩) :
    Meets Overflows (s.balanceMut user currency (Balance.unlock (u64 true) n))
      fun s' => Moves s s' [⟨⟨user, currency, true⟩, -n⟩, ⟨⟨user, currency, false⟩, n⟩] := by
  refine meets_balanceMut s user currency ?_
  refine meets_bind.mpr (meets_sub hle ?_)
  refine meets_bind.mpr (meets_add rfl fun _ => ?_)
  refine moves_withBalance s user currency _ (by simp) ?_ ?_
  · simp
  · simp [locked_eq]
    omega

/-- Touching an entry creates it if it is missing and changes nothing else. -/
theorem touch_moves : Meets Overflows (s.balanceMut user currency pure) fun s' => Moves s s' [] := by
  refine meets_balanceMut s user currency ?_
  exact moves_withBalance s user currency _ (by simp) (by simp) (by simp)

end Operations

end EngineState

end CexRs
