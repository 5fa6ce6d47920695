import Mathlib

/-!
# Fixed-width arithmetic with faults

Unsigned words of a given width, as natural numbers below `2 ^ bits`. A build either checks its sums,
products and differences and stops where one leaves the word, or keeps the low bits and goes on.
Everything that can stop is an `Except Fault`; the rest of the module is the reasoning about such
computations: what a result satisfies and which faults stay possible (`Meets`), and when one
computation gives the results of another (`Agrees`).
-/

namespace FixedWidth

/-- Why a computation stopped without a result: a sum or a product past the word, a difference below
zero, a failed assertion, or a loop that would not end. -/
inductive Fault where
  | overflow
  | underflow
  | panic
  | diverge
  deriving DecidableEq, Repr

structure Arith where
  bits : Nat
  checks : Bool
  deriving DecidableEq, Repr

namespace Arith

variable (A : Arith)

/-- A result that may leave the word: a checking build stops, the others keep the low bits. -/
def wrap (n : Nat) : Except Fault Nat :=
  if n < 2 ^ A.bits then .ok n
  else if A.checks then .error .overflow
  else .ok (n % 2 ^ A.bits)

def add (a b : Nat) : Except Fault Nat := A.wrap (a + b)

def mul (a b : Nat) : Except Fault Nat := A.wrap (a * b)

def sub (a b : Nat) : Except Fault Nat :=
  if b ≤ a then .ok (a - b)
  else if A.checks then .error .underflow
  else .ok ((a + 2 ^ A.bits - b) % 2 ^ A.bits)

/-- The successor of a counter. A counter that is used up stops either build, though one that does
not check would begin again at zero. -/
def next (n : Nat) : Except Fault Nat :=
  if n + 1 < 2 ^ A.bits then .ok (n + 1) else .error .overflow

def sum : List Nat → Except Fault Nat
  | l => l.foldlM A.add 0

theorem wrap_of_lt {n : Nat} (h : n < 2 ^ A.bits) : A.wrap n = .ok n := if_pos h

theorem add_of_lt {a b : Nat} (h : a + b < 2 ^ A.bits) : A.add a b = .ok (a + b) :=
  A.wrap_of_lt h

theorem mul_of_lt {a b : Nat} (h : a * b < 2 ^ A.bits) : A.mul a b = .ok (a * b) :=
  A.wrap_of_lt h

theorem sub_of_le {a b : Nat} (h : b ≤ a) : A.sub a b = .ok (a - b) := if_pos h

/-- A sum returns unless the build checks it and it leaves the word. -/
theorem exists_add {a b : Nat} (h : A.checks = true → a + b < 2 ^ A.bits) : ∃ c, A.add a b = .ok c := by
  unfold add wrap
  split
  · exact ⟨_, rfl⟩
  · next hlt =>
      have hchecks : A.checks = false := Bool.eq_false_iff.mpr fun hchecks => hlt (h hchecks)
      exact ⟨_, by rw [hchecks]; rfl⟩

theorem next_of_lt {n : Nat} (h : n + 1 < 2 ^ A.bits) : A.next n = .ok (n + 1) := if_pos h

theorem next_of_le {n : Nat} (h : 2 ^ A.bits ≤ n + 1) : A.next n = .error .overflow :=
  if_neg (Nat.not_lt.mpr h)

theorem next_ok {n m : Nat} (h : A.next n = .ok m) : n + 1 < 2 ^ A.bits ∧ m = n + 1 := by
  unfold next at h
  split at h
  · next hlt =>
      cases h
      exact ⟨hlt, rfl⟩
  · cases h

end Arith

/-! ### What a computation that may fault returns -/

section Meets

variable {α β : Type} {allow : Fault → Prop}

/-- `x` returns a value with the property `post`, or stops with a fault that `allow` admits. -/
def Meets (allow : Fault → Prop) (x : Except Fault α) (post : α → Prop) : Prop :=
  match x with
  | .ok a => post a
  | .error f => allow f

@[simp] theorem meets_ok {a : α} {post : α → Prop} : Meets allow (.ok a) post ↔ post a := Iff.rfl

@[simp] theorem meets_pure {a : α} {post : α → Prop} :
    Meets allow (pure a) post ↔ post a := Iff.rfl

@[simp] theorem meets_error {f : Fault} {post : α → Prop} :
    Meets allow (.error f) post ↔ allow f := Iff.rfl

@[simp] theorem ok_bind (a : α) (g : α → Except Fault β) : (Except.ok a >>= g) = g a := rfl

/-- What returns has returned at every step. -/
theorem bind_ok {x : Except Fault α} {g : α → Except Fault β} {b : β} (h : x >>= g = .ok b) :
    ∃ a, x = .ok a ∧ g a = .ok b := by
  cases x with
  | ok a => exact ⟨a, rfl, h⟩
  | error f => cases h

theorem meets_bind {x : Except Fault α} {g : α → Except Fault β} {post : β → Prop} :
    Meets allow (x >>= g) post ↔ Meets allow x fun a => Meets allow (g a) post := by
  cases x <;> rfl

theorem Meets.bind {x : Except Fault α} {g : α → Except Fault β} {mid : α → Prop}
    {post : β → Prop} (hx : Meets allow x mid) (hg : ∀ a, mid a → Meets allow (g a) post) :
    Meets allow (x >>= g) post := by
  cases x with
  | ok a => exact hg a hx
  | error f => exact hx

theorem Meets.imp {x : Except Fault α} {post post' : α → Prop} (hx : Meets allow x post)
    (h : ∀ a, x = .ok a → post a → post' a) : Meets allow x post' := by
  cases x with
  | ok a => exact h a rfl hx
  | error f => exact hx

theorem Meets.of_ok {x : Except Fault α} {post : α → Prop} {a : α} (hx : Meets allow x post)
    (h : x = .ok a) : post a := by
  subst h
  exact hx

theorem Meets.of_error {x : Except Fault α} {post : α → Prop} {f : Fault}
    (hx : Meets allow x post) (h : x = .error f) : allow f := by
  subst h
  exact hx

theorem Meets.weaken {allow' : Fault → Prop} {x : Except Fault α} {post : α → Prop}
    (hx : Meets allow x post) (h : ∀ f, allow f → allow' f) : Meets allow' x post := by
  cases x with
  | ok a => exact hx
  | error f => exact h f hx

/-- A computation that keeps `post` and cannot stop with an admitted fault returns. -/
theorem Meets.exists_ok {x : Except Fault α} {post : α → Prop} (hx : Meets allow x post)
    (h : ∀ f, x = .error f → ¬ allow f) : ∃ a, x = .ok a ∧ post a := by
  cases x with
  | ok a => exact ⟨a, rfl, hx⟩
  | error f => exact absurd hx (h f rfl)

end Meets

/-- The faults of arithmetic that has run past the word, and no others. -/
def Overflows (f : Fault) : Prop := f = .overflow

def Arithmetic (f : Fault) : Prop := f = .overflow ∨ f = .underflow

def overflowed {α : Type} : Except Fault α → Bool
  | .error .overflow => true
  | _ => false

theorem ne_overflow_of_overflowed {α : Type} {x : Except Fault α} (h : overflowed x = false) :
    x ≠ .error .overflow := by
  rintro rfl
  cases h

theorem eq_overflow_of_overflowed {α : Type} {x : Except Fault α} (h : overflowed x = true) :
    x = .error .overflow := by
  unfold overflowed at h
  split at h
  · rfl
  · cases h

def returns {α : Type} (test : α → Bool) : Except Fault α → Bool
  | .ok a => test a
  | .error _ => false

theorem exists_of_returns {α : Type} (x : Except Fault α) (test : α → Bool)
    (h : returns test x = true) : ∃ a, x = .ok a ∧ test a = true := by
  cases x with
  | ok a => exact ⟨a, rfl, h⟩
  | error f => cases h

/-- What a checking build returns is exact. -/
theorem wrap_ok {bits n c : Nat} (h : Arith.wrap ⟨bits, true⟩ n = .ok c) : c = n := by
  unfold Arith.wrap at h
  split at h
  · cases h
    rfl
  · cases h

/-- What any build returns is a word. -/
theorem wrap_lt {A : Arith} {n c : Nat} (h : A.wrap n = .ok c) : c < 2 ^ A.bits := by
  unfold Arith.wrap at h
  split at h
  · next hlt =>
      cases h
      exact hlt
  · split at h
    · cases h
    · cases h
      exact Nat.mod_lt _ (Nat.two_pow_pos _)

/-- A sum below the word is exact; past it, the only fault is an overflow. -/
theorem meets_add {allow : Fault → Prop} {bits a b : Nat} {post : Nat → Prop}
    (hover : allow .overflow) (hpost : a + b < 2 ^ bits → post (a + b)) :
    Meets allow (Arith.add ⟨bits, true⟩ a b) post := by
  unfold Arith.add Arith.wrap
  split
  · next h => exact hpost h
  · exact hover

theorem meets_mul {allow : Fault → Prop} {bits a b : Nat} {post : Nat → Prop}
    (hover : allow .overflow) (hpost : a * b < 2 ^ bits → post (a * b)) :
    Meets allow (Arith.mul ⟨bits, true⟩ a b) post := by
  unfold Arith.mul Arith.wrap
  split
  · next h => exact hpost h
  · exact hover

theorem meets_sub {allow : Fault → Prop} {A : Arith} {a b : Nat} {post : Nat → Prop}
    (hle : b ≤ a) (hpost : post (a - b)) : Meets allow (A.sub a b) post := by
  rw [A.sub_of_le hle]
  exact hpost

/-! ### Faults of arithmetic, in any build -/

section Arithmetic

variable (A : Arith) (a b : Nat)

theorem meets_wrap : Meets Overflows (A.wrap a) fun _ => True := by
  unfold Arith.wrap
  split
  · trivial
  · split
    · rfl
    · trivial

theorem Overflows.arithmetic {f : Fault} (h : Overflows f) : Arithmetic f := Or.inl h

theorem meets_sub_arithmetic : Meets Arithmetic (A.sub a b) fun _ => True := by
  unfold Arith.sub
  split
  · trivial
  · split
    · exact Or.inr rfl
    · trivial

end Arithmetic

/-! ### Loops -/

section Loops

variable {α β σ : Type} {allow : Fault → Prop}

/-- What every pass keeps, the loop keeps. -/
theorem meets_foldlM {f : σ → α → Except Fault σ} {inv : σ → Prop} {l : List α} {s : σ}
    (hs : inv s) (hf : ∀ s, inv s → ∀ x ∈ l, Meets allow (f s x) inv) :
    Meets allow (l.foldlM f s) inv := by
  induction l generalizing s with
  | nil => exact hs
  | cons x l ih =>
      rw [List.foldlM_cons]
      refine (hf s hs x (List.mem_cons_self ..)).bind fun s' hs' => ?_
      exact ih hs' fun s hs y hy => hf s hs y (List.mem_cons_of_mem _ hy)

theorem meets_mapM {f : α → Except Fault β} {l : List α}
    (hf : ∀ x ∈ l, Meets allow (f x) fun _ => True) : Meets allow (l.mapM f) fun _ => True := by
  induction l with
  | nil => trivial
  | cons x l ih =>
      rw [List.mapM_cons]
      refine (hf x (List.mem_cons_self ..)).bind fun y _ => ?_
      refine (ih fun z hz => hf z (List.mem_cons_of_mem _ hz)).bind fun ys _ => ?_
      trivial

/-- A loop that returns has returned at every pass. -/
theorem mapM_ok {f : α → Except Fault β} {l : List α} {r : List β} (h : l.mapM f = .ok r) {x : α}
    (hx : x ∈ l) : ∃ y, f x = .ok y := by
  induction l generalizing r with
  | nil => cases hx
  | cons a l ih =>
      rw [List.mapM_cons] at h
      obtain ⟨y, hy, h⟩ := bind_ok h
      obtain ⟨ys, hys, _⟩ := bind_ok h
      rcases List.mem_cons.mp hx with rfl | hx
      · exact ⟨y, hy⟩
      · exact ih hys hx

theorem foldlM_add_of_lt {A : Arith} {l : List Nat} {a : Nat} (h : a + l.sum < 2 ^ A.bits) :
    l.foldlM A.add a = .ok (a + l.sum) := by
  induction l generalizing a with
  | nil => rfl
  | cons x l ih =>
      rw [List.sum_cons] at h
      rw [List.foldlM_cons, A.add_of_lt (show a + x < 2 ^ A.bits by omega), ok_bind,
        ih (by omega), List.sum_cons, Nat.add_assoc]

/-- A checked sum that returns has stayed within the word. -/
theorem foldlM_add_ok {bits a n : Nat} {l : List Nat} (ha : a < 2 ^ bits)
    (h : l.foldlM (Arith.add ⟨bits, true⟩) a = .ok n) : a + l.sum < 2 ^ bits := by
  induction l generalizing a with
  | nil => simpa using ha
  | cons x l ih =>
      rw [List.foldlM_cons] at h
      obtain ⟨b, hb, h⟩ := bind_ok h
      have hexact := wrap_ok hb
      have hlt := ih (wrap_lt hb) h
      rw [List.sum_cons]
      omega

end Loops

/-! ### Computations that stay within the word -/

section Fits

variable {α β : Type} {bits a b : Nat}

def Fits (x : Except Fault α) : Prop := x ≠ .error .overflow

theorem fits_ok (a : α) : Fits (.ok a) := by
  intro h
  cases h

theorem Fits.bind {x : Except Fault α} {g : α → Except Fault β} (hx : Fits x)
    (hg : ∀ a, x = .ok a → Fits (g a)) : Fits (x >>= g) := by
  cases x with
  | ok a => exact hg a rfl
  | error f =>
      intro h
      cases h
      exact hx rfl

/-- Of a computation that stays within the word, what follows may assume what it returns. -/
theorem Meets.fits_bind {allow : Fault → Prop} {x : Except Fault α} {g : α → Except Fault β}
    {mid : α → Prop} (hx : Meets allow x mid) (hfits : Fits x) (hg : ∀ a, mid a → Fits (g a)) :
    Fits (x >>= g) :=
  hfits.bind fun a ha => hg a (hx.of_ok ha)

/-- Overflows aside, a computation that meets a property and stays within the word returns. -/
theorem Meets.ok_of_fits {x : Except Fault α} {post : α → Prop} (hx : Meets Overflows x post)
    (hfits : Fits x) : ∃ a, x = .ok a ∧ post a := by
  apply hx.exists_ok
  intro f hf hover
  exact hfits (hover ▸ hf)

theorem fits_add (h : a + b < 2 ^ bits) : Fits (Arith.add ⟨bits, true⟩ a b) := by
  rw [Arith.add_of_lt _ h]
  exact fits_ok _

theorem fits_sub (A : Arith) (a b : Nat) : Fits (A.sub a b) := by
  unfold Arith.sub
  split
  · exact fits_ok _
  · split
    · intro h
      cases h
    · exact fits_ok _

theorem fits_foldlM_add {l : List Nat} (h : a + l.sum < 2 ^ bits) :
    Fits (l.foldlM (Arith.add ⟨bits, true⟩) a) := by
  induction l generalizing a with
  | nil => exact fits_ok a
  | cons x l ih =>
      rw [List.sum_cons] at h
      have hx : a + x < 2 ^ bits := by omega
      rw [List.foldlM_cons, Arith.add_of_lt _ hx, ok_bind]
      apply ih
      omega

theorem fits_mapM {f : α → Except Fault β} {l : List α} (hf : ∀ x ∈ l, Fits (f x)) :
    Fits (l.mapM f) := by
  induction l with
  | nil => exact fits_ok _
  | cons x l ih =>
      rw [List.mapM_cons]
      apply (hf x (List.mem_cons_self ..)).bind
      intro y _
      apply (ih fun z hz => hf z (List.mem_cons_of_mem _ hz)).bind
      intro ys _
      exact fits_ok _

end Fits

/-! ### When one computation gives the results of another -/

section Agrees

variable {α β : Type}

/-- Wherever `x` returns, `y` returns the same value. -/
def Agrees (x y : Except Fault α) : Prop := ∀ a, x = .ok a → y = .ok a

theorem Agrees.refl (x : Except Fault α) : Agrees x x := fun _ h => h

theorem Agrees.bind {x y : Except Fault α} {g h : α → Except Fault β} (hxy : Agrees x y)
    (hgh : ∀ a, Agrees (g a) (h a)) : Agrees (x >>= g) (y >>= h) := by
  intro b hb
  cases x with
  | ok a =>
      rw [hxy a rfl]
      exact hgh a b hb
  | error f => cases hb

theorem Agrees.ite {x y x' y' : Except Fault α} {c : Prop} [Decidable c] (h : Agrees x x')
    (h' : Agrees y y') : Agrees (if c then x else y) (if c then x' else y') := by
  split
  · exact h
  · exact h'

theorem Agrees.foldlM {σ : Type} {f g : σ → α → Except Fault σ} (h : ∀ s x, Agrees (f s x) (g s x))
    (l : List α) (s : σ) : Agrees (l.foldlM f s) (l.foldlM g s) := by
  induction l generalizing s with
  | nil => exact Agrees.refl _
  | cons x l ih =>
      rw [List.foldlM_cons, List.foldlM_cons]
      exact (h s x).bind ih

theorem Agrees.mapM {f g : α → Except Fault β} (h : ∀ x, Agrees (f x) (g x)) (l : List α) :
    Agrees (l.mapM f) (l.mapM g) := by
  induction l with
  | nil => exact Agrees.refl _
  | cons x l ih =>
      rw [List.mapM_cons, List.mapM_cons]
      exact (h x).bind fun _ => ih.bind fun _ => Agrees.refl _

theorem Agrees.add (bits a b : Nat) (checks : Bool) :
    Agrees (Arith.add ⟨bits, true⟩ a b) (Arith.add ⟨bits, checks⟩ a b) := by
  intro n hn
  unfold Arith.add Arith.wrap at hn ⊢
  split at hn
  · next h => rw [if_pos h, hn]
  · cases hn

theorem Agrees.mul (bits a b : Nat) (checks : Bool) :
    Agrees (Arith.mul ⟨bits, true⟩ a b) (Arith.mul ⟨bits, checks⟩ a b) := by
  intro n hn
  unfold Arith.mul Arith.wrap at hn ⊢
  split at hn
  · next h => rw [if_pos h, hn]
  · cases hn

theorem Agrees.sub (bits a b : Nat) (checks : Bool) :
    Agrees (Arith.sub ⟨bits, true⟩ a b) (Arith.sub ⟨bits, checks⟩ a b) := by
  intro n hn
  unfold Arith.sub at hn ⊢
  split at hn
  · next h => rw [if_pos h, hn]
  · cases hn

end Agrees

/-! ### Two computations in step -/

section Related

variable {α β γ δ σ τ : Type} {R : α → β → Prop} {S : γ → δ → Prop}

/-- Two computations that return related values, or stop with the same fault. -/
def Related (R : α → β → Prop) : Except Fault α → Except Fault β → Prop
  | .ok a, .ok b => R a b
  | .error f, .error g => f = g
  | _, _ => False

theorem related_refl (x : Except Fault α) : Related Eq x x := by
  cases x <;> rfl

theorem Related.bind {x : Except Fault α} {y : Except Fault β} {f : α → Except Fault γ}
    {g : β → Except Fault δ} (h : Related R x y) (hfg : ∀ a b, R a b → Related S (f a) (g b)) :
    Related S (x >>= f) (y >>= g) := by
  cases x with
  | ok a =>
      cases y with
      | ok b => exact hfg a b h
      | error f => exact h.elim
  | error f =>
      cases y with
      | ok b => exact h.elim
      | error g => exact h

/-- What both start with goes through both. -/
theorem related_bind_left (x : Except Fault α) {f : α → Except Fault γ} {g : α → Except Fault δ}
    (hfg : ∀ a, Related S (f a) (g a)) : Related S (x >>= f) (x >>= g) := by
  apply (related_refl x).bind
  rintro a _ rfl
  exact hfg a

theorem Related.ite {x x' : Except Fault α} {y y' : Except Fault β} {c : Prop} [Decidable c]
    (h : Related R x y) (h' : Related R x' y') :
    Related R (if c then x else x') (if c then y else y') := by
  split
  · exact h
  · exact h'

theorem Related.foldlM {f : σ → α → Except Fault σ} {g : τ → α → Except Fault τ} {R : σ → τ → Prop}
    (h : ∀ s t x, R s t → Related R (f s x) (g t x)) (l : List α) {s : σ} {t : τ} (hst : R s t) :
    Related R (l.foldlM f s) (l.foldlM g t) := by
  induction l generalizing s t with
  | nil => exact hst
  | cons x l ih =>
      rw [List.foldlM_cons, List.foldlM_cons]
      exact (h s t x hst).bind fun _ _ => ih

theorem Related.of_ok {x : Except Fault α} {y : Except Fault β} (h : Related R x y) {a : α}
    (hx : x = .ok a) : ∃ b, y = .ok b ∧ R a b := by
  subst hx
  cases y with
  | ok b => exact ⟨b, rfl, h⟩
  | error f => exact h.elim

end Related

end FixedWidth
