import CexRs.Lib.OrderedMap

/-!
# JSON values and codecs

A store may hand an object back with its members in another order, at any depth. A codec is a pair of an
encoding and a decoding for which this makes no difference; it carries the proof, so a codec of a type is
put together from the codecs of its parts. Numbers are unsigned integers.
-/

namespace JsonFormat

open Std

inductive Json where
  | null
  | bool (b : Bool)
  | num (n : Nat)
  | str (s : String)
  | arr (items : List Json)
  | obj (members : List (String × Json))

abbrev Members := List (String × Json)

mutual

/-- The same value, with the members of its objects in any order. -/
inductive Shuffles : Json → Json → Prop
  | null : Shuffles .null .null
  | bool (b : Bool) : Shuffles (.bool b) (.bool b)
  | num (n : Nat) : Shuffles (.num n) (.num n)
  | str (s : String) : Shuffles (.str s) (.str s)
  | arr {xs ys : List Json} (h : ShufflesAll xs ys) : Shuffles (.arr xs) (.arr ys)
  | obj {ms ns ps : Members} (h : ShufflesMembers ms ns) (hperm : ns.Perm ps) :
      Shuffles (.obj ms) (.obj ps)

inductive ShufflesAll : List Json → List Json → Prop
  | nil : ShufflesAll [] []
  | cons {x y : Json} {xs ys : List Json} (h : Shuffles x y) (hs : ShufflesAll xs ys) :
      ShufflesAll (x :: xs) (y :: ys)

inductive ShufflesMembers : Members → Members → Prop
  | nil : ShufflesMembers [] []
  | cons {name : String} {x y : Json} {ms ns : Members} (h : Shuffles x y) (hs : ShufflesMembers ms ns) :
      ShufflesMembers ((name, x) :: ms) ((name, y) :: ns)

end

/-- A value can be read back from what it is written as, whatever becomes of the order of members. -/
structure Codec (α : Type) where
  encode : α → Json
  decode : Json → Option α
  decode_shuffled : ∀ {a v}, Shuffles (encode a) v → decode v = some a

structure KeyCodec (κ : Type) where
  encode : κ → String
  decode : String → Option κ
  decode_encode : ∀ k, decode (encode k) = some k

/-! ### Numbers, strings and keys -/

def number : Codec Nat where
  encode := .num
  decode
    | .num n => some n
    | _ => none
  decode_shuffled := by
    intro n v h
    cases h
    rfl

def string : Codec String where
  encode := .str
  decode
    | .str s => some s
    | _ => none
  decode_shuffled := by
    intro s v h
    cases h
    rfl

def stringKey : KeyCodec String := ⟨id, some, fun _ => rfl⟩

def decimalKey : KeyCodec Nat where
  encode := Nat.repr
  decode s := s.toNat?.filter fun n => n.repr = s
  decode_encode := by
    intro n
    simp

/-! ### Arrays -/

def array {α : Type} (c : Codec α) : Codec (List α) where
  encode xs := .arr (xs.map c.encode)
  decode
    | .arr vs => vs.mapM c.decode
    | _ => none
  decode_shuffled := by
    intro xs v h
    cases h with
    | @arr _ vs h =>
        dsimp only
        induction xs generalizing vs with
        | nil =>
            cases h
            rfl
        | cons x xs ih =>
            cases h with
            | cons h hs =>
                rw [List.mapM_cons, c.decode_shuffled h, ih hs]
                rfl

/-! ### Objects -/

section Members

variable {ms ns ps : Members}

theorem ShufflesMembers.names (h : ShufflesMembers ms ns) :
    ns.map Prod.fst = ms.map Prod.fst := by
  induction ms generalizing ns with
  | nil =>
      cases h
      rfl
  | cons m ms ih =>
      cases h with
      | cons _ hs => rw [List.map_cons, List.map_cons, ih hs]

theorem ShufflesMembers.mem (h : ShufflesMembers ms ns) {name : String} {x : Json}
    (hx : (name, x) ∈ ms) : ∃ y, (name, y) ∈ ns ∧ Shuffles x y := by
  induction ms generalizing ns with
  | nil => cases hx
  | cons m ms ih =>
      cases h with
      | cons h hs =>
          rcases List.mem_cons.mp hx with heq | hx
          · cases heq
            exact ⟨_, List.mem_cons_self .., h⟩
          · obtain ⟨y, hy, hxy⟩ := ih hs hx
            exact ⟨y, List.mem_cons_of_mem _ hy, hxy⟩

theorem lookup_of_mem {name : String} {x : Json} (hnames : (ms.map Prod.fst).Nodup)
    (hx : (name, x) ∈ ms) : ms.lookup name = some x := by
  induction ms with
  | nil => cases hx
  | cons m ms ih =>
      rw [List.map_cons, List.nodup_cons] at hnames
      rcases List.mem_cons.mp hx with rfl | hx
      · exact List.lookup_cons_self
      · have hne : name ≠ m.1 := by
          rintro rfl
          exact hnames.1 (List.mem_map.mpr ⟨_, hx, rfl⟩)
        rw [List.lookup_cons, beq_false_of_ne hne]
        exact ih hnames.2 hx

def required {α : Type} (c : Codec α) (name : String) (ms : Members) : Option α :=
  (ms.lookup name).bind c.decode

def optional {α : Type} (c : Codec α) (name : String) (ms : Members) : Option (Option α) :=
  match ms.lookup name with
  | none => some none
  | some v => (c.decode v).map some

theorem lookup_shuffled (h : ShufflesMembers ms ns) (hperm : ns.Perm ps)
    (hnames : (ms.map Prod.fst).Nodup) {name : String} {x : Json} (hx : (name, x) ∈ ms) :
    ∃ y, ps.lookup name = some y ∧ Shuffles x y := by
  obtain ⟨y, hy, hxy⟩ := h.mem hx
  have hnodup : (ps.map Prod.fst).Nodup := by
    rw [← (hperm.map Prod.fst).nodup_iff, h.names]
    exact hnames
  exact ⟨y, lookup_of_mem hnodup (hperm.subset hy), hxy⟩

/-- What is written as an object comes back as an object, in which every member reads as it was
written. -/
theorem obj_shuffled {v : Json} (h : Shuffles (.obj ms) v) (hnames : (ms.map Prod.fst).Nodup) :
    ∃ ps, v = .obj ps ∧ ∀ {α : Type} (c : Codec α) {name : String} {a : α},
      (name, c.encode a) ∈ ms → required c name ps = some a ∧ optional c name ps = some (some a) := by
  cases h with
  | @obj _ ns ps h hperm =>
      refine ⟨ps, rfl, fun c name a ha => ?_⟩
      obtain ⟨y, hy, hshuffled⟩ := lookup_shuffled h hperm hnames ha
      have hdecode := c.decode_shuffled hshuffled
      constructor
      · rw [required, hy, Option.bind_some, hdecode]
      · rw [optional, hy]
        simp only [hdecode, Option.map_some]

end Members

/-! ### Maps -/

theorem mapM_perm {α β : Type} {f : α → Option β} {l l' : List α} (hperm : l.Perm l') {r : List β}
    (h : l.mapM f = some r) : ∃ r', l'.mapM f = some r' ∧ r.Perm r' := by
  induction hperm generalizing r with
  | nil => exact ⟨r, h, List.Perm.refl r⟩
  | @cons a l l' _ ih =>
      simp only [List.mapM_cons, Option.bind_eq_bind, Option.bind_eq_some_iff, Option.pure_def,
        Option.some.injEq] at h ⊢
      obtain ⟨b, hb, bs, hbs, rfl⟩ := h
      obtain ⟨bs', hbs', hperm⟩ := ih hbs
      exact ⟨b :: bs', ⟨b, hb, bs', hbs', rfl⟩, hperm.cons b⟩
  | swap a a' l =>
      simp only [List.mapM_cons, Option.bind_eq_bind, Option.bind_eq_some_iff, Option.pure_def,
        Option.some.injEq] at h ⊢
      obtain ⟨b', hb', _, ⟨b, hb, bs, hbs, rfl⟩, rfl⟩ := h
      exact ⟨b :: b' :: bs, ⟨b, hb, _, ⟨b', hb', bs, hbs, rfl⟩, rfl⟩, List.Perm.swap b b' bs⟩
  | trans _ _ ih ih' =>
      obtain ⟨r₁, h₁, hperm₁⟩ := ih h
      obtain ⟨r₂, h₂, hperm₂⟩ := ih' h₁
      exact ⟨r₂, h₂, hperm₁.trans hperm₂⟩

section Map

variable {κ β : Type} [Ord κ] [TransOrd κ] [LawfulEqOrd κ]

def insertAll (m : ExtTreeMap κ β) (es : List (κ × β)) : ExtTreeMap κ β :=
  es.foldl (fun m e => m.insert e.1 e.2) m

theorem get_insertAll_of_not_mem {es : List (κ × β)} {k : κ} (h : ∀ e ∈ es, e.1 ≠ k)
    (m : ExtTreeMap κ β) : (insertAll m es)[k]? = m[k]? := by
  induction es generalizing m with
  | nil => rfl
  | cons e es ih =>
      rw [insertAll, List.foldl_cons]
      refine (ih (fun e he => h e (List.mem_cons_of_mem _ he)) _).trans ?_
      exact OrderedMap.get_insert_of_ne (h e (List.mem_cons_self ..))

theorem get_insertAll_of_mem {es : List (κ × β)} (hkeys : es.Pairwise fun a b => a.1 ≠ b.1)
    {e : κ × β} (he : e ∈ es) (m : ExtTreeMap κ β) : (insertAll m es)[e.1]? = some e.2 := by
  induction es generalizing m with
  | nil => cases he
  | cons e' es ih =>
      rw [List.pairwise_cons] at hkeys
      rw [insertAll, List.foldl_cons]
      rcases List.mem_cons.mp he with rfl | he
      · refine (get_insertAll_of_not_mem (fun e' he' => (hkeys.1 e' he').symm) _).trans ?_
        exact OrderedMap.get_insert_self ..
      · exact ih hkeys.2 he _

/-- In whatever order the entries of a map are put into an empty one, it is the same map. -/
theorem insertAll_perm {m : ExtTreeMap κ β} {es : List (κ × β)} (h : m.toList.Perm es) :
    insertAll ∅ es = m := by
  have hkeys : es.Pairwise fun a b => a.1 ≠ b.1 := by
    apply (h.pairwise_iff fun hab => Ne.symm hab).mp
    apply (OrderedMap.toList_pairwise m).imp
    intro a b hlt heq
    simp [heq] at hlt
  apply ExtTreeMap.ext_getElem?
  intro k
  cases hget : m[k]? with
  | some v =>
      have hmem : (k, v) ∈ m.toList := OrderedMap.mem_toList.mpr hget
      exact get_insertAll_of_mem hkeys (h.subset hmem) ∅
  | none =>
      rw [get_insertAll_of_not_mem _ ∅]
      · exact ExtTreeMap.getElem?_empty
      · rintro e he rfl
        rw [OrderedMap.mem_toList.mp (h.symm.subset he)] at hget
        cases hget

def member (k : KeyCodec κ) (c : Codec β) (m : String × Json) : Option (κ × β) := do
  return (← k.decode m.1, ← c.decode m.2)

/-- A map as an object, one member an entry; a key that occurs twice has its last value. -/
def mapping (k : KeyCodec κ) (c : Codec β) : Codec (ExtTreeMap κ β) where
  encode m := .obj (m.toList.map fun e => (k.encode e.1, c.encode e.2))
  decode
    | .obj ms => (ms.mapM (member k c)).map fun es => insertAll ∅ es
    | _ => none
  decode_shuffled := by
    intro m v h
    cases h with
    | @obj _ ns ps h hperm =>
        have hread : ∀ (es : List (κ × β)) (ns : Members),
            ShufflesMembers (es.map fun e => (k.encode e.1, c.encode e.2)) ns →
            ns.mapM (member k c) = some es := by
          intro es
          induction es with
          | nil =>
              intro ns h
              cases h
              rfl
          | cons e es ih =>
              intro ns h
              cases h with
              | cons h hs =>
                  rw [List.mapM_cons, ih _ hs]
                  simp [member, k.decode_encode, c.decode_shuffled h]
        obtain ⟨es, hes, hentries⟩ := mapM_perm hperm (hread m.toList ns h)
        dsimp only
        rw [hes, Option.map_some, insertAll_perm hentries]

end Map

/-! ### An order of members -/

mutual

def reversed : Json → Json
  | .null => .null
  | .bool b => .bool b
  | .num n => .num n
  | .str s => .str s
  | .arr items => .arr (reversedAll items)
  | .obj members => .obj (reversedMembers members).reverse

def reversedAll : List Json → List Json
  | [] => []
  | x :: xs => reversed x :: reversedAll xs

def reversedMembers : Members → Members
  | [] => []
  | (name, x) :: ms => (name, reversed x) :: reversedMembers ms

end

mutual

theorem shuffles_reversed : ∀ v, Shuffles v (reversed v)
  | .null => .null
  | .bool b => .bool b
  | .num n => .num n
  | .str s => .str s
  | .arr items => .arr (shufflesAll_reversed items)
  | .obj members => .obj (shufflesMembers_reversed members) (List.reverse_perm _).symm

theorem shufflesAll_reversed : ∀ xs, ShufflesAll xs (reversedAll xs)
  | [] => .nil
  | x :: xs => .cons (shuffles_reversed x) (shufflesAll_reversed xs)

theorem shufflesMembers_reversed : ∀ ms, ShufflesMembers ms (reversedMembers ms)
  | [] => .nil
  | (_, x) :: ms => .cons (shuffles_reversed x) (shufflesMembers_reversed ms)

end

end JsonFormat
