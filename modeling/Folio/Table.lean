import Folio.Ordered

/-! # Tables

A table maps names to values and lists them in the order of the names. Storing under a name that
is present replaces its value, so a table holds one value to a name.
-/

namespace Folio

/-- Entries in strictly increasing order of their names. Names compare by code point, which is
also the order of their UTF-8 bytes. -/
structure Table (α : Type) where
  entries : List (String × α)
  sorted : entries.Pairwise (·.1 < ·.1)

namespace Table

variable {α : Type}

@[ext] theorem ext {s t : Table α} (h : s.entries = t.entries) : s = t := by
  cases s; cases t; cases h; rfl

instance [DecidableEq α] : DecidableEq (Table α) := fun s t =>
  if h : s.entries = t.entries then isTrue (ext h) else isFalse fun e => h (e ▸ rfl)

instance [Repr α] : Repr (Table α) where
  reprPrec t n := reprPrec t.entries n

def empty : Table α := ⟨[], .nil⟩

instance : Inhabited (Table α) := ⟨empty⟩
instance : EmptyCollection (Table α) := ⟨empty⟩

def insert (t : Table α) (name : String) (value : α) : Table α where
  entries := Ordered.place name value t.entries
  sorted := Ordered.sorted_place String.lt_trans
    (fun hlt hne => String.not_le.1 fun hle => hne (String.le_antisymm hle (String.not_lt.1 hlt)))
    t.sorted

def get? (t : Table α) (name : String) : Option α := t.entries.lookup name

def contains (t : Table α) (name : String) : Bool := (t.get? name).isSome

def names (t : Table α) : List String := t.entries.map (·.1)

def size (t : Table α) : Nat := t.entries.length

def isEmpty (t : Table α) : Bool := t.entries.isEmpty

def ofList (pairs : List (String × α)) : Table α :=
  pairs.foldl (fun t p => t.insert p.1 p.2) empty

@[simp] theorem get?_insert (t : Table α) (name other : String) (value : α) :
    (t.insert name value).get? other = if other = name then some value else t.get? other :=
  Ordered.lookup_place name other value t.entries

@[simp] theorem get?_empty (name : String) : (empty : Table α).get? name = none := rfl

theorem get?_foldl_insert (t : Table α) (pairs : List (String × α)) (name : String) :
    (pairs.foldl (fun t p => t.insert p.1 p.2) t).get? name =
      (pairs.reverse.lookup name).or (t.get? name) := by
  induction pairs generalizing t with
  | nil => rfl
  | cons pair rest ih =>
    rw [List.foldl_cons, ih, get?_insert, List.reverse_cons, List.lookup_append, Option.or_assoc,
      Ordered.lookup_cons]
    split <;> rfl

theorem get?_ofList (pairs : List (String × α)) (name : String) :
    (ofList pairs).get? name = pairs.reverse.lookup name := by
  rw [ofList, get?_foldl_insert, get?_empty, Option.or_none]

end Table

end Folio
