/-! # Insertion-ordered dictionaries

A `Dict` keeps its entries in the order in which their keys were first entered. Entering a key
again replaces the value and keeps the place. Attribute lists, symbol tables and the memo tables
of a lift are dictionaries. -/

namespace Readback

/-- A finite map whose entries stand in the order in which their keys were first entered. -/
structure Dict (κ β : Type) where
  entries : List (κ × β)
deriving DecidableEq, Inhabited

namespace Dict

variable {κ β : Type}

/-- The dictionary without entries. -/
def empty : Dict κ β := ⟨[]⟩

/-- The number of keys. -/
def size (d : Dict κ β) : Nat := d.entries.length

/-- Whether there are no entries. -/
def isEmpty (d : Dict κ β) : Bool := d.entries.isEmpty

/-- The keys in entry order. -/
def keys (d : Dict κ β) : List κ := d.entries.map Prod.fst

variable [DecidableEq κ]

/-- The value of the first entry for `k` in a list of entries. -/
def lookup (k : κ) : List (κ × β) → Option β
  | [] => none
  | (k', b) :: rest => if k' = k then some b else lookup k rest

/-- Replaces the value of `k` where it stands, or appends a new entry. -/
def put (k : κ) (b : β) : List (κ × β) → List (κ × β)
  | [] => [(k, b)]
  | (k', b') :: rest => if k' = k then (k, b) :: rest else (k', b') :: put k b rest

/-- The value of `k`, if it has one. -/
def get? (d : Dict κ β) (k : κ) : Option β := lookup k d.entries

/-- Whether `k` has a value. -/
def contains (d : Dict κ β) (k : κ) : Bool := (d.get? k).isSome

/-- Gives `k` the value `b`. -/
def insert (d : Dict κ β) (k : κ) (b : β) : Dict κ β := ⟨put k b d.entries⟩

/-- Enters a list of pairs from left to right. -/
def ofList (pairs : List (κ × β)) : Dict κ β :=
  pairs.foldl (fun d p => d.insert p.1 p.2) empty

/-! ### Reading after writing -/

theorem lookup_put (k j : κ) (b : β) (l : List (κ × β)) :
    lookup j (put k b l) = if k = j then some b else lookup j l := by
  induction l with
  | nil => simp [put, lookup]
  | cons e rest ih =>
    obtain ⟨k', b'⟩ := e
    by_cases hk : k' = k
    · subst hk
      by_cases hj : k' = j <;> simp [put, lookup, hj]
    · by_cases hj : k' = j
      · subst hj
        simp [put, lookup, hk, Ne.symm hk]
      · simp [put, lookup, hk, hj, ih]

@[simp]
theorem get?_insert (d : Dict κ β) (k j : κ) (b : β) :
    (d.insert k b).get? j = if k = j then some b else d.get? j :=
  lookup_put k j b d.entries

/-- What holds of all values, and of a new one, holds after the new one is entered. -/
theorem forall_insert {d : Dict κ β} {P : β → Prop} (h : ∀ k b, d.get? k = some b → P b) (k : κ)
    {b : β} (hb : P b) : ∀ k' b', (d.insert k b).get? k' = some b' → P b' := by
  intro k' b' hk
  rw [get?_insert] at hk
  split at hk
  · cases hk
    exact hb
  · exact h k' b' hk

@[simp]
theorem get?_empty (k : κ) : (empty : Dict κ β).get? k = none := rfl

end Dict

end Readback
