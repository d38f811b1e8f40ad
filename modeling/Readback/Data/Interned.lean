/-! # Interned tables

An `Interned` table holds distinct entries in the order in which they first came. The position of
an entry is its name: interning an entry that is already there gives the old position, and no
position ever changes its entry. -/

namespace Readback

/-- Entries named by their position; `intern` keeps them distinct. -/
structure Interned (α : Type) where
  entries : Array α
deriving DecidableEq, Inhabited

namespace Interned

variable {α : Type}

/-- The table without entries. -/
def empty : Interned α := ⟨#[]⟩

/-- The number of entries. -/
def size (t : Interned α) : Nat := t.entries.size

/-- The entry at position `i`. -/
def get? (t : Interned α) (i : Nat) : Option α := t.entries[i]?

variable [DecidableEq α]

/-- The position of `a`, appended at the end unless it is already there. -/
def intern (t : Interned α) (a : α) : Nat × Interned α :=
  match t.entries.findIdx? (fun b => decide (b = a)) with
  | some i => (i, t)
  | none => (t.entries.size, ⟨t.entries.push a⟩)

/-- Interns a list from left to right; equal entries collapse to the first. -/
def ofList (l : List α) : Interned α := l.foldl (fun t a => (t.intern a).2) empty

/-! ### Positions are stable names -/

/-- The position that `intern` returns holds the entry. -/
theorem get?_intern_self (t : Interned α) (a : α) :
    (t.intern a).2.get? (t.intern a).1 = some a := by
  unfold intern get?
  split
  · next i h =>
    obtain ⟨hi, heq, -⟩ := Array.findIdx?_eq_some_iff_getElem.1 h
    simpa [Array.getElem?_eq_getElem hi] using heq
  · simp

/-- Interning changes no entry that is already there. -/
theorem get?_intern_of_lt (t : Interned α) (a : α) {i : Nat} (h : i < t.size) :
    (t.intern a).2.get? i = t.get? i := by
  unfold intern get?
  split
  · rfl
  · rw [Array.getElem?_push]
    exact if_neg (Nat.ne_of_lt h)

end Interned

end Readback
