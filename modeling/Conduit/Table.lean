/-!
# Tables of Objects

Objects with an identity live in tables.  An identifier is a position in its table; objects are
added at the end and never removed, so an identifier keeps its meaning for good.
-/

namespace Conduit

/-- Objects in the order of their creation. -/
structure Table (α : Type) where
  rows : List α
  deriving Inhabited

namespace Table

variable {α : Type}

/-- The table without objects. -/
def empty : Table α := ⟨[]⟩

/-- The number of objects, which is also the next identifier. -/
def size (t : Table α) : Nat := t.rows.length

/-- The object with an identifier. -/
def get? (t : Table α) (id : Nat) : Option α := t.rows[id]?

/-- The table with one more object; its identifier is the size before. -/
def push (t : Table α) (a : α) : Table α := ⟨t.rows ++ [a]⟩

/-- The table with one object changed.  An unknown identifier changes nothing. -/
def modify (t : Table α) (id : Nat) (f : α → α) : Table α := ⟨t.rows.modify id f⟩

@[simp] theorem size_empty : (empty : Table α).size = 0 := rfl

@[simp] theorem size_push (t : Table α) (a : α) : (t.push a).size = t.size + 1 := by
  simp [push, size]

@[simp] theorem size_modify (t : Table α) (id : Nat) (f : α → α) :
    (t.modify id f).size = t.size := by
  simp [modify, size]

@[simp] theorem get?_push_size (t : Table α) (a : α) : (t.push a).get? t.size = some a := by
  simp [push, size, get?]

theorem get?_push_of_lt {t : Table α} {a : α} {id : Nat} (h : id < t.size) :
    (t.push a).get? id = t.get? id := by
  simp only [push, get?, size] at *
  exact List.getElem?_append_left h

theorem get?_eq_none_of_le {t : Table α} {id : Nat} (h : t.size ≤ id) : t.get? id = none := by
  simpa [get?, size] using h

theorem get?_modify (t : Table α) (id other : Nat) (f : α → α) :
    (t.modify id f).get? other =
      if id = other then (t.get? other).map f else t.get? other := by
  simp only [modify, get?, List.getElem?_modify]
  split <;> simp

end Table

end Conduit
