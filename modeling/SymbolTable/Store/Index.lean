/-!
# Secondary indexes

A set of pairs of a key and an id, kept by ascending id, so that the ids under a key come out in
order. Adding a pair twice is adding it once (`mem_add`), and removing takes out that pair alone
(`mem_remove`).
-/

namespace SymbolTable.Store

/-- A set of pairs of keys and ids. -/
structure Index (κ : Type) where
  entries : List (κ × UInt64)

namespace Index

variable {κ : Type}

/-- The index without pairs. -/
def empty : Index κ := ⟨[]⟩

/-- Puts a pair behind the pairs with a smaller id. -/
def place (e : κ × UInt64) : List (κ × UInt64) → List (κ × UInt64)
  | [] => [e]
  | x :: xs => if e.2 < x.2 then e :: x :: xs else x :: place e xs

/-- What is in the list is what was put, or it was there before. The induction is on the list, up to
the place of the entry. -/
theorem mem_place {e x : κ × UInt64} {es : List (κ × UInt64)} :
    x ∈ place e es ↔ x = e ∨ x ∈ es := by
  induction es with
  | nil => simp [place]
  | cons y ys ih =>
    unfold place
    split
    · simp
    · simp only [List.mem_cons, ih]
      constructor
      · rintro (h | h | h) <;> simp [h]
      · rintro (h | h | h) <;> simp [h]

variable [DecidableEq κ]

/-- Adds a pair. -/
def add (i : Index κ) (k : κ) (id : UInt64) : Index κ :=
  if (k, id) ∈ i.entries then i else ⟨place (k, id) i.entries⟩

/-- Removes a pair. -/
def remove (i : Index κ) (k : κ) (id : UInt64) : Index κ :=
  ⟨i.entries.filter (· ≠ (k, id))⟩

/-- The ids under a key, in ascending order. -/
def ids (i : Index κ) (k : κ) : List UInt64 :=
  (i.entries.filter (·.1 = k)).map (·.2)

/-- An entry is in the index if it was added, or was there before. An entry that is in it already is
not added a second time. -/
theorem mem_add {i : Index κ} {k : κ} {id : UInt64} {x : κ × UInt64} :
    x ∈ (i.add k id).entries ↔ x = (k, id) ∨ x ∈ i.entries := by
  unfold add
  split
  · rename_i h
    constructor
    · exact .inr
    · rintro (rfl | hx)
      · exact h
      · exact hx
  · exact mem_place

/-- An entry is in the index if it was there before and was not the one that was taken away. -/
theorem mem_remove {i : Index κ} {k : κ} {id : UInt64} {x : κ × UInt64} :
    x ∈ (i.remove k id).entries ↔ x ∈ i.entries ∧ x ≠ (k, id) := by
  simp [remove]

/-- The ids under a key are those of its entries. -/
theorem mem_ids {i : Index κ} {k : κ} {id : UInt64} : id ∈ i.ids k ↔ (k, id) ∈ i.entries := by
  simp [ids]

end Index

end SymbolTable.Store
