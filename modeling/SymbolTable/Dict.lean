/-!
# Finite maps

A finite map as a list of pairs, at most one for each key. The view of a map is `get?`, and each
operation is described by what it does to that view (`get?_insert`, `get?_erase`, `get?_rekey`).
-/

namespace SymbolTable

/-- A finite map from keys to values. -/
structure Dict (κ α : Type) where
  entries : List (κ × α)

namespace Dict

variable {κ α : Type} [DecidableEq κ]

/-- The map without entries. -/
def empty : Dict κ α := ⟨[]⟩

/-- The value under a key. -/
def get? (d : Dict κ α) (k : κ) : Option α :=
  (d.entries.find? (·.1 = k)).map (·.2)

/-- Takes a key out. -/
def erase (d : Dict κ α) (k : κ) : Dict κ α :=
  ⟨d.entries.filter (·.1 ≠ k)⟩

/-- Puts a value under a key, in place of what was there. -/
def insert (d : Dict κ α) (k : κ) (v : α) : Dict κ α :=
  ⟨(k, v) :: (d.erase k).entries⟩

/-- Moves the value under `old`, if there is one, to `new`, in place of what was there. -/
def rekey (d : Dict κ α) (old new : κ) : Dict κ α :=
  match d.get? old with
  | some v => (d.erase old).insert new v
  | none => d

/-- Takes a key out if it is `v` that stands under it. -/
def evict [DecidableEq α] (d : Dict κ α) (k : κ) (v : α) : Dict κ α :=
  if d.get? k = some v then d.erase k else d

/-- The number of keys. -/
def size (d : Dict κ α) : Nat :=
  d.entries.length

instance : Inhabited (Dict κ α) := ⟨⟨[]⟩⟩

@[simp] theorem get?_empty (k : κ) : (empty : Dict κ α).get? k = none := rfl

/-- A key that was taken out has no value, and the others keep theirs. All pairs with the key are
taken out, and the search for another one passes over them. -/
@[simp] theorem get?_erase (d : Dict κ α) (k k' : κ) :
    (d.erase k).get? k' = if k' = k then none else d.get? k' := by
  unfold get? erase
  rw [List.find?_filter]
  by_cases h : k' = k
  · subst h
    simp
  · rw [if_neg h]
    congr 2
    funext e
    by_cases he : e.1 = k'
    · simp [he, h]
    · simp [he]

/-- A key has the value that was put under it, and the others keep theirs. The pair is put in front
of those that are left once the key was taken out. -/
@[simp] theorem get?_insert (d : Dict κ α) (k k' : κ) (v : α) :
    (d.insert k v).get? k' = if k' = k then some v else d.get? k' := by
  by_cases h : k' = k
  · subst h
    simp [get?, insert]
  · have := get?_erase d k k'
    rw [if_neg h] at this ⊢
    rw [← this]
    simp [get?, insert, Ne.symm h]

/-- After a move the value stands under the new key, and the old key is free unless it is the new
one. -/
theorem get?_rekey (d : Dict κ α) {old new : κ} {v : α} (h : d.get? old = some v) (k : κ) :
    (d.rekey old new).get? k = if k = new then some v else if k = old then none else d.get? k := by
  simp [rekey, h]

end Dict

end SymbolTable
