/-!
# Maps in ascending order

A finite map from 64-bit words to values, kept as pairs in strictly ascending order of the words, so
that listing it needs no sorting. The order is part of the type. The view of a map is `get?`
(`get?_insert`, `get?_erase`).
-/

namespace SymbolTable

/-- A finite map from words to values, in ascending order. -/
structure Ordered (α : Type) where
  entries : List (UInt64 × α)
  ascending : entries.Pairwise (fun a b => a.1 < b.1)

namespace Ordered

variable {α : Type}

/-- The map without entries. -/
def empty : Ordered α := ⟨[], .nil⟩

/-- Puts a pair into a list in ascending order, in place of the pair with the same word. -/
def place (k : UInt64) (v : α) : List (UInt64 × α) → List (UInt64 × α)
  | [] => [(k, v)]
  | e :: es =>
    if k < e.1 then (k, v) :: e :: es
    else if k = e.1 then (k, v) :: es
    else e :: place k v es

/-- A pair in the list is the one that was put, or it was there before. The induction is on the
list, up to the place of the pair. -/
theorem mem_place {k : UInt64} {v : α} {es : List (UInt64 × α)} {e : UInt64 × α}
    (h : e ∈ place k v es) : e = (k, v) ∨ e ∈ es := by
  induction es with
  | nil => exact .inl (List.mem_singleton.1 h)
  | cons x xs ih =>
    unfold place at h
    split at h
    · rcases List.mem_cons.1 h with h | h
      · exact .inl h
      · exact .inr h
    · split at h
      · rcases List.mem_cons.1 h with h | h
        · exact .inl h
        · exact .inr (List.mem_cons_of_mem _ h)
      · rcases List.mem_cons.1 h with rfl | h
        · exact .inr (.head _)
        · exact (ih h).imp_right (List.mem_cons_of_mem _)

/-- The list stays in ascending order, and no word comes twice. The pair comes behind all smaller
words, and the one with the same word, if there is one, is replaced. The induction is on the
list. -/
theorem pairwise_place {k : UInt64} {v : α} {es : List (UInt64 × α)}
    (h : es.Pairwise (fun a b => a.1 < b.1)) :
    (place k v es).Pairwise (fun a b => a.1 < b.1) := by
  induction es with
  | nil => exact List.pairwise_singleton _ _
  | cons x xs ih =>
    rw [List.pairwise_cons] at h
    unfold place
    split
    · rename_i hk
      refine List.pairwise_cons.2 ⟨fun e he => ?_, List.pairwise_cons.2 h⟩
      rcases List.mem_cons.1 he with rfl | he
      · exact hk
      · exact UInt64.lt_trans hk (h.1 e he)
    · rename_i hk
      split
      · rename_i hx
        exact List.pairwise_cons.2 ⟨fun e he => hx ▸ h.1 e he, h.2⟩
      · rename_i hx
        refine List.pairwise_cons.2 ⟨fun e he => ?_, ih h.2⟩
        rcases mem_place he with rfl | he
        · exact UInt64.lt_of_le_of_ne (UInt64.not_lt.1 hk) (Ne.symm hx)
        · exact h.1 e he

/-- The value under a word. -/
def get? (m : Ordered α) (k : UInt64) : Option α :=
  (m.entries.find? (·.1 = k)).map (·.2)

/-- Puts a value under a word, in place of what was there. -/
def insert (m : Ordered α) (k : UInt64) (v : α) : Ordered α :=
  ⟨place k v m.entries, pairwise_place m.ascending⟩

/-- Takes a word out. -/
def erase (m : Ordered α) (k : UInt64) : Ordered α :=
  ⟨m.entries.filter (·.1 ≠ k), m.ascending.filter _⟩

/-- The values, in ascending order of their words. -/
def values (m : Ordered α) : List α :=
  m.entries.map (·.2)

/-- The number of words in the map. -/
def size (m : Ordered α) : Nat :=
  m.entries.length

instance : Inhabited (Ordered α) := ⟨empty⟩

@[simp] theorem get?_empty (k : UInt64) : (empty : Ordered α).get? k = none := rfl

/-- A word that was taken out has no value, and the others keep theirs. -/
@[simp] theorem get?_erase (m : Ordered α) (k k' : UInt64) :
    (m.erase k).get? k' = if k' = k then none else m.get? k' := by
  unfold get? erase
  simp only
  rw [List.find?_filter]
  by_cases h : k' = k
  · subst h
    simp
  · rw [if_neg h]
    congr 2
    funext e
    by_cases he : e.1 = k'
    · simp [he, h]
    · simp [he]

/-- The pair under a word is the one that was put, or the one that was there before. The pairs
ascend, but the search does not rely on it. The induction is on the list, up to the place of the
pair. -/
theorem find?_place (k k' : UInt64) (v : α) (es : List (UInt64 × α)) :
    (place k v es).find? (·.1 = k') = if k' = k then some (k, v) else es.find? (·.1 = k') := by
  induction es with
  | nil => by_cases h : k' = k <;> simp [place, h, Ne.symm]
  | cons x xs ih =>
    unfold place
    split
    · by_cases h : k' = k
      · simp [h]
      · simp [h, Ne.symm h]
    · split
      · rename_i hx
        by_cases h : k' = k
        · simp [h]
        · simp [h, ← hx, Ne.symm h]
      · rename_i hx
        by_cases h : k' = k
        · subst h
          simp [Ne.symm hx, ih]
        · simp only [List.find?_cons, ih, if_neg h]

/-- A word has the value that was put under it, and the others keep theirs. -/
@[simp] theorem get?_insert (m : Ordered α) (k k' : UInt64) (v : α) :
    (m.insert k v).get? k' = if k' = k then some v else m.get? k' := by
  simp only [get?, insert, find?_place]
  split <;> rfl

end Ordered

end SymbolTable
