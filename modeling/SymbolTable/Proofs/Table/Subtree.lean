import SymbolTable.Proofs.Action.Course
import SymbolTable.Proofs.Table.Forest

/-!
# Subtrees that are taken out

What lies in a symbol, directly or in a scope in it, is its subtree (`Table.Within`). When rows are
taken out one after the other, each is noted and told under the name that it shows last, so all that
happened can be told from the list of these departures (`Table.Loses`). Such lists are put together
in a forest: a row that is still there does not lie in one that is gone (`Loses.trans`). If all that
is gone is from one subtree, whose root is gone and which leaves a forest behind, it is the whole
subtree (`Felled.subtree`).
-/

namespace SymbolTable

namespace Table

variable {t t₁ t₂ : Table} {id : SymbolId} {gone gone' : List Departure}

/-! ## Subtrees -/

/-- The row is the symbol's own, or it lies in the symbol or in something in it. -/
inductive Within (t : Table) (id : SymbolId) : Row → Prop where
  | root {r : Row} (h : t.row? id = some r) : Within t id r
  | inside {r p : Row} (hr : r ∈ t.rows) (hparent : r.parent = .of p.id) (hp : Within t id p) :
      Within t id r

namespace Within

variable {r x : Row}

/-- What lies in a symbol is stored. -/
theorem mem_rows (h : t.Within id x) : x ∈ t.rows := by
  cases h with
  | root hrow => exact mem_of_row? hrow
  | inside hr => exact hr

/-- Where there are more rows, there are more in the symbol. The way by which a row lies in the
symbol is made of rows. The induction is on it. -/
theorem mono (h : t₁.Within id x) (hs : t.store.backend.Sound) (hrows : ∀ y ∈ t₁.rows, y ∈ t.rows) :
    t.Within id x := by
  induction h with
  | root hrow => exact .root ((row?_eq_some_iff hs).2 ⟨hrows _ (mem_of_row? hrow), id_of_row? hrow⟩)
  | inside hr hparent _ ih => exact .inside (hrows _ hr) hparent ih

/-- What lies in something in the symbol lies in the symbol. The induction is on how it lies in the
former. -/
theorem trans (h : t.Within r.id x) (hs : t.store.backend.Sound) (hr : t.Within id r) :
    t.Within id x := by
  induction h with
  | root hrow =>
    cases (row?_id hs hr.mem_rows).symm.trans hrow
    exact hr
  | inside hx hparent _ ih => exact .inside hx hparent ih

end Within

/-! ## Departures -/

/-- The table lost rows one after the other, each before the scope in which it lay. Every departure
was a write, and was noted and told, and nothing else was written, noted or told. -/
structure Loses (t : Table) (gone : List Departure) (t' : Table) : Prop where
  mem_rows : ∀ x, x ∈ t'.rows ↔ x ∈ t.rows ∧ x ∉ gone.map (·.row)
  stored : ∀ d ∈ gone, d.row ∈ t.rows
  once : (gone.map (·.row.id)).Nodup
  insideOut : gone.Pairwise fun d e => e.row.parent ≠ .of d.row.id
  writes : t'.writes = t.writes + gone.length
  journal : t'.journal.entries = t.journal.entries ++ gone.map (·.entry)
  log : t'.log = t.log ++ gone.map (·.event)
  outages : t'.store.outages = t.store.outages

/-- In a forest, every row lies in the global scope or in one that is stored. It is rooted, and the
way to the global scope begins with that scope. -/
theorem Forest.exists_parent (hf : t.Forest) {x : Row} (hx : x ∈ t.rows) (hparent : x.parent = .of id) :
    ∃ p, t.row? id = some p := by
  obtain ⟨_, hleads⟩ := (hf x hx).rooted
  rw [hparent] at hleads
  cases hleads with
  | step hrow => exact ⟨_, hrow⟩

namespace Loses

/-- If the store, the journal and the log stay as they are, nothing is lost. So it is what a
deletion comes to that is refused before anything was taken out. -/
theorem nothing (hstore : t₁.store = t.store) (hjournal : t₁.journal = t.journal)
    (hlog : t₁.log = t.log) : t.Loses [] t₁ where
  mem_rows x := by simp [rows, hstore]
  stored := nofun
  once := .nil
  insideOut := .nil
  writes := congrArg Store.writes hstore
  journal := by simp [hjournal]
  log := by simp [hlog]
  outages := congrArg Store.outages hstore

/-- A row is taken out, and is noted and told. This is what a removal that is not refused comes
to. -/
theorem one {r : Row} {b : Store.Backend} (hs : t.store.backend.Sound) (hr : r ∈ t.rows)
    (hremoves : t.store.backend.Removes r.id b) {d : Departure} (hd : d.row = r)
    (hstore : t₁.store = t.store.withBackend b)
    (hjournal : t₁.journal = t.journal.record d.entry) (hlog : t₁.log = t.log ++ [d.event]) :
    t.Loses [d] t₁ where
  mem_rows x := by
    subst hd
    show x ∈ t₁.store.backend.rows ↔ _
    rw [hstore]
    show x ∈ b.rows ↔ _
    rw [hremoves.mem_rows, List.map_singleton, List.mem_singleton]
    refine and_congr_right fun hx => not_congr ⟨fun hid => ?_, fun heq => congrArg Row.id heq⟩
    exact hs.ascending_rows.eq_of_id_eq hx hr hid
  stored e he := by
    obtain rfl := List.mem_singleton.1 he
    exact hd ▸ hr
  once := List.nodup_singleton _
  insideOut := List.pairwise_singleton _ _
  writes := by
    have hrow : t.store.backend.rows.find? (·.id = r.id) = some r := row?_id hs hr
    show t₁.store.backend.writes = _
    rw [hstore]
    show b.writes = _
    rw [hremoves.writes, hrow]
    rfl
  journal := congrArg Journal.entries hjournal
  log := hlog
  outages := by
    rw [hstore]
    rfl

/-- Nothing is left under the id of a row that is gone. All of them were rows of the table before,
where ids are unique. -/
theorem row?_eq_none (h : t.Loses gone t₁) (hs : t.Sound) {d : Departure} (hd : d ∈ gone) :
    t₁.row? d.row.id = none := by
  rw [row?_eq_none_iff]
  intro x hx hid
  obtain ⟨hmem, hnotin⟩ := (h.mem_rows x).1 hx
  obtain rfl : x = d.row := hs.backend.ascending_rows.eq_of_id_eq hmem (h.stored d hd) hid
  exact hnotin (List.mem_map_of_mem hd)

/-- What is left does not lie in what is gone. It would have to lie in a scope that is stored. -/
theorem parent_ne (h : t.Loses gone t₁) (hs : t.Sound) (hf : t₁.Forest) {d : Departure} (hd : d ∈ gone)
    {x : Row} (hx : x ∈ t₁.rows) : x.parent ≠ .of d.row.id := by
  intro hparent
  obtain ⟨p, hrow⟩ := hf.exists_parent hx hparent
  cases (h.row?_eq_none hs hd).symm.trans hrow

/-- What is lost in two stretches is lost over both. In between there has to be a forest, so that
what departs later did not lie in what is gone. -/
theorem trans (h : t.Loses gone t₁) (hs : t.Sound) (hf : t₁.Forest) (h' : t₁.Loses gone' t₂) :
    t.Loses (gone ++ gone') t₂ where
  mem_rows x := by
    rw [h'.mem_rows, h.mem_rows, List.map_append, List.mem_append, not_or, and_assoc]
  stored d hd := by
    rcases List.mem_append.1 hd with hd | hd
    · exact h.stored d hd
    · exact ((h.mem_rows d.row).1 (h'.stored d hd)).1
  once := by
    rw [List.map_append]
    refine h.once.append h'.once fun i hi hi' => ?_
    obtain ⟨d, hd, rfl⟩ := List.mem_map.1 hi
    obtain ⟨e, he, hid⟩ := List.mem_map.1 hi'
    obtain ⟨hmem, hnotin⟩ := (h.mem_rows e.row).1 (h'.stored e he)
    have heq : e.row = d.row := hs.backend.ascending_rows.eq_of_id_eq hmem (h.stored d hd) hid
    exact hnotin (heq ▸ List.mem_map_of_mem hd)
  insideOut := List.pairwise_append.2
    ⟨h.insideOut, h'.insideOut, fun _ hd _ he => h.parent_ne hs hf hd (h'.stored _ he)⟩
  writes := by rw [h'.writes, h.writes, List.length_append, Nat.add_assoc]
  journal := by rw [h'.journal, h.journal, List.map_append, List.append_assoc]
  log := by rw [h'.log, h.log, List.map_append, List.append_assoc]
  outages := h'.outages.trans h.outages

end Loses

/-! ## Felled subtrees -/

/-- The table lost rows of a subtree. -/
structure Felled (t : Table) (id : SymbolId) (gone : List Departure) (t' : Table) : Prop where
  loses : t.Loses gone t'
  within : ∀ d ∈ gone, t.Within id d.row

namespace Felled

/-- If nothing is lost, nothing of the subtree is. -/
theorem nothing (h : t.Loses [] t₁) : t.Felled id [] t₁ :=
  ⟨h, nofun⟩

/-- The row of the symbol itself is of its subtree. So the removal of a leaf fells a subtree of one
row. -/
theorem root {d : Departure} (hrow : t.row? d.row.id = some d.row) (h : t.Loses [d] t₁) :
    t.Felled d.row.id [d] t₁ := by
  refine ⟨h, fun e he => ?_⟩
  obtain rfl := List.mem_singleton.1 he
  exact .root hrow

/-- What is lost of a subtree in two stretches is lost of it over both. What was in the symbol after
the first was so before. -/
theorem trans (h : t.Felled id gone t₁) (hs : t.Sound) (hf : t₁.Forest) (h' : t₁.Felled id gone' t₂) :
    t.Felled id (gone ++ gone') t₂ := by
  refine ⟨h.loses.trans hs hf h'.loses, fun d hd => ?_⟩
  rcases List.mem_append.1 hd with hd | hd
  · exact h.within d hd
  · exact (h'.within d hd).mono hs.backend fun y hy => ((h.loses.mem_rows y).1 hy).1

/-- What was in a part of the subtree was in the subtree. -/
theorem of_within {r : Row} (h : t.Felled r.id gone t₁) (hs : t.Sound) (hr : t.Within id r) :
    t.Felled id gone t₁ :=
  ⟨h.loses, fun d hd => (h.within d hd).trans hs.backend hr⟩

/-- Where the root of the subtree is gone and a forest is left, the whole subtree is gone. In a
forest whatever is left has its parents left, and so on up to the global scope, so nothing that is
left lies in the root. The induction is on how the row lies in it. -/
theorem subtree (h : t.Felled id gone t₁) (hs : t.Sound) (hf : t₁.Forest) (hroot : t₁.row? id = none)
    (x : Row) : x ∈ gone.map (·.row) ↔ t.Within id x := by
  constructor
  · intro hx
    obtain ⟨d, hd, rfl⟩ := List.mem_map.1 hx
    exact h.within d hd
  · intro hx
    by_contra hnotin
    have hstays := (h.loses.mem_rows x).2 ⟨hx.mem_rows, hnotin⟩
    clear hnotin
    -- the way up from a row that stays leads over rows that stay, to the root
    induction hx with
    | root hrow => exact row?_eq_none_iff.1 hroot _ hstays (id_of_row? hrow)
    | @inside r p hr hparent hp ih =>
      obtain ⟨q, hq⟩ := hf.exists_parent hstays hparent
      have hmem := ((h.loses.mem_rows q).1 (mem_of_row? hq)).1
      obtain rfl : q = p := hs.backend.ascending_rows.eq_of_id_eq hmem hp.mem_rows (id_of_row? hq)
      exact ih (mem_of_row? hq)

end Felled

end Table

end SymbolTable
