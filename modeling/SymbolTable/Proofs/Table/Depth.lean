import SymbolTable.Proofs.Columns
import SymbolTable.Proofs.Table.Forest

/-!
# How deep scopes lie

A walk up the parents is bounded, and so is what can be named in full: a table is shallow if from no
row more rows are passed on the way to the global scope than the bound admits (`Table.Shallow`).
Where rows stay in their scopes, ways get no longer (`Shallow.of_stays`). Where one row is put into
a scope, the ways that change are its own and those of the rows in it, which first lead up to it
(`Table.Ascends`) and then on from its new scope. So the table stays shallow if there is room for
all of them (`Table.Fits`, `Shallow.of_seats`).
-/

namespace SymbolTable.Table

variable {t t₁ t' : Table} {id : SymbolId} {scope : Scope} {row : Row} {rs below : List Row}

/-- The rows on the way from a scope up to the symbol with an id, but not its own. -/
inductive Ascends (t : Table) (id : SymbolId) : Scope → List Row → Prop where
  | here : Ascends t id (.of id) []
  | step {i : SymbolId} {r : Row} {rs : List Row} (h : t.row? i = some r)
      (hrest : Ascends t id r.parent rs) : Ascends t id (.of i) (r :: rs)

/-- From no row more rows are passed on the way to the global scope than a walk may pass. -/
def Shallow (t : Table) : Prop :=
  ∀ r ∈ t.rows, ∀ rs, t.Leads r.parent rs → rs.length ≤ t.settings.maxDepth

/-- In a scope there is room for a symbol, and for all that lies in it if it has an id: from none of
these rows more rows are passed than a walk may pass once it lies there. -/
structure Fits (t : Table) (id? : Option SymbolId) (scope : Scope) : Prop where
  alone : ∀ rs, t.Leads scope rs → rs.length ≤ t.settings.maxDepth
  along : ∀ id, id? = some id → ∀ r ∈ t.rows, ∀ below rs, t.Ascends id r.parent below → t.Leads scope rs →
    below.length + 1 + rs.length ≤ t.settings.maxDepth

/-- At most one row is put, and into this scope: that of the symbol with an id, if it has one, or a
fresh one. -/
def Seats (t : Table) (id? : Option SymbolId) (scope : Scope) (t' : Table) : Prop :=
  t'.rows = t.rows ∨ ∃ row, t.Replaces row t' ∧ row.parent = scope ∧
    (id? = some row.id ∨ t.store.backend.allocate.1 = .ok row.id)

/-- Rows stay in their scopes, or come to lie in the global one. -/
def Stays (t t' : Table) : Prop :=
  ∀ id r', t'.row? id = some r' → r'.parent = .global ∨ ∃ r, t.row? id = some r ∧ r'.parent = r.parent

/-! ## Rows that stay -/

/-- A way to the global scope depends on the rows alone. -/
theorem Leads.congr (h : t.Leads scope rs) (hrows : t'.rows = t.rows) : t'.Leads scope rs := by
  induction h with
  | global => exact .global
  | step hget _ ih => exact .step ((row?_congr hrows _).trans hget) ih

namespace Stays

/-- If every row was there before under its id, all of them stay in their scopes. -/
theorem of_row? (h : ∀ id r', t'.row? id = some r' → t.row? id = some r') : t.Stays t' :=
  fun id r' hget => .inr ⟨r', h id r' hget, rfl⟩

/-- If the rows are the same, they stay in their scopes. -/
theorem of_rows_eq (hrows : t'.rows = t.rows) : t.Stays t' :=
  .of_row? fun id _ hget => (row?_congr hrows id).symm.trans hget

/-- Rows that stay in their scopes over two stretches do so over both. A row in the global scope
counts as staying, wherever it was. -/
theorem trans (h : t.Stays t₁) (h' : t₁.Stays t') : t.Stays t' := by
  intro id r' hget
  rcases h' id r' hget with hglobal | ⟨r₁, hget₁, hparent⟩
  · exact .inl hglobal
  · rw [hparent]
    exact h id r₁ hget₁

/-- A row is put that lies in the global scope or in that of the row which it replaces. All other
rows are the same and lie where they lay. -/
theorem of_replaces (hreplaces : t.Replaces row t')
    (hparent : row.parent = .global ∨ ∃ r, t.row? row.id = some r ∧ row.parent = r.parent) : t.Stays t' := by
  intro id r' hget
  rw [hreplaces] at hget
  split at hget
  · rename_i hid
    cases hget
    exact hid ▸ hparent
  · exact .inr ⟨r', hget, rfl⟩

/-- Ways get no longer. At each row on the new way, the old way either had this row with the same
parent, or it goes on where the new one has ended. The induction is on the new way. -/
theorem length_le (h : t.Stays t') {rs' : List Row} (hleads' : t'.Leads scope rs') (hleads : t.Leads scope rs) :
    rs'.length ≤ rs.length := by
  induction hleads' generalizing rs with
  | global => exact Nat.zero_le _
  | @step id r' rs' hget' hrest' ih =>
    cases hleads with
    | @step _ r rs hget hrest =>
      refine Nat.succ_le_succ ?_
      rcases h id r' hget' with hglobal | ⟨x, hgetx, hparent⟩
      · rw [hglobal] at hrest'
        cases hrest'
        exact Nat.zero_le _
      · cases hget.symm.trans hgetx
        exact ih (hparent ▸ hrest)

end Stays

/-- A shallow table stays so where rows stay in their scopes. That it was a forest says that each
row had a way before, which has got no longer. -/
theorem Shallow.of_stays (h : t.Shallow) (hf : t.Forest) (hs' : t'.Sound) (hstays : t.Stays t')
    (hsettings : t'.settings = t.settings) : t'.Shallow := by
  intro r' hr' rs' hleads'
  rw [hsettings]
  rcases hstays r'.id r' (row?_id hs'.backend hr') with hglobal | ⟨r, hget, hparent⟩
  · rw [hglobal] at hleads'
    cases hleads'
    exact Nat.zero_le _
  · have hr := mem_of_row? hget
    obtain ⟨rs, hleads⟩ := (hf r hr).rooted
    exact Nat.le_trans (hstays.length_le hleads' (hparent ▸ hleads)) (h r hr rs hleads)

/-! ## Rooms -/

/-- There is one way up from a scope, so its length decides. The two premises are about the way from
the scope itself and about the rows that come to lie below it, whose ways first lead up to the
symbol. -/
theorem Fits.of_leads {id? : Option SymbolId} (hleads : t.Leads scope rs)
    (halone : rs.length ≤ t.settings.maxDepth)
    (halong : ∀ id, id? = some id → ∀ r ∈ t.rows, ∀ below, t.Ascends id r.parent below →
      below.length + 1 + rs.length ≤ t.settings.maxDepth) : t.Fits id? scope where
  alone rs' hleads' := by
    rw [hleads'.unique hleads]
    exact halone
  along id hid r hr below rs' hascends hleads' := by
    rw [hleads'.unique hleads]
    exact halong id hid r hr below hascends

/-! ## A row that is put -/

/-- A way that leads up to a symbol passes its row. The way from the scope leads on to the global
one, so it cannot end before the symbol. The induction is on the way. -/
theorem Ascends.exists_row (h : t.Ascends id scope below) (hrooted : t.Rooted scope) :
    ∃ r, t.row? id = some r := by
  induction h with
  | here =>
    obtain ⟨_, hleads⟩ := hrooted
    cases hleads with
    | step hget => exact ⟨_, hget⟩
  | step hget _ ih => exact ih (hrooted.parent hget)

/-- In a forest, nothing lies under an id that has no row. A way to it would have to pass its
row. -/
theorem Forest.not_ascends (hf : t.Forest) (hnone : t.row? id = none) {r : Row} (hr : r ∈ t.rows) :
    ¬ t.Ascends id r.parent below := by
  intro hascends
  obtain ⟨x, hget⟩ := hascends.exists_row (hf r hr).rooted
  cases hnone.symm.trans hget

namespace Replaces

variable (hreplaces : t.Replaces row t')

include hreplaces

/-- A way that does not pass the row was there before. The row that was put is the only one that is
another. The induction is on the way. -/
theorem leads_of_ne {rs' : List Row} (hleads' : t'.Leads scope rs') (hout : ∀ x ∈ rs', x.id ≠ row.id) :
    t.Leads scope rs' := by
  induction hleads' with
  | global => exact .global
  | @step id r' rs' hget' _ ih =>
    have hid : id ≠ row.id := id_of_row? hget' ▸ hout r' (.head _)
    rw [hreplaces, if_neg hid] at hget'
    exact .step hget' (ih fun x hx => hout x (.tail _ hx))

/-- A way was there before, or it leads up to the row and goes on from its scope. In the second case
the part below the row is an old one, and the part from its new scope on is not passed by the row
again. The induction is on the way. -/
theorem leads_or_ascends {rs' : List Row} (hleads' : t'.Leads scope rs') :
    t.Leads scope rs' ∨ ∃ below rest, t.Ascends row.id scope below ∧ t'.Leads row.parent rest ∧
      rs'.length = below.length + 1 + rest.length := by
  induction hleads' with
  | global => exact .inl .global
  | @step id r' rs' hget' hrest' ih =>
    rw [hreplaces] at hget'
    split at hget'
    · rename_i hid
      cases hget'
      refine .inr ⟨[], rs', hid ▸ .here, hrest', ?_⟩
      rw [List.length_cons, List.length_nil]
      omega
    · rcases ih with hleads | ⟨below, rest, hascends, hrest, hlength⟩
      · exact .inl (.step hget' hleads)
      · refine .inr ⟨r' :: below, rest, .step hget' hascends, hrest, ?_⟩
        rw [List.length_cons, List.length_cons, hlength]
        omega

/-- The way on from the scope of the row does not come back to it, so it was there before. The row
is passed once at most, as no way passes a row twice. -/
theorem leads_parent {rs' : List Row} (hleads' : t'.Leads row.parent rs') : t.Leads row.parent rs' := by
  have hget : t'.row? row.id = some row := by rw [hreplaces, if_pos rfl]
  have hnodup := (Leads.step hget hleads').nodup
  refine hreplaces.leads_of_ne hleads' fun x hx hid => ?_
  exact (List.nodup_cons.1 hnodup).1 (List.mem_map.2 ⟨x, hx, hid⟩)

end Replaces

/-- A row is put into a scope in which there is room for it and for what lies in it. A way that goes
on from its new scope is as long as the part below it, the row itself and the way from the scope
together, and `Fits` bounds this sum. The premise `hid` is for a fresh row, in which nothing
lies. -/
theorem Shallow.of_replaces {id? : Option SymbolId} (h : t.Shallow) (hs' : t'.Sound)
    (hreplaces : t.Replaces row t') (hsettings : t'.settings = t.settings) (hfits : t.Fits id? row.parent)
    (hid : id? = some row.id ∨ ∀ r ∈ t.rows, ∀ below, ¬ t.Ascends row.id r.parent below) : t'.Shallow := by
  intro r' hr' rs' hleads'
  rw [hsettings]
  have hget' := row?_id hs'.backend hr'
  rw [hreplaces] at hget'
  split at hget'
  · cases hget'
    exact hfits.alone rs' (hreplaces.leads_parent hleads')
  · have hr := mem_of_row? hget'
    rcases hreplaces.leads_or_ascends hleads' with hleads | ⟨below, rest, hascends, hrest, hlength⟩
    · exact h r' hr rs' hleads
    · rw [hlength]
      rcases hid with hid | hnone
      · exact hfits.along row.id hid r' hr below rest hascends (hreplaces.leads_parent hrest)
      · exact absurd hascends (hnone r' hr below)

namespace Seats

variable {id? : Option SymbolId} {b : Store.Backend}

/-- If nothing happens, at most one row is put. -/
theorem refl (t : Table) (id? : Option SymbolId) (scope : Scope) : t.Seats id? scope t :=
  .inl rfl

/-- The rows matter only, before and after. -/
theorem of_rows_eq (h : t.Seats id? scope t₁) (hrows : t'.rows = t₁.rows) : t.Seats id? scope t' := by
  rcases h with hsame | ⟨row, hreplaces, hparent, hid⟩
  · exact .inl (hrows.trans hsame)
  · exact .inr ⟨row, hreplaces.congr rfl hrows, hparent, hid⟩

/-- Whether handles are kept up before a row is put makes no difference. The rows are the same, and
so are the draws. -/
theorem after (hpath : Path upkeep t t₁) (h : t₁.Seats id? scope t') : t.Seats id? scope t' := by
  have hrows : t₁.rows = t.rows := hpath.rows_eq_of_upkeep
  rcases h with hsame | ⟨row, hreplaces, hparent, hid⟩
  · exact .inl (hsame.trans hrows)
  · rw [hpath.upkeep.1] at hid
    exact .inr ⟨row, hreplaces.congr hrows rfl, hparent, hid⟩

/-- An id is drawn, and a row is put under it. The draw changes no row, so the table after it has
the new row and those from before. -/
theorem of_fresh (hs : t.Sound) (hid : t.store.backend.allocate.1 = .ok row.id)
    (hputs : t.store.backend.allocate.2.Puts row b) : t.Seats id? row.parent (t.withBackend b) := by
  have hreplaces : (t.withBackend t.store.backend.allocate.2).Replaces row (t.withBackend b) :=
    row?_puts (t := t.withBackend t.store.backend.allocate.2) hs.backend.allocate.1 hputs
  exact .inr ⟨row, hreplaces.congr hs.rows_draw rfl, rfl, .inr hid⟩

end Seats

/-- A table stays shallow where a symbol is put into a scope in which it fits. If no row is put,
nothing changes. A fresh row has an id that no row has for its parent, as the rows stand in a
forest. -/
theorem Shallow.of_seats {id? : Option SymbolId} (h : t.Shallow) (hf : t.Forest) (hs : t.Sound) (he : t.Exact)
    (hlt : t.drawn < UInt64.size - 1) (hs' : t'.Sound) (hseats : t.Seats id? scope t')
    (hsettings : t'.settings = t.settings) (hfits : t.Fits id? scope) : t'.Shallow := by
  rcases hseats with hrows | ⟨row, hreplaces, rfl, hid⟩
  · exact h.of_stays hf hs' (.of_rows_eq hrows) hsettings
  · refine h.of_replaces hs' hreplaces hsettings hfits (hid.imp_right fun hdraws r hr below => ?_)
    refine hf.not_ascends ?_ hr
    cases hget : t.row? row.id with
    | none => rfl
    | some x =>
      have hle := he.le_drawn x (mem_of_row? hget)
      have hnext := hs.backend.next_of_allocate hdraws hlt
      rw [id_of_row? hget, hnext.1] at hle
      exact absurd hle (Nat.not_succ_le_self _)

end SymbolTable.Table
