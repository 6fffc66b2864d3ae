import SymbolTable.Proofs.Table.Exact

/-!
# The forest of scopes

The parents of the rows make a forest whose roots lie in the global scope: every row lies in a scope
that admits it, and from there the way leads to the global scope (`Table.Forest`). A row that joins
the forest is a leaf, and a row that is moved does not lie on the way from its new scope, so the
forest stays one by every step that writes (`Step.forest`). A row may be taken out where no row lies
in it (`Forest.takeOut`).
-/

namespace SymbolTable.Table

variable {t t' : Table} {may : Deed → Prop}

/-- The rows on the way from a scope to the global one. -/
inductive Leads (t : Table) : Scope → List Row → Prop where
  | global : Leads t .global []
  | step {id : SymbolId} {r : Row} {rs : List Row} (h : t.row? id = some r)
      (hrest : Leads t r.parent rs) : Leads t (.of id) (r :: rs)

/-- The way from the scope leads to the global one. -/
def Rooted (t : Table) (scope : Scope) : Prop :=
  ∃ rs, t.Leads scope rs

/-- A symbol of a kind may be found in a scope: the scope accepts it, or it is a label in the global
one, where derived symbols are stored without a check. -/
def Admits (t : Table) (k : Kind) (scope : Scope) : Prop :=
  t.Accepts k scope ∨ k = .label ∧ scope = .global

/-- The row lies in a scope that admits it, from where the way leads to the global scope. -/
structure Stands (t : Table) (r : Row) : Prop where
  admitted : ∃ k, r.kind? = some k ∧ t.Admits k r.parent
  rooted : t.Rooted r.parent

/-- All rows stand in a forest. -/
def Forest (t : Table) : Prop :=
  ∀ r ∈ t.rows, t.Stands r

/-! ## Ways that end -/

namespace Climbs

variable {scope : Scope} {rs : List Row}

/-- There is one way. The induction is on one of the two ways: at each scope the row is told by the
store, and so is where it ends. -/
theorem unique (h : t.Climbs scope rs) {rs' : List Row} (h' : t.Climbs scope rs') : rs = rs' := by
  induction h generalizing rs' with
  | global => cases h'; rfl
  | lost hnone =>
    cases h' with
    | lost => rfl
    | step hrow => cases hnone.symm.trans hrow
  | step hrow _ ih =>
    cases h' with
    | lost hnone => cases hnone.symm.trans hrow
    | step hrow' hrest =>
      cases hrow.symm.trans hrow'
      rw [ih hrest]

/-- From each row on the way, the rest of the way leads on. The induction is on the way. That the
rest is no longer than the whole is what rules out that a row comes twice. -/
theorem exists_of_mem (h : t.Climbs scope rs) {x : Row} (hx : x ∈ rs) :
    ∃ rs', t.Climbs (.of x.id) rs' ∧ rs'.length ≤ rs.length := by
  induction h with
  | global | lost => cases hx
  | @step id r rs hrow hrest ih =>
    rcases List.mem_cons.1 hx with rfl | hx
    · obtain rfl : x.id = id := id_of_row? hrow
      exact ⟨_, .step hrow hrest, Nat.le_refl _⟩
    · obtain ⟨rs', hclimbs, hle⟩ := ih hx
      exact ⟨rs', hclimbs, Nat.le_succ_of_le hle⟩

/-- No row comes twice on the way, for then the way would not end. If a row came twice, the rest of
the way from there would be both the shorter and the whole one, against `exists_of_mem` and
`unique`. -/
theorem nodup (h : t.Climbs scope rs) : (rs.map (·.id)).Nodup := by
  induction h with
  | global | lost => exact .nil
  | @step id r rs hrow hrest ih =>
    refine List.nodup_cons.2 ⟨fun hmem => ?_, ih⟩
    obtain ⟨x, hx, hid⟩ := List.mem_map.1 hmem
    obtain ⟨rs', hclimbs, hle⟩ := hrest.exists_of_mem hx
    have hid' : x.id = id := hid.trans (id_of_row? hrow)
    have heq := (hid' ▸ hclimbs).unique (.step hrow hrest)
    rw [heq, List.length_cons] at hle
    omega

end Climbs

/-! ## Ways to the global scope -/

namespace Leads

variable {scope : Scope} {rs : List Row}

/-- A way to the global scope is one that ends. -/
theorem climbs (h : t.Leads scope rs) : t.Climbs scope rs := by
  induction h with
  | global => exact .global
  | step hrow _ ih => exact .step hrow ih

/-- There is one way to the global scope, since each row has one parent. -/
theorem unique (h : t.Leads scope rs) {rs' : List Row} (h' : t.Leads scope rs') : rs = rs' :=
  h.climbs.unique h'.climbs

/-- No row comes twice on the way to the global scope. -/
theorem nodup (h : t.Leads scope rs) : (rs.map (·.id)).Nodup :=
  h.climbs.nodup

end Leads

namespace Rooted

/-- The global scope is where all ways lead. -/
theorem global : t.Rooted .global :=
  ⟨[], .global⟩

/-- A symbol whose parent is rooted is rooted: its own row comes first on the way. -/
theorem of_row {id : SymbolId} {r : Row} (hrow : t.row? id = some r) (h : t.Rooted r.parent) :
    t.Rooted (.of id) :=
  h.imp' (r :: ·) fun _ hleads => .step hrow hleads

/-- What is around a rooted symbol is rooted, for the rest of its way leads on from there. -/
theorem parent {id : SymbolId} {r : Row} (h : t.Rooted (.of id)) (hrow : t.row? id = some r) :
    t.Rooted r.parent := by
  obtain ⟨_, hleads⟩ := h
  cases hleads with
  | step hrow' hrest =>
    cases hrow.symm.trans hrow'
    exact ⟨_, hrest⟩

/-- The way still leads to the global scope where rows keep their parents or get others from which
it leads there. -/
theorem transfer {scope : Scope} (h : t.Rooted scope)
    (hrows : ∀ id r, t.row? id = some r → ∃ r', t'.row? id = some r' ∧
      (r'.parent = r.parent ∨ t'.Rooted r'.parent)) : t'.Rooted scope := by
  obtain ⟨rs, hleads⟩ := h
  induction hleads with
  | global => exact .global
  | step hrow _ ih =>
    obtain ⟨r', hrow', hparent | hroot⟩ := hrows _ _ hrow
    · rw [← hparent] at ih
      exact .of_row hrow' ih
    · exact .of_row hrow' hroot

/-- A way that passes a row by is not changed with that row. The way up is followed to its end, by
induction on it, and each row on it is there after the change as well. -/
theorem of_climbs {scope : Scope} {rs : List Row} {id₀ : SymbolId} (h : t.Rooted scope)
    (hclimbs : t.Climbs scope rs) (hout : ∀ x ∈ rs, x.id ≠ id₀)
    (hrows : ∀ id, id ≠ id₀ → t'.row? id = t.row? id) : t'.Rooted scope := by
  induction hclimbs with
  | global => exact .global
  | lost hnone =>
    obtain ⟨_, hleads⟩ := h
    cases hleads with
    | step hrow =>
      rw [hnone] at hrow
      cases hrow
  | @step id r rs hrow _ ih =>
    obtain rfl : r.id = id := id_of_row? hrow
    have hrest := ih (h.parent hrow) fun x hx => hout x (.tail _ hx)
    rw [← hrows r.id (hout r (.head _))] at hrow
    exact .of_row hrow hrest

end Rooted

/-- A scope still accepts where rows keep their kinds. What matters of the scope is that it is there
and of which kind it is, not what it is called or where it lies. -/
theorem Accepts.transfer {k : Kind} {scope : Scope} (h : t.Accepts k scope)
    (hrules : t'.rules = t.rules)
    (hrows : ∀ id r, scope = .of id → t.row? id = some r →
      ∃ r', t'.row? id = some r' ∧ r'.tag = r.tag) : t'.Accepts k scope := by
  cases scope with
  | global =>
    show t'.rules.acceptsParent k none = true
    rw [hrules]
    exact h
  | of id =>
    obtain ⟨r, k', hrow, hkind, hscope, haccepts⟩ := h
    obtain ⟨r', hrow', htag⟩ := hrows id r rfl hrow
    refine ⟨r', k', hrow', (congrArg Kind.ofTag? htag).trans hkind, hscope, ?_⟩
    rw [hrules]
    exact haccepts

/-- A scope still admits symbols of a kind where its row keeps its own. -/
theorem Admits.transfer {k : Kind} {scope : Scope} (h : t.Admits k scope) (hrules : t'.rules = t.rules)
    (hrows : ∀ id r, scope = .of id → t.row? id = some r →
      ∃ r', t'.row? id = some r' ∧ r'.tag = r.tag) : t'.Admits k scope :=
  h.imp_left fun haccepts => haccepts.transfer hrules hrows

/-- Where the global scope accepts labels, what is admitted is accepted. What is admitted besides is
a label in the global scope. -/
theorem Admits.accepts {k : Kind} {scope : Scope} (h : t.Admits k scope)
    (hlabel : t.Accepts .label .global) : t.Accepts k scope := by
  rcases h with h | ⟨rfl, rfl⟩
  · exact h
  · exact hlabel

/-! ## Rows that join, move and leave -/

namespace Forest

variable (hf : t.Forest)

include hf

/-- A scope that admits anything is rooted, being the global one or a symbol that stands in the
forest. This is where the check of a parent, which looks at one row, leads to a whole way. -/
theorem rooted_of_admits {k : Kind} {scope : Scope} (h : t.Admits k scope) : t.Rooted scope := by
  cases scope with
  | global => exact .global
  | of id =>
    obtain ⟨r, _, hrow, -⟩ | ⟨-, heq⟩ := h
    · exact .of_row hrow (hf r (mem_of_row? hrow)).rooted
    · cases heq

/-- A row is put, fresh or in the place of one of its kind, into a scope that admits it. The scope
must be rooted after the row was put, which is a premise here: where the row is new it is so since
the forest is, and where it is moved it takes `of_climbs`. -/
theorem put {r' : Row} (hrules : t'.rules = t.rules)
    (hmem : ∀ x, x ∈ t'.rows → x = r' ∨ x ∈ t.rows)
    (hrow? : ∀ id, t'.row? id = if id = r'.id then some r' else t.row? id)
    (htag : ∀ r, t.row? r'.id = some r → r'.tag = r.tag)
    (hadmitted : ∃ k, r'.kind? = some k ∧ t.Admits k r'.parent) (hroot : t'.Rooted r'.parent) :
    t'.Forest := by
  have hkeeps : ∀ id r, t.row? id = some r → ∃ x, t'.row? id = some x ∧ x.tag = r.tag ∧
      (x.parent = r.parent ∨ t'.Rooted x.parent) := by
    intro id r hrow
    rw [hrow?]
    split
    · rename_i hid
      subst hid
      exact ⟨r', rfl, htag r hrow, .inr hroot⟩
    · exact ⟨r, hrow, rfl, .inl rfl⟩
  have hadmits : ∀ {k scope}, t.Admits k scope → t'.Admits k scope := by
    intro k scope h
    refine h.transfer hrules ?_
    intro id r _ hrow
    obtain ⟨x, hx, htag, -⟩ := hkeeps id r hrow
    exact ⟨x, hx, htag⟩
  intro x hx
  rcases hmem x hx with rfl | hx
  · obtain ⟨k, hkind, h⟩ := hadmitted
    exact ⟨⟨k, hkind, hadmits h⟩, hroot⟩
  · obtain ⟨⟨k, hkind, h⟩, hrooted⟩ := hf x hx
    refine ⟨⟨k, hkind, hadmits h⟩, hrooted.transfer fun id r hrow => ?_⟩
    obtain ⟨x, hx, -, hparent⟩ := hkeeps id r hrow
    exact ⟨x, hx, hparent⟩

/-- A row is taken out in which no other lies. All ways of the others pass it by, so they are there
as before. The induction is on the way of each of them. -/
theorem remove {id₀ : SymbolId} (hrules : t'.rules = t.rules)
    (hmem : ∀ x, x ∈ t'.rows → x ∈ t.rows)
    (hrow? : ∀ id, id ≠ id₀ → t'.row? id = t.row? id)
    (hempty : ∀ x ∈ t.rows, x.parent ≠ .of id₀) : t'.Forest := by
  have hleads : ∀ {scope rs}, t.Leads scope rs → scope ≠ .of id₀ → t'.Leads scope rs := by
    intro scope rs h
    induction h with
    | global => exact fun _ => .global
    | @step id r rs hrow _ ih =>
      intro hne
      have hid : id ≠ id₀ := fun heq => hne (congrArg Scope.of heq)
      exact .step ((hrow? id hid).trans hrow) (ih (hempty r (mem_of_row? hrow)))
  intro x hx
  have hx := hmem x hx
  obtain ⟨⟨k, hkind, hadmits⟩, rs, hrs⟩ := hf x hx
  refine ⟨⟨k, hkind, hadmits.transfer hrules fun id r hid hrow => ⟨r, ?_, rfl⟩⟩, rs,
    hleads hrs (hempty x hx)⟩
  have hne : id ≠ id₀ := fun heq => hempty x hx (hid.trans (congrArg Scope.of heq))
  exact (hrow? id hne).trans hrow

/-- Nothing lies in a symbol that is no scope. Who lies in a symbol has been accepted by it, and
only scopes accept anybody. -/
theorem parent_ne {r : Row} {k : Kind} (hrow : t.row? r.id = some r)
    (hkind : r.kind? = some k) (hscope : k.isScope = false) {x : Row} (hx : x ∈ t.rows) :
    x.parent ≠ .of r.id := by
  intro hparent
  obtain ⟨_, -, hadmits⟩ := (hf x hx).admitted
  rw [hparent] at hadmits
  obtain ⟨r', k', hrow', hkind', hscope', -⟩ | ⟨-, heq⟩ := hadmits
  swap
  · cases heq
  cases hrow.symm.trans hrow'
  cases hkind.symm.trans hkind'
  rw [hscope] at hscope'
  cases hscope'

/-- Nothing happens to the rows. Whether a table is a forest is a matter of its rows and of the
rules. Each row is still admitted and still rooted, by the same rows. -/
theorem of_rows_eq (hrules : t'.rules = t.rules) (hrows : t'.rows = t.rows) : t'.Forest := by
  intro x hx
  rw [hrows] at hx
  obtain ⟨⟨k, hkind, hadmits⟩, hrooted⟩ := hf x hx
  have hrow? := row?_congr hrows
  refine ⟨⟨k, hkind, hadmits.transfer hrules fun id r _ hrow => ?_⟩,
    hrooted.transfer fun id r hrow => ?_⟩
  · exact ⟨r, (hrow? id).trans hrow, rfl⟩
  · exact ⟨r, (hrow? id).trans hrow, .inl rfl⟩

/-- A fresh row is a leaf. Its id was never drawn before, so nothing lies in it, and no way that was
there passes it. -/
theorem stores {row : Row} {b : Store.Backend} {k : Kind} (hs : t.Sound) (he : t.Exact)
    (hstores : t.Stores row b) (hlt : b.drawn < UInt64.size - 1) (hrules : t'.rules = t.rules)
    (hrows : t'.rows = b.rows) (htag : row.tag = k.tag) (hadmits : t.Admits k row.parent) :
    t'.Forest := by
  have hrow? : ∀ id, t'.row? id = if id = row.id then some row else t.row? id := by
    intro id
    rw [row?_congr (t := t.withBackend b) hrows]
    exact hstores.row? hs id
  have hne : ∀ id r, t.row? id = some r → id ≠ row.id := by
    intro id r hrow
    have hle := he.le_drawn r (mem_of_row? hrow)
    rw [id_of_row? hrow] at hle
    exact hstores.ne_id hs hlt hle
  refine hf.put hrules (fun x hx => ?_) hrow? (fun r hrow => absurd rfl (hne _ r hrow))
    ⟨k, Kind.ofTag?_eq_some_iff.2 htag, hadmits⟩ ?_
  · rw [hrows, hstores.mem_rows hs] at hx
    exact hx.imp_right And.left
  · refine (hf.rooted_of_admits hadmits).transfer fun id r hrow => ⟨r, ?_, .inl rfl⟩
    rw [hrow?, if_neg (hne id r hrow), hrow]

/-- The row of a handle is edited. It does not lie on the way from the scope that it is moved to.
That it does not was checked before the move, at a table with the same rows. A row that stays in its
scope has the way that it had. -/
theorem edits {h : HandleId} {r r' : Row} {b : Store.Backend} (hs : t.Sound) (he : t.Exact)
    (hrow : (t.handle h).row = some r) (hedits : t.Edits may (t.handle h) r r')
    (hputs : t.store.backend.Puts r' b) (hrules : t'.rules = t.rules) (hrows : t'.rows = b.rows) :
    t'.Forest := by
  have horder := hs.inOrder h
  have hget := (he.mirrors h).row r hrow
  obtain ⟨⟨k, hkind, hadmits⟩, hrooted⟩ := hf r (mem_of_row? hget)
  have hrow? : ∀ id, t'.row? id = if id = r'.id then some r' else t.row? id := by
    intro id
    rw [row?_congr (t := t.withBackend b) hrows]
    exact row?_puts hs.backend hputs id
  have hmem : ∀ x, x ∈ t'.rows → x = r' ∨ x ∈ t.rows := by
    intro x hx
    rw [hrows, hputs.mem_rows] at hx
    exact hx.imp_right And.left
  have hget' : t.row? r'.id = some r := by rw [hedits.id_eq, hget]
  have htag : ∀ x, t.row? r'.id = some x → r'.tag = x.tag := by
    intro x hx
    cases hget'.symm.trans hx
    exact hedits.tag_eq
  have hkind' : r'.kind? = some k := by rw [Row.kind?, hedits.tag_eq, ← Row.kind?, hkind]
  -- a row that stays in its scope is as rooted as before
  have hstays : r'.parent = r.parent → t'.Forest := by
    intro hparent
    rw [← hparent] at hadmits hrooted
    refine hf.put hrules hmem hrow? htag ⟨k, hkind', hadmits⟩ ?_
    refine hrooted.transfer fun id x hx => ?_
    rw [hrow?]
    split
    · rename_i hid
      subst hid
      cases hget'.symm.trans hx
      exact ⟨r', rfl, .inl hparent⟩
    · exact ⟨x, hx, .inl rfl⟩
  cases hedits with
  | mark _ _ _ _ hparent => exact hstays hparent
  | readdress => exact hstays rfl
  | rename _ plan hfree haccepts' houtside =>
    by_cases hmoves : plan.scope = (t.handle h).parent
    · exact hstays (hmoves.trans (Handle.parent_of_row hrow))
    · have hk : (t.handle h).kind = k := by
        have heq := Kind.ofTag?_eq_some_iff.2 (horder.tag r hrow)
        exact Option.some.inj (heq.symm.trans hkind)
      have haccepts' := haccepts' hmoves
      rw [hk] at haccepts'
      have hid : (t.handle h).id? = some r.id := congrArg Key.id? (horder.key r hrow)
      obtain ⟨rs, hclimbs, hout⟩ := houtside hmoves r.id hid
      refine hf.put hrules hmem hrow? htag ⟨k, hkind', .inl haccepts'⟩ ?_
      refine (hf.rooted_of_admits (.inl haccepts')).of_climbs hclimbs hout ?_
      intro id hne
      rw [hrow?]
      exact if_neg hne

end Forest

/-- Steps that take no row out keep the forest. Two steps write, and they are the two lemmas before
this one. The others leave the rows as they are. -/
theorem Step.forest (h : Step may t t') (hremove : ¬ may .remove) (hintrude : ¬ may .intrude)
    (hs : t.Sound) (he : t.Exact)
    (hlt : may .write → t'.drawn < UInt64.size - 1) (hf : t.Forest) : t'.Forest := by
  have hrules := h.sameFrame.rules
  cases h with
  | aside h => exact hf.of_rows_eq hrules h.rows_eq
  | plan | adopt | refresh | vanish | relocate => exact hf.of_rows_eq rfl rfl
  | draw => exact hf.of_rows_eq rfl hs.rows_draw
  | @insert hmay k row b htag hstores hparent | @create hmay k row b s htag hstores hparent =>
    have hrows := rows_withFresh t row b
    have hb : (t.withFresh row b).drawn < UInt64.size - 1 := hlt hmay
    rw [drawn_withFresh] at hb
    exact hf.stores hs he hstores hb hrules hrows htag (.inl hparent)
  | @promote hmay h row b hlive hrow htag haddress hstores hparent =>
    refine hf.stores hs he hstores (hlt hmay) hrules rfl htag ?_
    by_cases hglobal : row.parent = .global
    · exact .inr ⟨((hs.inOrder h).derived hlive hrow).2, hglobal⟩
    · exact .inl (hparent hglobal)
  | edit h hrow hedits hputs => exact hf.edits hs he hrow hedits hputs hrules rfl
  | mark hmay | takeOut hmay => exact absurd hmay hremove
  | intrudePut hmay | intrudeTake hmay => exact absurd hmay hintrude

/-- A forest stays one along any steps that take no row out, as long as ids remain. The induction
needs that the table is exact, so derived symbols may not be moved. -/
theorem Path.forest (h : Path may t t') (hremove : ¬ may .remove) (hrelocate : ¬ may .relocate)
    (hintrude : ¬ may .intrude) (hs : t.Sound) (he : t.Exact)
    (hlt : may .write → t'.drawn < UInt64.size - 1) (hf : t.Forest) : t'.Forest := by
  induction h with
  | refl => exact hf
  | @tail t₁ t₂ hpath hstep ih =>
    have hs₁ := Path.sound hpath hs
    have hlt₁ : may .write → t₁.drawn < UInt64.size - 1 := fun hmay =>
      Nat.lt_of_le_of_lt (hstep.drawn_le hs₁) (hlt hmay)
    exact hstep.forest hremove hintrude hs₁ (Path.exact hpath hrelocate hintrude hs hlt₁ he) hlt (ih hlt₁)

end SymbolTable.Table
