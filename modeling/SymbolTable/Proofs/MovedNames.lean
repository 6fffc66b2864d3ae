import SymbolTable.Proofs.Action.Deletion
import SymbolTable.Proofs.Coherence
import SymbolTable.Proofs.UniqueNames

/-!
# Names of symbols that move

A symbol takes its name along when it gets another address, and nobody asks whether the name is
taken there. So a move keeps names unique exactly if there is no namesake at the destination
(`Runs.names_unique_iff_of_move`). Where there is one, the move succeeds all the same
(`Runs.names_not_unique_of_move`), though the two symbols could not have been created like that.
-/

namespace SymbolTable

open SymbolTable.Action

variable {σ : Type} {t t' : Table} {notify : Listener σ} {h : HandleId}

namespace Table

instance (x y : Row) : Decidable (Namesakes x y) :=
  decidable_of_iff (x.provenance ≠ .default ∧ y.provenance ≠ .default ∧ x.address = y.address ∧
      x.parent = y.parent ∧ x.tag = y.tag ∧ x.name = y.name)
    ⟨fun ⟨hx, hy, ha, hp, ht, hn⟩ => ⟨hx, hy, ha, hp, ht, hn⟩,
      fun h => ⟨h.left, h.right, h.address, h.parent, h.tag, h.name⟩⟩

instance (t : Table) : Decidable t.NamesUnique :=
  inferInstanceAs (Decidable (∀ x ∈ t.rows, ∀ y ∈ t.rows, Namesakes x y → x = y))

/-! ## The rows after a move -/

/-- One row has got another address, and the others are as they were. -/
def Moves (t : Table) (r : Row) (a : Address) (t' : Table) : Prop :=
  ∀ x, x ∈ t'.rows ↔ x = { r with address := a } ∨ x ∈ t.rows ∧ x.id ≠ r.id

namespace Moves

variable {r : Row} {a : Address}

/-- A row that is there already does not move. A move to the address where the symbol lies already
is one of this kind, in which nothing is written. -/
theorem refl (hs : t.Sound) (hr : r ∈ t.rows) (ha : r.address = a) : t.Moves r a t := by
  subst ha
  intro x
  constructor
  · intro hx
    by_cases hid : x.id = r.id
    · exact .inl (hs.backend.ascending_rows.eq_of_id_eq hx hr hid)
    · exact .inr ⟨hx, hid⟩
  · rintro (rfl | ⟨hx, -⟩)
    · exact hr
    · exact hx

/-- A row that is put at another address has moved, and the other rows have not. The other rows are
those with other ids. -/
theorem of_puts {b : Store.Backend} (hputs : t.store.backend.Puts { r with address := a } b)
    (hrows : t'.rows = b.rows) : t.Moves r a t' := by
  intro x
  rw [hrows]
  exact hputs.mem_rows x

/-- Whether a row has moved depends on the rows alone, before and after. So upkeep before and after
may be left out of account. -/
theorem congr {t₁ t₁' : Table} (h : t.Moves r a t') (hrows : t₁.rows = t.rows)
    (hrows' : t₁'.rows = t'.rows) : t₁.Moves r a t₁' := by
  intro x
  rw [hrows, hrows']
  exact h x

/-- A row may move to where it has no namesake but itself, and nowhere else. If there were a
namesake at the target, there would be two of them after the move. -/
theorem namesUnique_iff (h : t.Moves r a t') (hu : t.NamesUnique) :
    t'.NamesUnique ↔ ∀ x ∈ t.rows, Namesakes x { r with address := a } → x.id = r.id := by
  constructor
  · intro hu' x hx hsame
    by_contra hne
    have heq := hu' x ((h x).2 (.inr ⟨hx, hne⟩)) _ ((h _).2 (.inl rfl)) hsame
    exact hne (by rw [heq])
  · exact fun hfree => hu.of_mem_rows (r := { r with address := a }) h hfree

end Moves

end Table

/-! ## Moving a stored symbol -/

namespace Action

variable {id : SymbolId}

/-- An edit that gives a symbol another address and is not refused moves its row. -/
def MovesRow (t : Table) (id : SymbolId) (e : Edit) {α : Type} (answer : Except Fault α) (t' : Table) :
    Prop :=
  ∀ x, answer = .ok x → ∃ r a, t.row? id = some r ∧ e.destination? r.address = some a ∧ t.Moves r a t'

section
variable (hs : t.Sound) (hlt : t.writes < UInt64.size) (hc : t.Coherent)
  (hkey : (t.handle h).key = .stored id)

include hs hlt hc hkey

/-- What an edit does to the row of a handle that was refreshed, it does to the row that is stored.
The table before the refresh has the same rows, so the move may be said to begin there. -/
theorem ends_current_moves {e : Edit} {a : Action σ Unit}
    (ha : ∀ t₁ r, t.Refreshed h (.ok ()) t₁ → t₁.Sound → r ∈ t₁.rows → (t₁.handle h).row = some r →
      Ends t₁ a fun answer t₂ => ∀ x, answer = .ok x →
        ∃ b, e.destination? r.address = some b ∧ t₁.Moves r b t₂) :
    Ends t (current h a) (MovesRow t id e) := by
  refine .current hs h (fun _ => nofun) (fun _ _ _ => nofun) fun t₁ hr => ?_
  obtain ⟨r, hget, -, hrow, -⟩ := hr.row_eq hs hlt hc hkey
  have hrows : t₁.rows = t.rows := hr.path.rows_eq_of_upkeep
  have hmem : r ∈ t₁.rows := by
    rw [hrows]
    exact Table.mem_of_row? hget
  refine (ha t₁ r hr (hr.path.sound hs) hmem hrow).imp fun answer t₂ hmoves x hx => ?_
  obtain ⟨b, hb, hmoves⟩ := hmoves x hx
  exact ⟨r, b, hget, hb, hmoves.congr hrows.symm rfl⟩

/-- To set the address of a symbol moves its row alone, or is refused. If the symbol lies there
already, its row has not moved, which counts as a move to the same address. -/
theorem ends_setAddress_moves (hq : Quiet notify) (a : Address) :
    Ends t (setAddress notify h a) (MovesRow t id (.setAddress a)) := by
  refine ends_current_moves hs hlt hc hkey fun t₁ r _ ht₁ hmem hrow => .look_bind (.look_bind ?_)
  split
  · exact .fail nofun
  · split
    · rename_i haddress
      rw [(ht₁.inOrder h).address r hrow] at haddress
      exact .pure fun _ _ => ⟨a, rfl, .refl ht₁ hmem haddress⟩
    · refine .seq (ends_write ht₁ h (fun r' b hrow' hputs => .ok ?_) fun _ => nofun)
      cases hrow.symm.trans hrow'
      refine .emit fun s hs _ _ => ⟨a, rfl, .of_puts hputs ?_⟩
      have hdrifts := hq ⟨(t₁.handle h).key, a, .addressChanged (t₁.handle h).address a⟩ s
      rw [hs] at hdrifts
      exact congrArg Store.Backend.rows hdrifts.backend

/-- A relocation moves the row of the symbol alone, or is refused. The address to which it moves is
where its own comes to lie with the block. The listener is not told, so it need not be quiet. -/
theorem ends_relocate_moves (oldBase newBase : Address) :
    Ends t (relocate h oldBase newBase : Action σ _) (MovesRow t id (.relocate oldBase newBase)) := by
  refine ends_current_moves hs hlt hc hkey fun t₁ r hr ht₁ hmem hrow => .look_bind ?_
  have haddress := (ht₁.inOrder h).address r hrow
  dsimp only
  rw [haddress]
  split
  · rename_i hstays
    exact .pure fun _ _ => ⟨_, rfl, .refl ht₁ hmem hstays.symm⟩
  · rw [Handle.isDerived_of_row hrow, if_neg Bool.false_ne_true]
    refine .seq (ends_write ht₁ h (fun r' b hrow' hputs => .ok ?_) fun _ _ hok => by cases hok)
    cases hrow.symm.trans hrow'
    have hid := Handle.id?_eq_some_iff.2 ((ht₁.inOrder h).key r hrow)
    rw [hid]
    refine .change_bind (.change fun _ _ => ⟨_, rfl, .of_puts hputs ?_⟩)
    exact (Table.beside_movePrimary _ _ _ _).rows_eq

/-- Every move of a stored symbol moves its row. There are two such edits, and each has its lemma.
Derived symbols have no row and are not spoken of. -/
theorem ends_perform_moves (hq : Quiet notify) {e : Edit} (he : e.deed? = some .readdress) :
    Ends t (perform notify h e) (MovesRow t id e) := by
  have hmap {a : Action σ Unit} (ha : Ends t a (MovesRow t id e)) :
      Ends t ((fun _ => Reply.done) <$> a : Action σ (Reply HandleId)) (MovesRow t id e) := by
    refine .map ha (fun x t' hmoves => ?_) fun fault t' _ => ?_
    · exact fun _ _ => hmoves x rfl
    · intro _ hok
      cases hok
  cases e with
  | setAddress a => exact hmap (ends_setAddress_moves hs hlt hc hkey hq a)
  | relocate oldBase newBase => exact hmap (ends_relocate_moves hs hlt hc hkey oldBase newBase)
  | _ => cases he

end

end Action

/-! ## Moves in runs -/

variable {s : Situated σ} {id : SymbolId}

/-- **A move keeps names unique if its destination is free of namesakes.** Whatever was done to a
table since it was opened: when a stored symbol is moved, its row gets the new address, and if names
were unique before, they still are if and only if no row there has the name, kind and scope of the
one that moved. The listener of the move does not act on the table, and there were fewer than 2^64
writes. -/
theorem Runs.names_unique_iff_of_move {rules : Rules} {s₀ : Situated σ} (hnew : s₀.table.IsNew rules)
    (hrun : Runs Move.any false s₀ s) (hlt : s.table.writes < UInt64.size) (hu : s.table.NamesUnique)
    (hkey : (s.table.handle h).key = .stored id) {e : Edit} (he : e.deed? = some .readdress)
    (hq : Quiet notify) (hok : ((perform notify h e).run s).1.isOk) :
    ∃ r a, s.table.row? id = some r ∧ e.destination? r.address = some a ∧
      (((perform notify h e).run s).2.table.NamesUnique ↔
        ∀ x ∈ s.table.rows, Table.Namesakes x { r with address := a } → x.id = id) := by
  have hpath := hrun.path trivial Move.permitted_any hnew.sound
  have hcoherent : s₀.table.Coherent := by
    intro k
    rw [hnew.handle_eq]
    exact .of_row_eq_none rfl
  have hends := ends_perform_moves (hpath.sound hnew.sound) hlt
    (hpath.coherent hnew.sound hlt hcoherent) hkey hq he s rfl
  cases hanswer : ((perform notify h e).run s).1 with
  | error fault =>
    rw [hanswer] at hok
    cases hok
  | ok reply =>
    obtain ⟨r, a, hget, ha, hmoves⟩ := hends reply hanswer
    obtain rfl := Table.id_of_row? hget
    exact ⟨r, a, hget, ha, hmoves.namesUnique_iff hu⟩

/-- A variable moves to an address where there is another one, of another name. Names are unique at
the new address after the move, as they are told apart there. -/
theorem Runs.names_unique_iff_of_move_of_variables :
    let id : SymbolId := ⟨1, by decide⟩
    let s₀ : Situated Unit := ⟨.empty default .standard, (), 0⟩
    let new (name : String) (offset : UInt64) : Move :=
      .create ⟨name, .globalVariable, .ram offset, .global, .userDefined, 0, 0, none⟩
    let go (s : Situated Unit) (m : Move) := ((m.action Listener.idle).run s).2
    let s := [new "x" 16, new "y" 32].foldl go s₀
    let e : Edit := .setAddress (.ram 32)
    let answer := (perform Listener.idle 0 e).run s
    s₀.table.IsNew .standard ∧ Runs Move.any false s₀ s ∧ s.table.writes < UInt64.size ∧
      s.table.NamesUnique ∧ (s.table.handle 0).key = .stored id ∧ e.deed? = some .readdress ∧
      Quiet (Listener.idle : Listener Unit) ∧ answer.1.isOk ∧
      ∃ r a, s.table.row? id = some r ∧ e.destination? r.address = some a ∧
        (answer.2.table.NamesUnique ↔
          ∀ x ∈ s.table.rows, Table.Namesakes x { r with address := a } → x.id = id) := by
  intro id s₀ new go s e answer
  have hnew : s₀.table.IsNew .standard := .memory _ _ _
  have hrun : Runs Move.any false s₀ s := .move (.move .refl trivial .idle) trivial .idle
  have hlt : s.table.writes < UInt64.size := by decide
  have hu : s.table.NamesUnique := by decide
  have hkey : (s.table.handle 0).key = .stored id := by decide
  have hq : Quiet (Listener.idle : Listener Unit) := fun _ s => .refl s.table
  have hok : answer.1.isOk := by decide
  exact ⟨hnew, hrun, hlt, hu, hkey, rfl, hq, hok,
    Runs.names_unique_iff_of_move hnew hrun hlt hu hkey rfl hq hok⟩

/-- Two variables of one name lie at different addresses, and one moves to where the other is. The
move is not refused, though a variable of that name could not have been created there. -/
theorem Runs.names_not_unique_of_move :
    let s₀ : Situated Unit := ⟨.empty default .standard, (), 0⟩
    let new (offset : UInt64) : Move :=
      .create ⟨"x", .globalVariable, .ram offset, .global, .userDefined, 0, 0, none⟩
    let go (s : Situated Unit) (m : Move) := ((m.action Listener.idle).run s).2
    let s := [new 16, new 32].foldl go s₀
    let moved := (perform Listener.idle 0 (.setAddress (.ram 32))).run s
    let created := ((new 32).action Listener.idle).run s
    s₀.table.IsNew .standard ∧ Runs Move.any false s₀ s ∧ s.table.NamesUnique ∧
      moved.1.isOk ∧ ¬ moved.2.table.NamesUnique ∧ ¬ created.1.isOk := by
  intro s₀ new go s moved created
  have hrun : Runs Move.any false s₀ s := .move (.move .refl trivial .idle) trivial .idle
  exact ⟨.memory _ _ _, hrun, by decide, by decide, by decide, by decide⟩

end SymbolTable
