import SymbolTable.Proofs.Action.Calls
import SymbolTable.Proofs.Table.Step

/-!
# What checks of names and scopes establish

Names, scopes and their checks only read. This module says what is known once a check has passed:
the name is free (`tells_checkDuplicate`), the parent accepts the symbol (`tells_checkParent`), or
the new scope does not lie in the symbol itself (`tells_encloses`).
-/

namespace SymbolTable.Action

variable {σ : Type} {t : Table}

/-! ## Reading -/

/-- To ask the store for a row only reads, and all that follows in this module is made of such
questions. -/
theorem reads_getRow (id : SymbolId) : Reads (getRow id : Action σ _) := .askStore _

/-- To ask the store for the rows at an address only reads. -/
theorem reads_rowsAt (a : Address) : Reads (rowsAt a : Action σ _) := .askStore _

/-- The name that a row shows is found by reading, however many lenders it goes through. The
induction is on the depth that is left. -/
theorem reads_shownName (depth : Nat) (visited : List SymbolId) (r : Row) :
    Reads (shownName depth visited r : Action σ _) := by
  induction depth generalizing visited r with
  | zero => exact .look _
  | succ depth ih =>
    unfold shownName
    split
    · exact .pure _
    · refine .bind (.look _) fun lender? => ?_
      split
      · exact .look _
      · split
        · exact .look _
        · refine .bind (reads_getRow _) fun row? => ?_
          split
          · exact .look _
          · exact ih _ _

/-- The name that is displayed starts with all the depth there is, and only reads. -/
theorem reads_displayName (r : Row) : Reads (displayName r : Action σ _) :=
  .bind (.look _) fun _ => reads_shownName _ _ _

/-- To ask for the name of the symbol of a handle only reads, whether it is stored or derived. -/
theorem reads_nameOf (h : HandleId) : Reads (nameOf h : Action σ _) := by
  refine .bind (.look _) fun s => ?_
  split
  · exact reads_displayName _
  · exact .look _

/-- A walk up the parents only reads. The induction is on the depth that is left, as in
`reads_shownName`. At each step the store is asked for one row, unless the walk ends or was there
before. -/
theorem reads_climb (start : Scope) (depth : Nat) (visited : List SymbolId) (scope : Scope) :
    Reads (climb start depth visited scope : Action σ _) := by
  induction depth generalizing visited scope with
  | zero =>
    cases scope with
    | global => exact .pure _
    | of id => exact .fail _
  | succ depth ih =>
    cases scope with
    | global => exact .pure _
    | of id =>
      unfold climb
      split
      · exact .fail _
      · refine .bind (reads_getRow _) fun row? => ?_
        split
        · exact .pure _
        · exact .bind (ih _ _) fun _ => .pure _

/-- To list the scopes around a scope only reads. -/
theorem reads_ancestors (scope : Scope) : Reads (ancestors scope : Action σ _) :=
  .bind (.look _) fun _ => reads_climb _ _ _ _

/-- To ask for the names of the scopes around a scope only reads. -/
theorem reads_scopePath (scope : Scope) : Reads (scopePath scope : Action σ _) :=
  .bind (reads_ancestors _) fun _ => .mapM reads_displayName _

/-- To write these names out only reads. -/
theorem reads_scopeText (scope : Scope) : Reads (scopeText scope : Action σ _) := by
  cases scope with
  | global => exact .pure _
  | of id =>
    refine .bind (.attempt (reads_scopePath _)) fun path => ?_
    split <;> exact .pure _

/-- To ask whether a scope lies in a symbol only reads, so a reparenting that is refused for this
leaves the table alone. -/
theorem reads_encloses (h : HandleId) (scope : Scope) : Reads (encloses h scope : Action σ _) := by
  refine .bind (.look _) fun id? => ?_
  split
  · exact .pure _
  · refine .bind (.attempt (reads_ancestors _)) fun answer => ?_
    split
    · exact .pure _
    · exact .pure _
    · exact .fail _

/-- To check the parent of a symbol only reads. It asks for the row of the parent, and the answer
alone decides. -/
theorem reads_checkParent (k : Kind) (scope : Scope) :
    Reads (checkParent k scope : Action σ _) := by
  cases scope with
  | global =>
    refine .bind (.look _) fun accepted => ?_
    split
    · exact .fail _
    · exact .pure _
  | of id =>
    refine .bind (reads_getRow _) fun row? => ?_
    split
    · exact .fail _
    · split
      · exact .fail _
      · refine .bind (.look _) fun accepted => ?_
        split
        · exact .fail _
        · exact .pure _

/-- To ask whether a parent would be accepted only reads. A parent that is not accepted is an answer
here, while a refusal by the store is passed on. -/
theorem reads_acceptsParent (k : Kind) (scope : Scope) :
    Reads (acceptsParent k scope : Action σ _) := by
  refine .bind (.attempt (reads_checkParent _ _)) fun answer => ?_
  split
  · exact .pure _
  · exact .pure _
  · exact .fail _

/-- To check a name for duplicates only reads, whichever symbol is left out of the comparison. It
asks for the rows at the address, and for the text of the scope only to refuse with it. -/
theorem reads_checkDuplicate (a : Address) (name : String) (scope : Scope) (k : Kind)
    (except? : Option SymbolId) :
    Reads (checkDuplicate a name scope k except? : Action σ _) := by
  refine .bind (reads_rowsAt _) fun rows => ?_
  split
  · exact .bind (reads_scopeText _) fun text => .fail _
  · exact .pure _

/-! ## What checks establish -/

section
variable (h : t.Sound)

include h

/-- The row that is answered is that of the table. In a sound table the store keeps its rows in
order, so this holds whichever store it is. -/
theorem tells_getRow (id : SymbolId) :
    Tells t (getRow id : Action σ _) fun row? => row? = t.row? id :=
  .getRow h.backend ⟨rfl, fun _ hx => (Except.ok.inj hx).symm⟩ fun _ _ => ⟨rfl, nofun⟩

/-- The rows that are answered are those of the table that lie at the address. -/
theorem tells_rowsAt (a : Address) :
    Tells t (rowsAt a : Action σ _) fun rows => rows = t.rows.filter (·.address = a) :=
  .rowsAt h.backend ⟨rfl, fun _ hx => (Except.ok.inj hx).symm⟩ fun _ _ => ⟨rfl, nofun⟩

/-- The rows that are answered are those of the table that lie in the scope. -/
theorem tells_rowsIn (scope : Scope) :
    Tells t (rowsIn scope : Action σ _) fun rows => rows = t.rows.filter (·.parent = scope) :=
  .rowsIn h.backend ⟨rfl, fun _ hx => (Except.ok.inj hx).symm⟩ fun _ _ => ⟨rfl, nofun⟩

/-- The parent of a symbol that passes the check accepts it. That is, the parent is there and is of
a kind that may have such members. The check and `Accepts` differ in that the one refuses and the
other does not hold. -/
theorem tells_checkParent (k : Kind) (scope : Scope) :
    Tells t (checkParent k scope : Action σ _) fun _ => t.Accepts k scope := by
  cases scope with
  | global =>
    refine .look_bind ?_
    split
    · exact .fail
    · rename_i haccepted
      exact .pure (Bool.of_not_eq_false fun hfalse => haccepted (by rw [hfalse]; rfl))
  | of id =>
    refine (tells_getRow h id).bind fun row? hrow => ?_
    split
    · exact .fail
    · rename_i r
      split
      · exact .fail
      · rename_i parent hparent
        obtain ⟨hkind, hscope⟩ := Option.filter_eq_some_iff.1 hparent
        refine .look_bind ?_
        split
        · exact .fail
        · rename_i haccepted
          refine .pure ⟨r, parent, hrow.symm, hkind, hscope, ?_⟩
          exact Bool.of_not_eq_false fun hfalse => haccepted (by rw [hfalse]; rfl)

/-- A name that passes the check is free. No row at the address has this name, this scope and this
kind, the symbol itself left out. Rows elsewhere are no duplicates. -/
theorem tells_checkDuplicate (a : Address) (name : String) (scope : Scope) (k : Kind)
    (except? : Option SymbolId) :
    Tells t (checkDuplicate a name scope k except? : Action σ _) fun _ =>
      t.NameFree a name scope k.tag except? := by
  refine (tells_rowsAt h a).bind fun rows hrows => ?_
  split
  · exact (reads_scopeText scope).tells.bind fun _ _ => .fail
  · rename_i hnone
    refine .pure fun x hx haddress hparent htag hprovenance hname => ?_
    by_contra hne
    refine hnone (List.any_eq_true.2 ⟨x, ?_, ?_⟩)
    · rw [hrows]
      exact List.mem_filter.2 ⟨hx, decide_eq_true haddress⟩
    · simp [Table.clashes, hparent, htag, hprovenance, hname, hne]

/-- A walk up the parents that comes to an end has passed all rows on the way. That there is an
answer says that no row was passed twice and that the depth sufficed. The induction is on the depth,
for all rows that were visited before. -/
theorem tells_climb (start : Scope) (depth : Nat) (visited : List SymbolId) (scope : Scope) :
    Tells t (climb start depth visited scope : Action σ _) (t.Climbs scope) := by
  induction depth generalizing visited scope with
  | zero =>
    cases scope with
    | global => exact .pure .global
    | of id => exact .fail
  | succ depth ih =>
    cases scope with
    | global => exact .pure .global
    | of id =>
      unfold climb
      split
      · exact .fail
      · refine (tells_getRow h id).bind fun row? hrow => ?_
        split
        · exact .pure (.lost hrow.symm)
        · exact (ih _ _).bind fun rest hrest => .pure (.step hrow.symm hrest)

/-- A scope that is found not to lie in a symbol does not: the way up from it does not pass there.
The walk has an answer in this case, and otherwise it would be taken for lying in the symbol, to be
on the safe side. -/
theorem tells_encloses (k : HandleId) (scope : Scope) :
    Tells t (encloses k scope : Action σ _) fun inside => inside = false →
      ∀ id, (t.handle k).id? = some id → ∃ rs, t.Climbs scope rs ∧ ∀ x ∈ rs, x.id ≠ id := by
  refine .look_bind ?_
  split
  · rename_i hnone
    refine .pure ?_
    intro _ id hid
    rw [hnone] at hid
    cases hid
  · rename_i id hid
    have hancestors : Tells t (ancestors scope : Action σ _) (t.Climbs scope) :=
      .look_bind (tells_climb h _ _ _ _)
    refine hancestors.attempt_bind fun answer hanswer => ?_
    split
    · rename_i rows
      refine .pure fun hany id' hid' => ⟨rows, hanswer rows rfl, fun x hx hxid => ?_⟩
      cases hid.symm.trans hid'
      have htrue : rows.any (·.id = id) = true :=
        List.any_eq_true.2 ⟨x, hx, decide_eq_true hxid⟩
      cases htrue.symm.trans hany
    · exact .pure nofun
    · exact .fail

end

end SymbolTable.Action
