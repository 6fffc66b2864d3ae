import SymbolTable.Proofs.Action.Refusal

/-!
# Torn writes

Whatever a symbol is not created or named for, at most an id was drawn for it in vain, unless the
write was torn: a row that borrows its name is shown under the name of another row, for which the
store is asked after the one write, when everybody who sees another name now is to be told
(`Runs.refused_writes_are_torn`). If the store does not answer then, the row stays, and nobody is
told (`Runs.writes_tear`).
-/

namespace SymbolTable

open SymbolTable.Action

variable {σ : Type} {t : Table} {notify : Listener σ}

namespace Table

/-- One row was written, and then the store did not say which row is under an id, when some row
borrows its name. -/
structure Torn (t : Table) (fault : Fault) (t' : Table) : Prop where
  wrote : ∃ r, t.WritesOne r t'
  fails : t'.FailsToGet fault
  borrows : ∃ r, (r ∈ t.rows ∨ r ∈ t'.rows) ∧ (t'.rules.lender? r).isSome

/-- What is untouched is unwritten. -/
theorem Untouched.unwritten {t' : Table} (h : t.Untouched t') : t.Unwritten t' :=
  ⟨h.toUnnoted, h.rows_eq, h.writes_eq⟩

/-- An action that was refused has written nothing, or what it wrote is torn. The cases are those of
a rejection. -/
theorem Rejected.unwritten_or_torn {fault : Fault} {t' : Table} (h : t.Rejected fault t') :
    t.Unwritten t' ∨ t.Torn fault t' := by
  cases h with
  | untouched huntouched => exact .inl huntouched.unwritten
  | unwritten _ hunwritten => exact .inl hunwritten
  | torn hwrites hfails hborrows => exact .inr ⟨⟨_, hwrites⟩, hfails, hborrows⟩

end Table

/-- **Refused writes change nothing unless they are torn.** Whatever was done to a table since it
was opened empty, by moves, behind its back and by listeners, and whichever calls of the store fail:
if a symbol is not created, renamed or moved into another scope, then the rows, their modification
count, the designations, the references, the journal and the log are as before, unless the row was
written and the store did not say then from which row a name is borrowed. -/
theorem Runs.refused_writes_are_torn {rules : Rules} {s₀ s : Situated σ} (hnew : s₀.table.IsNew rules)
    (hrun : Runs Move.any false s₀ s) (hlt : s.table.writes < UInt64.size)
    (hn : notify.Records) {m : Move} (hm : m.Names) {fault : Fault}
    (hfault : ((m.action notify).run s).1 = .error fault) :
    s.table.Unwritten ((m.action notify).run s).2.table ∨
      s.table.Torn fault ((m.action notify).run s).2.table :=
  (Move.rejects hn (Runs.reliable hnew hrun hlt) hm s rfl fault hfault).unwritten_or_torn

/-- A function is stored. The rows can be read then, but no more can be written, so it gets no other
name. Nothing was written when it is refused, and the rows, the designations, the journal and the
log are as they were. -/
theorem Runs.refused_writes_are_torn_of_rename :
    let s₀ : Situated Unit := ⟨.empty default .standard, (), 0⟩
    let function : Move := .create ⟨"f", .function, .ram 16, .global, .userDefined, 0, 0, none⟩
    let s₁ := ((function.action Listener.recorder).run s₀).2
    let full : StoreFault := .io "the disk is full"
    let s := s₁.withOutages (.ofRules [⟨.put, none, full⟩])
    let named := ((Move.edit 0 (.setName "g" .userDefined)).action Listener.recorder).run s
    s₀.table.IsNew .standard ∧ Runs Move.any false s₀ s ∧ s.table.writes < UInt64.size ∧
      named.1 = .error (.store full) ∧
      (s.table.Unwritten named.2.table ∨ s.table.Torn (.store full) named.2.table) := by
  intro s₀ function s₁ full s named
  have hnew : s₀.table.IsNew .standard := .memory _ _ _
  have hrun₁ : Runs Move.any false s₀ s₁ := .move (m := function) .refl trivial fun e x =>
    .drift .refl (Listener.records_recorder.beside e x).drifts
  have hrun : Runs Move.any false s₀ s := hrun₁.withOutages _
  have hlt : s.table.writes < UInt64.size := by decide
  have hfault : named.1 = .error (.store full) := by decide
  have hnames : (Move.edit 0 (.setName "g" .userDefined)).Names := trivial
  exact ⟨hnew, hrun, hlt, hfault, Runs.refused_writes_are_torn hnew hrun hlt Listener.records_recorder
    hnames hfault⟩

/-- A function that borrows the name of another one is stored when the row of the other one cannot
be read. That is refused, but the row stays, and nobody is told of it. -/
theorem Runs.writes_tear :
    let s₀ : Situated Unit := ⟨.empty default .standard, (), 0⟩
    let function : Move := .create ⟨"f", .function, .ram 16, .global, .userDefined, 0, 0, none⟩
    let s₁ := ((function.action Listener.recorder).run s₀).2
    let down : StoreFault := .transaction "disk unavailable"
    let s := s₁.withOutages (.ofRules [⟨.get, some 1, down⟩])
    let thunk : Move := .create ⟨"", .function, .ram 32, .global, .default, 1, 0, none⟩
    let stored := (thunk.action Listener.recorder).run s
    s₀.table.IsNew .standard ∧ Runs (fun nested _ m => nested = false ∧ m.goesThrough) false s₀ s ∧
      thunk.Names ∧ stored.1 = .error (.store down) ∧
      s.table.rows.map (·.id.val) = [1] ∧ stored.2.table.rows.map (·.id.val) = [1, 2] ∧
      s.table.writes = 1 ∧ stored.2.table.writes = 2 ∧
      s.table.facts.primaryAt (.ram 32) = none ∧
      (stored.2.table.facts.primaryAt (.ram 32)).map (·.val) = some 2 ∧
      stored.2.table.log = s.table.log := by
  intro s₀ function s₁ down s thunk stored
  have hrun₁ : Runs (fun nested _ m => nested = false ∧ m.goesThrough) false s₀ s₁ :=
    .move (m := function) .refl ⟨rfl, trivial⟩ fun e x =>
      .drift .refl (Listener.records_recorder.beside e x).drifts
  exact ⟨.memory _ _ _, hrun₁.withOutages _, trivial, by decide, by decide, by decide, by decide,
    by decide, by decide, by decide, by decide⟩

end SymbolTable
