import SymbolTable.Proofs.Everywhere

/-!
# Every row is as the rules want it

The name of a row, its provenance and its pin are written by several operations, and three of them
share one byte of flags. A symbol goes without a name exactly if its provenance says so, whatever
was done (`Runs.rows_are_proper`): a new row is checked as a whole before it is stored, a rename
writes the name and the provenance that were checked together, and the other edits change neither or
one provenance of a chosen name into another one (`Table.Retains.proper`). Where the row lies makes
no difference, so moves keep it too.
-/

namespace SymbolTable

open SymbolTable.Action

variable {σ : Type} {t : Table}

/-- Every row is proper when it is stored, and no edit changes that. There is one part for each way
in which a row is written. -/
theorem Table.checked_proper : Table.Checked Table.Proper where
  frame hframe hproper := hproper.congr hframe
  edit hretains := hretains.proper
  create hproper _ := hproper
  promote hproper _ := hproper

/-- The course on which rows are proper. -/
def Course.proper : Course :=
  .everywhere Table.Proper Table.checked_proper

/-- What goes through the table keeps rows proper. Rows are checked before they are written, and a
new address is no part of being proper. -/
theorem Move.permitted_proper {m : Move} (hm : m.goesThrough) : m.Permitted Course.proper.Allows t := by
  have hreaddress : Course.proper.Allows .readdress :=
    Course.everywhere_allows_readdress fun a hproper => hproper.readdressed a
  exact .of_goesThrough hm Course.everywhere_writes (fun _ _ => Course.everywhere_removes)
    (fun _ _ _ _ => hreaddress) fun _ _ _ _ _ => Course.everywhere_allows_relocate

/-- Rows and their copies are proper, whatever was done through a table since it was opened
empty. -/
theorem Runs.everywhere_proper {rules : Rules} {s₀ s : Situated σ} (hnew : s₀.table.IsNew rules)
    (hrun : Runs (fun _ _ m => m.goesThrough) false s₀ s) : s.table.Everywhere s.table.Proper :=
  hrun.everywhere Table.checked_proper hnew
    fun _ _ _ _ hm hn ht => Move.ends_rel hn Course.everywhere_designates ht (Move.permitted_proper hm)

/-- They are so after a refresh, too. -/
theorem Table.Refreshed.everywhere_proper {t' : Table} {h : HandleId} {answer : Except Fault Unit}
    (hr : t.Refreshed h answer t') (hs : t.Sound) (he : t.Everywhere t.Proper) : t'.Everywhere t'.Proper := by
  have hrel : Course.proper.rel t t' := hr.rel hs
  exact Course.rel.everywhere hrel hs he

/-- **Every row is as the rules want it.** Whatever was done through a table since it was opened
empty, by moves and by their listeners, and whichever calls of the store failed: each row is of a
kind. It has no name if and only if its provenance is the default one, and else its name passes the
check, so that there is no blank and no control character in it and it does not look derived. It
goes without a name and it is pinned only if its kind may, and the bits of its flags that stand for
nothing are clear. -/
theorem Runs.rows_are_proper {rules : Rules} {s₀ s : Situated σ} (hnew : s₀.table.IsNew rules)
    (hrun : Runs (fun _ _ m => m.goesThrough) false s₀ s) :
    ∀ r ∈ s.table.rows, ∃ k, r.kind? = some k ∧
      (r.name = "" ↔ r.provenance = .default) ∧
      (r.name ≠ "" → Name.check r.name s₀.table.settings.maxNameLength = .ok () ∧
        (∀ c ∈ r.name.toList, Text.isBlank c = false ∧ Text.isControl c = false) ∧
        Name.isDerivedForm r.name = false) ∧
      (r.provenance = .default → (rules.capabilities k).unnamed = true) ∧
      (r.isPinned = true → rules.pinnable k = true) ∧
      r.flags &&& Row.reservedBits = 0 := by
  have heverywhere : s.table.Everywhere s.table.Proper := hrun.everywhere Table.checked_proper hnew
    fun _ _ _ _ hm hn ht => Move.ends_rel hn Course.everywhere_designates ht (Move.permitted_proper hm)
  have hframe : s₀.table.SameFrame s.table := hrun.sameFrame hnew.sound
  intro r hr
  obtain ⟨k, hk, hproper⟩ := heverywhere.rows r hr
  have hnamed : r.name ≠ "" → Name.check r.name s₀.table.settings.maxNameLength = .ok () := by
    intro hne
    rw [← hframe.settings]
    exact hproper.named fun hdefault => hne (hproper.name_eq_empty_iff.2 hdefault)
  have hrules : s.table.rules = rules := hframe.rules.trans hnew.rules_eq
  refine ⟨k, hk, hproper.name_eq_empty_iff, fun hne => ?_, fun hdefault => ?_, fun hpinned => ?_,
    hproper.reserved⟩
  · obtain ⟨-, -, hclean, hform⟩ := Name.check_eq_ok_iff.1 (hnamed hne)
    exact ⟨hnamed hne, hclean, hform⟩
  · rw [← hrules]
    exact (hproper.unnamed hdefault).2
  · rw [← hrules]
    exact hproper.pinned hpinned

/-- A function without a name is pinned, named and moved, a label loses its name, and a parameter is
not pinned. -/
theorem Runs.rows_are_proper_of_renamed :
    let s₀ : Situated Unit := ⟨.empty default .standard, (), 0⟩
    let go (s : Situated Unit) (m : Move) := ((m.action Listener.idle).run s).2
    let s := [.create ⟨"", .function, .ram 16, .global, .default, 0, 0, none⟩,
      .create ⟨"x", .label, .ram 32, .global, .userDefined, 0, 0, none⟩,
      .edit 0 (.setPinned true), .edit 0 (.setName "f" .imported), .edit 1 (.setName "" .userDefined),
      .edit 0 (.relocate (.ram 16) (.ram 48)), .edit 1 (.setProvenance .analysis)].foldl go s₀
    s₀.table.IsNew .standard ∧ Runs (fun _ _ m => m.goesThrough) false s₀ s ∧
      ∀ r ∈ s.table.rows, ∃ k, r.kind? = some k ∧
        (r.name = "" ↔ r.provenance = .default) ∧
        (r.name ≠ "" → Name.check r.name s₀.table.settings.maxNameLength = .ok () ∧
          (∀ c ∈ r.name.toList, Text.isBlank c = false ∧ Text.isControl c = false) ∧
          Name.isDerivedForm r.name = false) ∧
        (r.provenance = .default → (Rules.standard.capabilities k).unnamed = true) ∧
        (r.isPinned = true → Rules.standard.pinnable k = true) ∧
        r.flags &&& Row.reservedBits = 0 := by
  intro s₀ go s
  have hnew : s₀.table.IsNew .standard := .memory _ _ _
  have hrun : Runs (fun _ _ m => m.goesThrough) false s₀ s :=
    .move (.move (.move (.move (.move (.move (.move .refl trivial .idle) trivial .idle) trivial .idle)
      trivial .idle) trivial .idle) trivial .idle) trivial .idle
  exact ⟨hnew, hrun, Runs.rows_are_proper hnew hrun⟩

end SymbolTable
