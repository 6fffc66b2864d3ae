import SymbolTable.Proofs.Action.Settling
import SymbolTable.Proofs.ProperRows

/-!
# What renames leave behind

A rename that was answered leaves the symbol so that there is nothing more to be done for it
(`Table.Suits`). So the same rename is answered again and changes nothing
(`Runs.renames_are_idempotent`), and what was asked for can be read off the symbol
(`Runs.renames_deliver`). There is one exception: a symbol that shows the name in the scope that is
asked for is taken to be as it should be, whatever its provenance is, so this is not changed
(`Runs.renames_do_not_deliver`). Where walks may pass no row, no symbol shows a name of its own, and
the same rename is carried out every time (`Runs.renames_are_not_idempotent`).
-/

namespace SymbolTable

open SymbolTable.Action
open Table (Path)

variable {σ : Type} {t : Table} {notify : Listener σ} {h : HandleId} {name : String} {scope : Scope} {p : Provenance}

/-! ## Renames again -/

/-- **Renames are idempotent.** Whatever happened to a table since it was opened empty: once a
rename was answered, the same rename is answered again, and the table stays as it is in every part,
with its rows and ids, its designations, its journal and its log. The store works, listeners leave
the table alone, no register has a name at the address of the symbol, and the settings let a walk
pass one row at least, so that names are shown. -/
theorem Runs.renames_are_idempotent {rules : Rules} {allowed : Bool → Table → Move → Prop} {s₀ s s' : Situated σ}
    (hnew : s₀.table.IsNew rules) (hrun : Runs allowed false s₀ s) (hworks : s.table.store.Works)
    (hdepth : s.table.settings.maxDepth ≠ 0) (hnear : ∀ e (x : Situated σ), x.table.Near (notify e x).table)
    (hregisters : ∀ a, ((telling h (·.address)).run s).1 = .ok a → s.table.facts.registersAt a = [])
    (hrename : (rename notify h name scope p).run s = (.ok (), s')) :
    ∃ s'', (rename notify h name scope p).run s' = (.ok (), s'') ∧ s''.table = s'.table := by
  have hrunPath := hrun.steps hnew.sound
  have hs := hrunPath.sound hnew.sound
  have hserving : s.table.Serving := ⟨hworks, hrun.opened hnew⟩
  have hends := ends_rename_suits hs hserving hdepth hnear h name scope p s rfl
  rw [hrename] at hends
  obtain ⟨hsuits, t₁, hr, hdone⟩ := hends rfl
  have hregisters₁ : t₁.facts.registersAt (t₁.handle h).address = [] := by
    rw [Course.facts_of_upkept hr.upkept]
    exact hregisters _ (answer_telling_of_refreshed hs hserving hr (·.address))
  have hregisters' : s'.table.facts.registersAt (s'.table.handle h).address = [] := by
    rcases hdone with hsame | ⟨plan, -, henacts⟩
    · rw [hsame, hregisters₁]
    · rw [henacts.registersAt, henacts.address, hregisters₁]
  have hagain : Answers s'.table (rename notify h name scope p) fun _ t' => t' = s'.table :=
    hsuits.answers_rename hregisters'
  obtain ⟨_, s'', hrun'', hsame⟩ := hagain.exists_run
  exact ⟨s'', hrun'', hsame⟩

/-- A label is derived from an address, and named in a scope. The second request finds nothing to be
done: the symbol has the name, lies in the scope and has the provenance. -/
theorem Runs.renames_are_idempotent_of_promoted :
    let s₀ : Situated Unit := ⟨.empty default .standard, (), 0⟩
    let go (s : Situated Unit) (m : Move) := ((m.action Listener.recorder).run s).2
    let s := [.create ⟨"n", .namespaceScope, .nowhere, .global, .userDefined, 0, 0, none⟩,
      .search (.derivedAt (.ram 16))].foldl go s₀
    let naming : Action Unit Unit := rename Listener.recorder 1 "f" (.of ⟨1, by decide⟩) .userDefined
    let s' := (naming.run s).2
    s₀.table.IsNew .standard ∧ Runs (fun _ _ _ => True) false s₀ s ∧ s.table.store.Works ∧
      s.table.settings.maxDepth ≠ 0 ∧ (∀ e (x : Situated Unit), x.table.Near (Listener.recorder e x).table) ∧
      (∀ a, ((telling 1 (·.address)).run s).1 = .ok a → s.table.facts.registersAt a = []) ∧
      naming.run s = (.ok (), s') ∧ (s.table.handle 1).isDerived = true ∧ (s'.table.handle 1).isDerived = false ∧
      ∃ s'', naming.run s' = (.ok (), s'') ∧ s''.table = s'.table := by
  intro s₀ go s naming s'
  have hnew : s₀.table.IsNew .standard := .memory _ _ _
  have hchronicle : Chronicle (fun _ _ _ => True) false s₀ s :=
    .move (.move .refl trivial .recorder) trivial .recorder
  have hworks : s.table.store.Works := hchronicle.works hnew.sound fun _ _ _ => rfl
  have hdepth : s.table.settings.maxDepth ≠ 0 := by decide +kernel
  have hnear : ∀ e (x : Situated Unit), x.table.Near (Listener.recorder e x).table :=
    Listener.Records.near Listener.records_recorder
  have hregisters : ∀ a, ((telling 1 (·.address)).run s).1 = .ok a → s.table.facts.registersAt a = [] := by
    intro a ha
    have haddress : ((telling 1 (·.address)).run s).1 = .ok (.ram 16) := by decide +kernel
    cases ha.symm.trans haddress
    decide +kernel
  have hok : (naming.run s).1 = .ok () := by decide +kernel
  have hrename : naming.run s = (.ok (), s') := Prod.ext hok rfl
  exact ⟨hnew, hchronicle.runs, hworks, hdepth, hnear, hregisters, hrename, by decide +kernel, by decide +kernel,
    Runs.renames_are_idempotent hnew hchronicle.runs hworks hdepth hnear hregisters hrename⟩

/-- Where no walk may pass a row, a label shows the name derived from its address, whatever its own
is. So the same rename is written, noted and told twice. -/
theorem Runs.renames_are_not_idempotent :
    let settings : Settings := { (default : Settings) with maxDepth := 0 }
    let s₀ : Situated Unit := ⟨.empty settings .standard, (), 0⟩
    let go (s : Situated Unit) (m : Move) := ((m.action Listener.recorder).run s).2
    let s := go s₀ (.create ⟨"a", .label, .ram 16, .global, .userDefined, 0, 0, none⟩)
    let naming : Action Unit Unit := rename Listener.recorder 0 "b" .global .userDefined
    let s' := (naming.run s).2
    let s'' := (naming.run s').2
    s₀.table.IsNew .standard ∧ Runs (fun _ _ m => m.goesThrough) false s₀ s ∧ s.table.store.Works ∧
      (∀ e (x : Situated Unit), x.table.Near (Listener.recorder e x).table) ∧
      s.table.facts.registersAt (.ram 16) = [] ∧
      ((isValid 0).run s).1 = .ok true ∧ (naming.run s).1 = .ok () ∧ (naming.run s').1 = .ok () ∧
      s'.table.writes = 2 ∧ s''.table.writes = 3 ∧
      s'.table.log.length = 2 ∧ s''.table.log.length = 3 ∧
      s'.table.journal.entries.length = 2 ∧ s''.table.journal.entries.length = 3 := by
  intro settings s₀ go s naming s' s''
  have hnew : s₀.table.IsNew .standard := .memory _ _ _
  have hchronicle : Chronicle (fun _ _ m => m.goesThrough) false s₀ s := .move .refl trivial .recorder
  have hworks : s.table.store.Works := hchronicle.works hnew.sound fun _ _ _ => rfl
  have hnear : ∀ e (x : Situated Unit), x.table.Near (Listener.recorder e x).table :=
    Listener.Records.near Listener.records_recorder
  exact ⟨hnew, hchronicle.runs, hworks, hnear, by decide +kernel, by decide +kernel, by decide +kernel,
    by decide +kernel, by decide +kernel, by decide +kernel, by decide +kernel, by decide +kernel, by decide +kernel,
    by decide +kernel⟩

/-! ## What renames deliver -/

/-- A stored symbol of the default provenance has no name in the store. Its copy is the row, and a
proper row with the default provenance has an empty name. -/
theorem Table.Reliable.exists_unnamed {id : SymbolId} (ht : t.Reliable) (he : t.Everywhere t.Proper)
    (hready : t.IsReady h) (hdefault : (t.handle h).provenance = .default) (hkey : (t.handle h).key = .stored id) :
    ∃ r, t.row? id = some r ∧ r.name = "" := by
  obtain ⟨r, hrow, rfl⟩ := (ht.sound.inOrder h).exists_row hkey hready.live
  rw [Handle.provenance, hrow] at hdefault
  exact ⟨r, ht.row?_eq hready hrow, ((he.copies h r hrow).unnamed hdefault).1⟩

/-- **Renames deliver what they settle for.** Whatever was done through a table since it was opened
empty: once a rename was answered, the symbol lies in the scope that was asked for. If the rename
settles for the default provenance, the symbol has it, and if it is stored, then without a name.
Otherwise it shows the name that was asked for, and it has the provenance that is settled for,
unless it showed this name in this scope before: then it has the one that it had. The store works,
listeners leave the table alone, the modification count has not come round, and the settings let a
walk pass one row at least, so that names are shown. -/
theorem Runs.renames_deliver {rules : Rules} {s₀ s s' : Situated σ} (hnew : s₀.table.IsNew rules)
    (hrun : Runs (fun _ _ m => m.goesThrough) false s₀ s) (hwrites : s.table.writes < UInt64.size)
    (hworks : s.table.store.Works) (hdepth : s.table.settings.maxDepth ≠ 0)
    (hnear : ∀ e (x : Situated σ), x.table.Near (notify e x).table)
    (hrename : (rename notify h name scope p).run s = (.ok (), s')) :
    ∃ a, ((telling h (·.address)).run s).1 = .ok a ∧ ((telling h (·.parent)).run s').1 = .ok scope ∧
      let settled := rules.settle (s.table.handle h).kind name a p
      let borne := ((currentName h).run s).1 = .ok name ∧ ((telling h (·.parent)).run s).1 = .ok scope
      (settled = .default → ((telling h (·.provenance)).run s').1 = .ok .default ∧
        ∀ id, (s'.table.handle h).key = .stored id → ∃ r, s'.table.row? id = some r ∧ r.name = "") ∧
      (settled ≠ .default → ((currentName h).run s').1 = .ok name ∧
        (¬ borne → ((telling h (·.provenance)).run s').1 = .ok settled) ∧
        (borne → ((telling h (·.provenance)).run s').1 = ((telling h (·.provenance)).run s).1)) := by
  have hrunPath := hrun.steps hnew.sound
  have hs := hrunPath.sound hnew.sound
  have hopen := hrun.opened hnew
  have hserving : s.table.Serving := ⟨hworks, hopen⟩
  have hends := ends_rename_suits hs hserving hdepth hnear h name scope p s rfl
  rw [hrename] at hends
  obtain ⟨hsuits, t₁, hr, hdone⟩ := hends rfl
  have hr' : s'.table.Refreshed h (.ok ()) s'.table := .ready hsuits.ready
  have hbefore {β : Type} (q : Handle → β) := answer_telling_of_refreshed hs hserving hr q
  have hafter {β : Type} (q : Handle → β) := answer_telling_of_refreshed hsuits.sound hsuits.serving hr' q
  have hsettles : rules.settle (s.table.handle h).kind name (t₁.handle h).address p =
      s'.table.settles (s'.table.handle h) name p := by
    have hsettles₁ : rules.settle (s.table.handle h).kind name (t₁.handle h).address p =
        t₁.settles (t₁.handle h) name p := by
      rw [Table.settles, hr.kind_eq, hr.path.sameFrame.rules, hrunPath.sameFrame.rules, hnew.rules_eq]
    rcases hdone with hsame | ⟨plan, -, henacts⟩
    · rw [hsettles₁, hsame]
    · rw [hsettles₁, henacts.settles_eq]
  refine ⟨_, hbefore (·.address), ?_, ?_⟩
  · exact (hafter (·.parent)).trans (congrArg _ hsuits.bears.parent)
  intro settled borne
  have hsettled : settled = s'.table.settles (s'.table.handle h) name p := hsettles
  rw [hsettled]
  refine ⟨fun hdefault => ⟨?_, fun id hkey => ?_⟩, fun hnamed => ⟨?_, fun hnot => ?_, fun hborne => ?_⟩⟩
  · exact (hafter (·.provenance)).trans (congrArg _ (hsuits.bears.unnamed hdefault))
  · rcases hdone with hsame | ⟨plan, hplan, henacts⟩
    · have hreliable : s.table.Reliable := ⟨hs, hrunPath.coherent hnew.sound hwrites hnew.coherent, hwrites, hopen⟩
      have he : s'.table.Everywhere s'.table.Proper := by
        rw [hsame]
        exact hr.everywhere_proper hs (hrun.everywhere_proper hnew)
      exact (hsame ▸ hreliable.of_upkeep hr.path : s'.table.Reliable).exists_unnamed he hsuits.ready
        (hsuits.bears.unnamed hdefault) hkey
    · obtain ⟨r, hrow, hget, -, hstored, -⟩ := henacts.exists_row
      cases ((henacts.sound.inOrder h).key r hrow).symm.trans hkey
      rw [henacts.settles_eq, ← hplan.provenance_eq] at hdefault
      exact ⟨r, hget, hstored.trans (hplan.unnamed hdefault)⟩
  · have hname := answer_currentName_of_refreshed hsuits.sound hsuits.serving hr'
    exact hname.trans (congrArg _ (hsuits.bears.named hnamed))
  · rcases hdone with hsame | ⟨plan, hplan, henacts⟩
    · -- nothing was done, so the symbol was as it is
      refine absurd ⟨?_, ?_⟩ hnot
      · rw [answer_currentName_of_refreshed hs hserving hr, ← hsame, hsuits.bears.named hnamed]
      · rw [hbefore (·.parent), ← hsame, hsuits.bears.parent]
    · obtain ⟨r, hrow, -, -, -, hprovenance⟩ := henacts.exists_row
      rw [hplan.provenance_eq, ← henacts.settles_eq] at hprovenance
      rw [hafter (·.provenance), Handle.provenance, hrow]
      exact congrArg _ hprovenance
  · rcases hdone with hsame | ⟨plan, hplan, henacts⟩
    · rw [hbefore (·.provenance), hafter (·.provenance), hsame]
    · -- a name that was shown in this scope is not planned again
      obtain ⟨hshown, hparent⟩ := hborne
      rw [answer_currentName_of_refreshed hs hserving hr] at hshown
      rw [hbefore (·.parent)] at hparent
      rw [henacts.settles_eq, ← hplan.provenance_eq] at hnamed
      exact absurd ⟨Except.ok.inj hshown, Except.ok.inj hparent⟩ (hplan.changes hnamed)

/-- A label gets another name and another provenance in a scope. It shows the name, lies in the
scope and has the provenance afterwards. -/
theorem Runs.renames_deliver_of_scoped :
    let s₀ : Situated Unit := ⟨.empty default .standard, (), 0⟩
    let go (s : Situated Unit) (m : Move) := ((m.action Listener.recorder).run s).2
    let s := [.create ⟨"n", .namespaceScope, .nowhere, .global, .userDefined, 0, 0, none⟩,
      .create ⟨"x", .label, .ram 16, .global, .analysis, 0, 0, none⟩].foldl go s₀
    let scope : Scope := .of ⟨1, by decide⟩
    let naming : Action Unit Unit := rename Listener.recorder 1 "y" scope .imported
    let s' := (naming.run s).2
    s₀.table.IsNew .standard ∧ Runs (fun _ _ m => m.goesThrough) false s₀ s ∧ s.table.writes < UInt64.size ∧
      s.table.store.Works ∧ s.table.settings.maxDepth ≠ 0 ∧
      (∀ e (x : Situated Unit), x.table.Near (Listener.recorder e x).table) ∧ naming.run s = (.ok (), s') ∧
      ((telling 1 (·.parent)).run s').1 = .ok scope ∧ ((currentName 1).run s').1 = .ok "y" ∧
      ((telling 1 (·.provenance)).run s').1 = .ok .imported := by
  intro s₀ go s scope naming s'
  have hnew : s₀.table.IsNew .standard := .memory _ _ _
  have hchronicle : Chronicle (fun _ _ m => m.goesThrough) false s₀ s :=
    .move (.move .refl trivial .recorder) trivial .recorder
  have hwrites : s.table.writes < UInt64.size := by decide +kernel
  have hworks : s.table.store.Works := hchronicle.works hnew.sound fun _ _ _ => rfl
  have hdepth : s.table.settings.maxDepth ≠ 0 := by decide +kernel
  have hnear : ∀ e (x : Situated Unit), x.table.Near (Listener.recorder e x).table :=
    Listener.Records.near Listener.records_recorder
  have hok : (naming.run s).1 = .ok () := by decide +kernel
  have hrename : naming.run s = (.ok (), s') := Prod.ext hok rfl
  obtain ⟨a, ha, hparent, hsettled⟩ :=
    Runs.renames_deliver hnew hchronicle.runs hwrites hworks hdepth hnear hrename
  have haddress : ((telling 1 (·.address)).run s).1 = .ok (.ram 16) := by decide +kernel
  cases ha.symm.trans haddress
  have hnamed : Rules.standard.settle (s.table.handle 1).kind "y" (.ram 16) .imported = .imported := by decide +kernel
  obtain ⟨hname, hprovenance, -⟩ := hsettled.2 (by rw [hnamed]; decide)
  have hother : ((currentName 1).run s).1 ≠ .ok "y" := by decide +kernel
  rw [hnamed] at hprovenance
  exact ⟨hnew, hchronicle.runs, hwrites, hworks, hdepth, hnear, hrename, hparent, hname,
    hprovenance fun hborne => hother hborne.1⟩

/-- A label that shows a name keeps the provenance of its name, whichever one is asked for with the
same name, and so does a function that borrows the name. It stays without a name of its own. -/
theorem Runs.renames_do_not_deliver :
    let s₀ : Situated Unit := ⟨.empty default .standard, (), 0⟩
    let go (s : Situated Unit) (m : Move) := ((m.action Listener.recorder).run s).2
    let s := [.create ⟨"x", .label, .ram 16, .global, .analysis, 0, 0, none⟩,
      .create ⟨"f", .function, .ram 32, .global, .userDefined, 0, 0, none⟩,
      .create ⟨"", .function, .ram 48, .global, .default, 2, 0, none⟩].foldl go s₀
    let labelled := (rename (σ := Unit) Listener.recorder 0 "x" .global .userDefined).run s
    let borrowed := (rename (σ := Unit) Listener.recorder 2 "f" .global .userDefined).run s
    s₀.table.IsNew .standard ∧ Runs (fun _ _ m => m.goesThrough) false s₀ s ∧ s.table.store.Works ∧
      (∀ e (x : Situated Unit), x.table.Near (Listener.recorder e x).table) ∧
      Rules.standard.settle .label "x" (.ram 16) .userDefined = .userDefined ∧ labelled.1 = .ok () ∧
      ((telling 0 (·.provenance)).run labelled.2).1 = .ok .analysis ∧
      Rules.standard.settle .function "f" (.ram 48) .userDefined = .userDefined ∧ borrowed.1 = .ok () ∧
      ((telling 2 (·.provenance)).run borrowed.2).1 = .ok .default ∧
      (borrowed.2.table.row? ⟨3, by decide⟩).map (·.name) = some "" := by
  intro s₀ go s labelled borrowed
  have hnew : s₀.table.IsNew .standard := .memory _ _ _
  have hchronicle : Chronicle (fun _ _ m => m.goesThrough) false s₀ s :=
    .move (.move (.move .refl trivial .recorder) trivial .recorder) trivial .recorder
  have hworks : s.table.store.Works := hchronicle.works hnew.sound fun _ _ _ => rfl
  have hnear : ∀ e (x : Situated Unit), x.table.Near (Listener.recorder e x).table :=
    Listener.Records.near Listener.records_recorder
  exact ⟨hnew, hchronicle.runs, hworks, hnear, by decide +kernel, by decide +kernel, by decide +kernel,
    by decide +kernel, by decide +kernel, by decide +kernel, by decide +kernel⟩

end SymbolTable
