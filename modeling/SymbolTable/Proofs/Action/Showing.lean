import SymbolTable.Proofs.Action.Serving

/-!
# Names that are shown

Where the store works, the name that a row shows is told by the rows alone (`Table.shown`), and the
symbol of a handle answers with it (`answers_nameOf`). A row with a name of its own shows that name.
An unnamed row may borrow its name from another one, which may borrow its own: a row that `Borrows`
from no row under an id shows the same name whatever becomes of that row (`Table.shown_congr`).
-/

namespace SymbolTable

variable {σ : Type} {t t' : Table} {h : HandleId} {id : SymbolId} {r : Row}

namespace Table

/-- The name that a row shows, if unnamed rows are followed for `depth` steps at most to those from
which they borrow, and to none twice. -/
def shownWithin (t : Table) : (depth : Nat) → (visited : List SymbolId) → Row → String
  | 0, _, r => t.derivedName r
  | depth + 1, visited, r =>
    if r.provenance ≠ .default then r.name
    else
      match t.rules.lender? r with
      | none => t.derivedName r
      | some id =>
        if visited.contains id then t.derivedName r
        else
          match t.row? id with
          | none => t.derivedName r
          | some lender => t.shownWithin depth (id :: visited) lender

/-- The name that a row shows. -/
def shown (t : Table) (r : Row) : String :=
  t.shownWithin t.settings.maxDepth [r.id] r

/-- The name that the symbol with an id shows, if it is stored. -/
def shownAt (t : Table) (id : SymbolId) : Option String :=
  (t.row? id).map t.shown

/-- The name that the symbol of a handle shows. -/
def shownFor (t : Table) (s : Handle) : String :=
  match s.row with
  | some r => t.shown r
  | none => t.rules.derivedName s.kind s.address 0

/-- The symbol of a handle with a row shows the name that the row shows. -/
theorem shownFor_of_row {s : Handle} (hrow : s.row = some r) : t.shownFor s = t.shown r := by
  rw [shownFor, hrow]

/-- A row with a name of its own shows it. -/
theorem shown_of_named (hdepth : t.settings.maxDepth ≠ 0) (hnamed : r.provenance ≠ .default) :
    t.shown r = r.name := by
  obtain ⟨depth, hdepth⟩ := Nat.exists_eq_succ_of_ne_zero hdepth
  rw [shown, hdepth, shownWithin, if_pos hnamed]

/-! ## Borrowed names -/

/-- The row shows the name of the row under an id, or that of one that shows it. -/
inductive Borrows (t : Table) (id : SymbolId) : Row → Prop where
  | direct {r : Row} (hunnamed : r.provenance = .default) (hlender : t.rules.lender? r = some id) :
      Borrows t id r
  | through {r x : Row} {i : SymbolId} (hunnamed : r.provenance = .default)
      (hlender : t.rules.lender? r = some i) (hrow : t.row? i = some x) (hrest : Borrows t id x) :
      Borrows t id r

/-- The name by kind depends on the rules and on the row alone. -/
theorem derivedName_congr (hrules : t'.rules = t.rules) (r : Row) : t'.derivedName r = t.derivedName r := by
  rw [derivedName, derivedName, hrules]

/-- Only what becomes of the rows from which a name is borrowed matters to it, and of those that
were not visited before. -/
theorem shownWithin_congr (hrules : t'.rules = t.rules) (depth : Nat) (visited : List SymbolId)
    (hrows : ∀ id, id ∉ visited → t.Borrows id r → t'.row? id = t.row? id) :
    t'.shownWithin depth visited r = t.shownWithin depth visited r := by
  induction depth generalizing visited r with
  | zero => exact derivedName_congr hrules r
  | succ depth ih =>
    rw [shownWithin, shownWithin, hrules, derivedName_congr hrules]
    split
    · rfl
    · rename_i hunnamed
      have hunnamed : r.provenance = .default := not_not.1 hunnamed
      cases hlender : t.rules.lender? r with
      | none => rfl
      | some id =>
        dsimp only
        split
        · rfl
        · rename_i hfresh
          have hfresh : id ∉ visited := fun hmem => hfresh (List.contains_iff_mem.2 hmem)
          rw [hrows id hfresh (.direct hunnamed hlender)]
          cases hrow : t.row? id with
          | none => rfl
          | some x =>
            refine ih _ fun i hi hborrows => ?_
            exact hrows i (fun hmem => hi (.tail _ hmem)) (.through hunnamed hlender hrow hborrows)

/-- The name that a row shows depends on no rows but those from which it borrows, directly or
through others. -/
theorem shown_congr (hframe : t.SameFrame t') (hrows : ∀ id, t.Borrows id r → t'.row? id = t.row? id) :
    t'.shown r = t.shown r := by
  rw [shown, shown, hframe.settings]
  exact shownWithin_congr hframe.rules _ _ fun id _ => hrows id

/-- To the name that a row shows its own place in the store does not matter. The walk begins at this
row and does not come back to it, so it is never looked up. -/
theorem shown_congr_of_ne (hframe : t.SameFrame t') (hrows : ∀ id, id ≠ r.id → t'.row? id = t.row? id) :
    t'.shown r = t.shown r := by
  rw [shown, shown, hframe.settings]
  exact shownWithin_congr hframe.rules _ _ fun id hfresh _ =>
    hrows id fun heq => hfresh (List.mem_singleton.2 heq)

/-- Unnamed rows with one lender show the same name, and so they do without a lender if they have
the same name by their kinds. -/
theorem shown_eq_of_unnamed {r' : Row} (hid : r'.id = r.id) (hunnamed : r.provenance = .default)
    (hunnamed' : r'.provenance = .default) (hlender : t.rules.lender? r' = t.rules.lender? r)
    (hderived : t.derivedName r' = t.derivedName r) : t.shown r' = t.shown r := by
  rw [shown, shown, hid]
  cases t.settings.maxDepth with
  | zero => exact hderived
  | succ depth =>
    rw [shownWithin, shownWithin, if_neg (not_not.2 hunnamed), if_neg (not_not.2 hunnamed'), hlender, hderived]

/-- Names are told by the rows, the rules and the settings. -/
theorem shown_eq (hframe : t.SameFrame t') (hrows : t'.rows = t.rows) : t'.shown = t.shown :=
  funext fun _ => shown_congr hframe fun id _ => row?_congr hrows id

/-- The name of a symbol is the same where the rules, the settings and the rows are. -/
theorem shownFor_eq (hframe : t.SameFrame t') (hrows : t'.rows = t.rows) (s : Handle) :
    t'.shownFor s = t.shownFor s := by
  rw [shownFor, shownFor, hframe.rules, shown_eq hframe hrows]

end Table

/-! ## Names that are asked for -/

namespace Action

section
variable (hb : t.store.backend.Sound)

include hb

/-- The name of a row is told, or it is borrowed and the store does not say from which row. The
induction is on the depth that is left, for all rows that were visited before. Nothing is changed by
it. -/
theorem ends_shownWithin (depth : Nat) (visited : List SymbolId) (r : Row) :
    Ends t (shownName depth visited r : Action σ _) fun answer t' => t' = t ∧
      (answer = .ok (t.shownWithin depth visited r) ∨ (t.rules.lender? r).isSome ∧
        ∃ cause id, t.store.MayFail .get (some id) cause ∧ answer = .error (.store cause)) := by
  induction depth generalizing visited r with
  | zero => exact .look ⟨rfl, .inl rfl⟩
  | succ depth ih =>
    rw [Table.shownWithin]
    unfold shownName
    split
    · exact .pure ⟨rfl, .inl rfl⟩
    · refine .look_bind ?_
      cases hlender : t.rules.lender? r with
      | none => exact .look ⟨rfl, .inl rfl⟩
      | some i =>
        dsimp only
        split
        · exact .look ⟨rfl, .inl rfl⟩
        · refine Ends.seq (.getRow hb (.ok ?_) fun cause hfails => ⟨rfl, .inr ⟨rfl, cause, i, hfails, rfl⟩⟩)
          cases hrow : t.row? i with
          | none => exact .look ⟨rfl, .inl rfl⟩
          | some x =>
            refine (ih (i :: visited) x).imp ?_
            rintro answer t' ⟨htable, hanswer⟩
            exact ⟨htable, hanswer.imp_right fun hfails => ⟨rfl, hfails.2⟩⟩

/-- The name of a row is told as it is shown, or it is borrowed and the store fails to answer.
Nothing is changed either way. -/
theorem ends_shown (r : Row) :
    Ends t (displayName r : Action σ _) fun answer t' => t' = t ∧
      (answer = .ok (t.shown r) ∨ (t.rules.lender? r).isSome ∧
        ∃ cause id, t.store.MayFail .get (some id) cause ∧ answer = .error (.store cause)) :=
  .look_bind (ends_shownWithin hb _ _ r)

/-- The name that a symbol answers with is the one that it shows. A stored symbol shows the name of
its row and a derived one that of its address, and nothing but a refusal is answered otherwise. -/
theorem tells_nameOf (h : HandleId) : Tells t (nameOf h : Action σ _) (· = t.shownFor (t.handle h)) := by
  refine .look_bind ?_
  rw [Table.shownFor]
  cases (t.handle h).row with
  | none => exact .look rfl
  | some r =>
    refine (ends_shown hb r).imp ?_
    rintro _ _ ⟨rfl, rfl | ⟨-, cause, id, -, rfl⟩⟩
    · exact ⟨rfl, fun _ hname => (Except.ok.inj hname).symm⟩
    · exact ⟨rfl, nofun⟩

variable (hworks : t.store.Works)

include hworks

/-- Where the store works, a row tells the name that it shows. The only other outcome is a call that
fails, and none does. -/
theorem answers_shown (r : Row) :
    Answers t (displayName r : Action σ _) fun name t' => name = t.shown r ∧ t' = t := by
  refine (ends_shown hb r).imp ?_
  rintro _ _ ⟨rfl, rfl | ⟨-, cause, id, hfails, -⟩⟩
  · exact ⟨_, rfl, rfl, rfl⟩
  · exact absurd hfails hworks.not_mayFail

/-- The symbol of a handle answers with its name. It is asked within a call that has refreshed the
handle. -/
theorem answers_nameOf (h : HandleId) :
    Answers t (nameOf h : Action σ _) fun name t' => name = t.shownFor (t.handle h) ∧ t' = t := by
  refine .look_bind ?_
  rw [Table.shownFor]
  cases (t.handle h).row with
  | some r => exact answers_shown hb hworks r
  | none => exact Ends.look ⟨_, rfl, rfl, rfl⟩

end

end Action

end SymbolTable
