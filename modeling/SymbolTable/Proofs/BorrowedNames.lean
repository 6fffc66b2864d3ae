import SymbolTable.Proofs.Announcements

/-!
# Names that are passed on

An unnamed row shows the name of the row from which it borrows one, which may borrow its own from a
third row, and so on. The rows that are met on the way are its lenders (`Table.Lenders`). The last
of them is named, or it borrows from nobody, or from a symbol without a row, and all that borrow
from it show what it is called (`Table.Lenders.shown_eq`), as long as no row is met twice and the
walk may pass all of them.

The walks from two neighbours on the way differ in what they have visited and in how many steps are
left to them. So the name is told for any number of steps and for any rows that were visited before
(`Table.Lenders.shownWithin_eq`).
-/

namespace SymbolTable

open SymbolTable.Action

variable {σ : Type} {t : Table} {id : SymbolId} {r x last : Row} {xs : List Row}

/-- Only rows without a name of their own borrow one. -/
def Rules.LendsToUnnamed (rules : Rules) : Prop :=
  ∀ r id, rules.lender? r = some id → r.provenance = .default

/-- Rules that follow from what kinds can do let unnamed rows borrow, and no others. A lender is
looked for only if the provenance of the row is the default one. -/
theorem Rules.lendsToUnnamed_ofCapabilities (capabilities : Kind → Capabilities) :
    (ofCapabilities capabilities).LendsToUnnamed := by
  intro r id hlender
  have hlender : lenderOf r = some id := hlender
  unfold lenderOf at hlender
  split at hlender
  · rename_i hborrows
    simp only [Bool.and_eq_true, decide_eq_true_eq] at hborrows
    exact hborrows.1.2
  · cases hlender

namespace Table

/-- What a row is called that borrows no name: its own name, or the one that follows from its
kind. -/
def calledAlone (t : Table) (r : Row) : String :=
  if r.provenance = .default then t.derivedName r else r.name

/-- The rows from which a row borrows its name, the nearest first. The last one borrows from nobody,
or from a symbol that has no row. -/
inductive Lenders (t : Table) : Row → List Row → Prop where
  | nobody {r : Row} (hlender : t.rules.lender? r = none) : Lenders t r []
  | lost {r : Row} {id : SymbolId} (hlender : t.rules.lender? r = some id) (hrow : t.row? id = none) :
      Lenders t r []
  | next {r x : Row} {id : SymbolId} {xs : List Row} (hlender : t.rules.lender? r = some id)
      (hrow : t.row? id = some x) (hrest : Lenders t x xs) : Lenders t r (x :: xs)

namespace Lenders

/-- The row from which a row borrows is the nearest of its lenders. So along a chain each row shows
what the next one shows, up to its end. -/
theorem exists_rest (hchain : t.Lenders r xs) (hlender : t.rules.lender? r = some id) (hrow : t.row? id = some x) :
    ∃ rest, xs = x :: rest ∧ t.Lenders x rest := by
  cases hchain with
  | nobody hnone => cases hnone.symm.trans hlender
  | lost hlender' hnone =>
    cases hlender'.symm.trans hlender
    cases hnone.symm.trans hrow
  | next hlender' hrow' hrest =>
    cases hlender'.symm.trans hlender
    cases hrow'.symm.trans hrow
    exact ⟨_, rfl, hrest⟩

/-- The walk ends at the last of the lenders, which shows what it is called, or at the one that is
met when no steps are left, which then shows the name that follows from its kind. -/
theorem shownWithin_eq (hlends : t.rules.LendsToUnnamed) (hchain : t.Lenders r xs) (depth : Nat)
    (visited : List SymbolId) (hnodup : (xs.map (·.id)).Nodup) (hfresh : ∀ x ∈ xs, x.id ∉ visited) :
    t.shownWithin depth visited r =
      match (r :: xs)[depth]? with
      | some x => t.derivedName x
      | none => t.calledAlone ((r :: xs).getLast (List.cons_ne_nil r xs)) := by
  induction hchain generalizing depth visited with
  | @nobody r hlender =>
    cases depth with
    | zero => rfl
    | succ depth =>
      by_cases hunnamed : r.provenance = .default
      · simp [shownWithin, hlender, calledAlone, hunnamed]
      · simp [shownWithin, calledAlone, hunnamed]
  | @lost r id hlender hrow =>
    have hunnamed := hlends r id hlender
    cases depth with
    | zero => rfl
    | succ depth =>
      simp [shownWithin, hlender, hrow, calledAlone, hunnamed]
  | @next r x id xs hlender hrow hrest ih =>
    have hunnamed := hlends r id hlender
    cases depth with
    | zero => rfl
    | succ depth =>
      have hid : x.id = id := id_of_row? hrow
      have hunvisited : id ∉ visited := hid ▸ hfresh x (.head _)
      rw [List.map_cons, List.nodup_cons] at hnodup
      -- the lender is visited next, and it is none of its own lenders
      have hrest_fresh : ∀ y ∈ xs, y.id ∉ id :: visited := by
        intro y hy hmem
        rcases List.mem_cons.1 hmem with heq | hmem
        · exact hnodup.1 (List.mem_map.2 ⟨y, hy, heq.trans hid.symm⟩)
        · exact hfresh y (.tail _ hy) hmem
      have hstep : t.shownWithin (depth + 1) visited r = t.shownWithin depth (id :: visited) x := by
        simp [shownWithin, hunnamed, hlender, hunvisited, hrow]
      rw [hstep, ih depth (id :: visited) hnodup.2 hrest_fresh, List.getElem?_cons_succ]
      rfl

/-- A row shows what the last of its lenders is called, if they are all different and there are
fewer of them than rows may be passed. -/
theorem shown_eq (hlends : t.rules.LendsToUnnamed) (hchain : t.Lenders r xs)
    (hnodup : ((r :: xs).map (·.id)).Nodup) (hroom : xs.length < t.settings.maxDepth) :
    t.shown r = t.calledAlone ((r :: xs).getLast (List.cons_ne_nil r xs)) := by
  rw [List.map_cons, List.nodup_cons] at hnodup
  have hfresh : ∀ x ∈ xs, x.id ∉ [r.id] := by
    intro x hx hmem
    exact hnodup.1 (List.mem_map.2 ⟨x, hx, List.mem_singleton.1 hmem⟩)
  have hend : (r :: xs)[t.settings.maxDepth]? = none := List.getElem?_eq_none hroom
  rw [shown, hchain.shownWithin_eq hlends _ _ hnodup.2 hfresh, hend]

end Lenders

end Table

/-- A row that borrows its name from another one shows what this one shows, whatever the store
keeps: both show what the last of the lenders is called. It is enough that no row lends a name to
itself by way of others and that there are fewer lenders than rows may be passed. -/
theorem Situated.borrowers_show_their_lender {s : Situated σ} (hb : s.table.store.backend.Sound)
    (hworks : s.table.store.Works) (hlends : s.table.rules.LendsToUnnamed)
    (hlender : s.table.rules.lender? r = some id) (hrow : s.table.row? id = some x)
    (hchain : s.table.Lenders r xs) (hnodup : ((r :: xs).map (·.id)).Nodup)
    (hroom : xs.length < s.table.settings.maxDepth) :
    ∃ last, xs.getLast? = some last ∧ ((displayName r).run s).1 = .ok (s.table.calledAlone last) ∧
      ((displayName x).run s).1 = .ok (s.table.calledAlone last) := by
  obtain ⟨rest, rfl, hrest⟩ := hchain.exists_rest hlender hrow
  have hshown := hchain.shown_eq hlends hnodup hroom
  have hshown' := hrest.shown_eq hlends hnodup.of_cons (Nat.lt_of_succ_lt hroom)
  obtain ⟨name, hname, rfl, -⟩ := answers_shown hb hworks r s rfl
  obtain ⟨name', hname', rfl, -⟩ := answers_shown hb hworks x s rfl
  refine ⟨_, List.getLast?_eq_getLast_of_ne_nil (List.cons_ne_nil x rest), ?_, ?_⟩
  · rw [hname, hshown]
    rfl
  · rw [hname', hshown']

/-- Where three rows may be passed, a function borrows its name from a second one, which borrows it
from a third. The first two show the name of the third. -/
theorem Situated.borrowers_show_their_lender_of_functions :
    let id₁ : SymbolId := ⟨1, by decide⟩
    let id₂ : SymbolId := ⟨2, by decide⟩
    let id₃ : SymbolId := ⟨3, by decide⟩
    let r₁ : Row := .fresh id₁ .function (.ram 16) "f" .global .userDefined
    let r₂ : Row := { Row.fresh id₂ .function (.ram 32) "" .global .default with data1 := 1 }
    let r₃ : Row := { Row.fresh id₃ .function (.ram 48) "" .global .default with data1 := 2 }
    let settings : Settings := { (default : Settings) with maxDepth := 3 }
    let t := (Table.empty settings .standard).withBackend (.memory (((Store.Memory.empty.put r₁).put r₂).put r₃))
    let s : Situated Unit := ⟨t, (), 0⟩
    t.store.backend.Sound ∧ t.store.Works ∧ t.rules.LendsToUnnamed ∧ t.rules.lender? r₃ = some id₂ ∧
      t.row? id₂ = some r₂ ∧ t.Lenders r₃ [r₂, r₁] ∧ ([r₃, r₂, r₁].map (·.id)).Nodup ∧
      [r₂, r₁].length < t.settings.maxDepth ∧ t.calledAlone r₁ = "f" ∧
      ∃ last, [r₂, r₁].getLast? = some last ∧ ((displayName r₃).run s).1 = .ok (t.calledAlone last) ∧
        ((displayName r₂).run s).1 = .ok (t.calledAlone last) := by
  intro id₁ id₂ id₃ r₁ r₂ r₃ settings t s
  have hb : t.store.backend.Sound := Nat.one_ne_zero
  have hworks : t.store.Works := fun _ _ _ => rfl
  have hlends : t.rules.LendsToUnnamed := Rules.lendsToUnnamed_ofCapabilities _
  have hlender : t.rules.lender? r₃ = some id₂ := by decide
  have hrow : t.row? id₂ = some r₂ := by decide
  have hlender' : t.rules.lender? r₂ = some id₁ := by decide
  have hrow' : t.row? id₁ = some r₁ := by decide
  have hchain : t.Lenders r₃ [r₂, r₁] := .next hlender hrow (.next hlender' hrow' (.nobody (by decide)))
  have hnodup : ([r₃, r₂, r₁].map (·.id)).Nodup := by decide
  have hroom : [r₂, r₁].length < t.settings.maxDepth := by decide
  exact ⟨hb, hworks, hlends, hlender, hrow, hchain, hnodup, hroom, by decide,
    Situated.borrowers_show_their_lender (s := s) hb hworks hlends hlender hrow hchain hnodup hroom⟩

end SymbolTable
