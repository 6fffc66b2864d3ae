import SymbolTable.Proofs.Action.Naming
import SymbolTable.Proofs.Table.Depth

/-!
# Walks up the scopes

Before each step of a walk up the parents three things are asked: whether it may go on, whether it
was there before, and whether there is a row. What comes of it can be told of the table alone
(`Table.Surveys`): these are the rows on the way, if it ends and they are not too many, where a
parent without a row takes a step like a row does. A walk answers with just these rows
(`ends_climb_decides`), with no more calls of the store than it may take steps (`exists_run_climb`).
A stored symbol is said to enclose every scope from which the walk has no answer
(`answers_encloses`).
-/

namespace SymbolTable

open SymbolTable.Action

variable {σ : Type} {t t' : Table} {h : HandleId} {id : SymbolId} {scope : Scope} {r : Row} {rs below : List Row}

namespace Table

/-- A way up to a parent without a row ends there. -/
theorem Ascends.climbs (hascends : t.Ascends id scope rs) (hnone : t.row? id = none) : t.Climbs scope rs := by
  induction hascends with
  | here => exact .lost hnone
  | step hget _ ih => exact .step hget ih

/-! ## Surveys -/

/-- These are the rows that a walk from the scope passes if it may pass `bound` of them, and no two
of them are the same: they lead to the global scope, or else up to a parent without a row and are
fewer than the bound. -/
def Surveys (t : Table) (bound : Nat) (scope : Scope) (rs : List Row) : Prop :=
  (rs.map (·.id)).Nodup ∧
    (t.Leads scope rs ∧ rs.length ≤ bound ∨ ∃ id, t.Ascends id scope rs ∧ t.row? id = none ∧ rs.length < bound)

namespace Surveys

variable {bound : Nat}

/-- The rows that are surveyed are those of a way that ends, be it in the global scope or at a
parent without a row. -/
theorem climbs (hsurveys : t.Surveys bound scope rs) : t.Climbs scope rs := by
  obtain ⟨-, ⟨hleads, -⟩ | ⟨id, hascends, hnone, -⟩⟩ := hsurveys
  · exact hleads.climbs
  · exact hascends.climbs hnone

/-- The way to the global scope is surveyed if it is not too long. -/
theorem of_leads (hleads : t.Leads scope rs) (hle : rs.length ≤ bound) : t.Surveys bound scope rs :=
  ⟨hleads.nodup, .inl ⟨hleads, hle⟩⟩

/-- No more rows are surveyed than the walk may pass. -/
theorem length_le (hsurveys : t.Surveys bound scope rs) : rs.length ≤ bound := by
  obtain ⟨-, ⟨-, hle⟩ | ⟨-, -, -, hlt⟩⟩ := hsurveys
  · exact hle
  · exact Nat.le_of_lt hlt

/-- In the global scope the walk ends at once. There is no row to be passed. -/
theorem global_iff : t.Surveys bound .global rs ↔ rs = [] := by
  constructor
  · intro hsurveys
    cases hsurveys.climbs
    rfl
  · rintro rfl
    exact .of_leads .global (Nat.zero_le _)

/-- A walk that may pass no row does not leave its scope. A walk to the global scope passes at least
the row of the symbol, and one that gets lost takes at least one step. -/
theorem not_zero : ¬ t.Surveys 0 (.of id) rs := by
  rintro ⟨-, ⟨hleads, hle⟩ | ⟨_, _, -, hlt⟩⟩
  · cases hleads
    cases hle
  · cases hlt

/-- At a parent without a row the walk ends, if it may take the step. A way that gets lost counts as
surveyed only if there was a step left to find this out. -/
theorem lost_iff (hnone : t.row? id = none) : t.Surveys (bound + 1) (.of id) rs ↔ rs = [] := by
  constructor
  · intro hsurveys
    exact hsurveys.climbs.unique (.lost hnone)
  · rintro rfl
    exact ⟨.nil, .inr ⟨id, .here, hnone, Nat.succ_pos _⟩⟩

/-- At a parent with a row, the walk passes this row and goes on with one step less. No two rows
that are passed are the same, so the row does not come again on the rest. -/
theorem step_iff (hget : t.row? id = some r) :
    t.Surveys (bound + 1) (.of id) rs ↔ ∃ rest, rs = r :: rest ∧ t.Surveys bound r.parent rest := by
  constructor
  · rintro ⟨hnodup, ⟨hleads, hle⟩ | ⟨i, hascends, hnone, hlt⟩⟩
    · cases hleads with
      | step hget' hrest =>
        cases hget.symm.trans hget'
        exact ⟨_, rfl, (List.nodup_cons.1 hnodup).2, .inl ⟨hrest, Nat.le_of_succ_le_succ hle⟩⟩
    · cases hascends with
      | here => cases hnone.symm.trans hget
      | step hget' hrest =>
        cases hget.symm.trans hget'
        exact ⟨_, rfl, (List.nodup_cons.1 hnodup).2, .inr ⟨i, hrest, hnone, Nat.lt_of_succ_lt_succ hlt⟩⟩
  · rintro ⟨rest, rfl, hsurveys⟩
    refine ⟨(Climbs.step hget hsurveys.climbs).nodup, ?_⟩
    obtain ⟨-, ⟨hleads, hle⟩ | ⟨i, hascends, hnone, hlt⟩⟩ := hsurveys
    · exact .inl ⟨.step hget hleads, Nat.succ_le_succ hle⟩
    · exact .inr ⟨i, .step hget hascends, hnone, Nat.succ_lt_succ hlt⟩

/-- From a row that was not visited the walk goes on to rows that were not visited either, and does
not come back. The list of those that were visited grows by this row, which is how the walk finds
out that it comes back. -/
theorem unvisited_step_iff (hget : t.row? id = some r) {visited : List SymbolId} (hfresh : id ∉ visited) :
    (t.Surveys (bound + 1) (.of id) rs ∧ ∀ x ∈ rs, x.id ∉ visited) ↔
      ∃ rest, rs = r :: rest ∧ t.Surveys bound r.parent rest ∧ ∀ x ∈ rest, x.id ∉ id :: visited := by
  have hid : r.id = id := id_of_row? hget
  rw [step_iff hget]
  constructor
  · rintro ⟨⟨rest, rfl, hrest⟩, hout⟩
    have hnodup := (Climbs.step hget hrest.climbs).nodup
    refine ⟨rest, rfl, hrest, fun x hx hmem => ?_⟩
    rcases List.mem_cons.1 hmem with heq | hmem
    · exact (List.nodup_cons.1 hnodup).1 (List.mem_map.2 ⟨x, hx, heq.trans hid.symm⟩)
    · exact hout x (.tail _ hx) hmem
  · rintro ⟨rest, rfl, hrest, hout⟩
    refine ⟨⟨rest, rfl, hrest⟩, fun x hx => ?_⟩
    rcases List.mem_cons.1 hx with rfl | hx
    · rwa [hid]
    · exact fun hmem => hout x hx (.tail _ hmem)

end Surveys

/-- The way up to a symbol depends on the rows alone. The induction is on the way. -/
theorem Ascends.congr (hascends : t.Ascends id scope below) (hrows : t'.rows = t.rows) :
    t'.Ascends id scope below := by
  induction hascends with
  | here => exact .here
  | step hget _ ih => exact .step ((row?_congr hrows _).trans hget) ih

/-- What is surveyed depends on the rows alone. So a survey of the table before the walk is one of
the table after it. -/
theorem surveys_congr {bound : Nat} (hrows : t'.rows = t.rows) :
    t'.Surveys bound scope rs ↔ t.Surveys bound scope rs := by
  have hlost (i : SymbolId) : t'.row? i = none ↔ t.row? i = none := by
    rw [row?_congr hrows]
  have hleads : t'.Leads scope rs ↔ t.Leads scope rs := ⟨(·.congr hrows.symm), (·.congr hrows)⟩
  have hascends (i : SymbolId) : t'.Ascends i scope rs ↔ t.Ascends i scope rs :=
    ⟨(·.congr hrows.symm), (·.congr hrows)⟩
  simp only [Surveys, hlost, hleads, hascends]

end Table

/-! ## Walks -/

/-- The answer is the one value of which `P` holds. If there is none, it is this refusal. -/
structure Action.Decides {α : Type} (P : α → Prop) (fault : Fault) (answer : Except Fault α) : Prop where
  ok_iff : ∀ x, answer = .ok x ↔ P x
  error : ∀ fault', answer = .error fault' → fault' = fault

namespace Action

namespace Decides

variable {α : Type} {P : α → Prop} {fault : Fault} {answer : Except Fault α}

/-- An answer decides where it is the one value that there can be. -/
theorem ok {x : α} (hP : ∀ y, P y ↔ y = x) : Decides P fault (.ok x) := by
  refine ⟨fun y => ?_, nofun⟩
  rw [hP, Except.ok.injEq, eq_comm]

/-- A refusal decides where there is no value. -/
theorem fail (hP : ∀ x, ¬ P x) : Decides P fault (.error fault) :=
  ⟨fun x => ⟨nofun, fun hx => absurd hx (hP x)⟩, fun _ hfault => (Except.error.inj hfault).symm⟩

/-- What is made of the value is decided with it. It is used where the rows of a walk are turned
into names or into an answer of yes or no. -/
theorem map {β : Type} {Q : β → Prop} (f : α → β) (hQ : ∀ y, Q y ↔ ∃ x, y = f x ∧ P x)
    (hdecides : Decides P fault answer) : Decides Q fault (answer.map f) := by
  cases answer with
  | ok x =>
    have hx := (hdecides.ok_iff x).1 rfl
    refine .ok fun y => (hQ y).trans ⟨?_, fun hy => ⟨x, hy, hx⟩⟩
    rintro ⟨x', rfl, hx'⟩
    cases (hdecides.ok_iff x').2 hx'
    rfl
  | error fault' =>
    obtain rfl := hdecides.error fault' rfl
    refine .fail fun y hy => ?_
    obtain ⟨x, -, hx⟩ := (hQ y).1 hy
    cases (hdecides.ok_iff x).2 hx

/-- Where there is no such value, it is refused. -/
theorem eq_error (hdecides : Decides P fault answer) (hP : ∀ x, ¬ P x) : answer = .error fault := by
  cases answer with
  | ok x => exact absurd ((hdecides.ok_iff x).1 rfl) (hP x)
  | error fault' => rw [hdecides.error fault' rfl]

end Decides

section
variable (hb : t.store.backend.Sound) (hworks : t.store.Works)

include hb hworks

/-- A walk answers with the rows that it passes, if it comes to an end and did not visit one of them
before. Those that it did visit are there. -/
theorem ends_climb_decides (start : Scope) (depth : Nat) (visited : List SymbolId)
    (hvisited : ∀ i ∈ visited, t.row? i ≠ none) (scope : Scope) :
    Ends t (climb start depth visited scope : Action σ _) fun answer t' => t' = t ∧
      Decides (fun rs => t.Surveys depth scope rs ∧ ∀ x ∈ rs, x.id ∉ visited) (.circular (.endlessChain start))
        answer := by
  have hglobal (visited : List SymbolId) (depth : Nat) (rs : List Row) :
      (t.Surveys depth .global rs ∧ ∀ x ∈ rs, x.id ∉ visited) ↔ rs = [] := by
    rw [Table.Surveys.global_iff]
    exact ⟨And.left, fun hnil => ⟨hnil, hnil ▸ List.forall_mem_nil _⟩⟩
  induction depth generalizing visited scope with
  | zero =>
    cases scope with
    | global => exact .pure ⟨rfl, .ok (hglobal visited 0)⟩
    | of id => exact .fail ⟨rfl, .fail fun _ hrs => Table.Surveys.not_zero hrs.1⟩
  | succ depth ih =>
    cases scope with
    | global => exact .pure ⟨rfl, .ok (hglobal visited _)⟩
    | of id =>
      unfold climb
      split
      · rename_i hmem
        have hmem : id ∈ visited := List.contains_iff_mem.1 hmem
        obtain ⟨r, hget⟩ := Option.ne_none_iff_exists'.1 (hvisited id hmem)
        refine .fail ⟨rfl, .fail fun rs hrs => ?_⟩
        obtain ⟨rest, rfl, -⟩ := (Table.Surveys.step_iff hget).1 hrs.1
        exact hrs.2 r (.head _) (Table.id_of_row? hget ▸ hmem)
      · rename_i hfresh
        have hfresh : id ∉ visited := fun hmem => hfresh (List.contains_iff_mem.2 hmem)
        refine .seq (.getRow hb (.ok ?_) fun _ hfails => absurd hfails hworks.not_mayFail)
        cases hget : t.row? id with
        | none =>
          refine .pure ⟨rfl, .ok fun rs => ?_⟩
          rw [Table.Surveys.lost_iff hget]
          exact ⟨And.left, fun hnil => ⟨hnil, hnil ▸ List.forall_mem_nil _⟩⟩
        | some r =>
          have hvisited' : ∀ i ∈ id :: visited, t.row? i ≠ none := by
            rintro i (_ | ⟨_, hi⟩)
            · rw [hget]
              exact Option.some_ne_none r
            · exact hvisited i hi
          refine .bind (ih (id :: visited) hvisited' r.parent) ?_ ?_
          · rintro rest t' ⟨rfl, hdecides⟩
            exact .pure ⟨rfl, hdecides.map (r :: ·) fun _ => Table.Surveys.unvisited_step_iff hget hfresh⟩
          · rintro fault t' ⟨rfl, hdecides⟩
            exact ⟨rfl, hdecides.map (r :: ·) fun _ => Table.Surveys.unvisited_step_iff hget hfresh⟩

/-- A walk with all the steps that the settings grant answers with the rows that are surveyed. It
refuses with the chain being endless where nothing is surveyed within this bound. -/
theorem ends_ancestors (scope : Scope) :
    Ends t (ancestors scope : Action σ _) fun answer t' => t' = t ∧
      Decides (t.Surveys t.settings.maxDepth scope) (.circular (.endlessChain scope)) answer := by
  refine .look_bind ((ends_climb_decides hb hworks scope _ [] (List.forall_mem_nil _) scope).imp ?_)
  rintro answer t' ⟨rfl, hdecides⟩
  refine ⟨rfl, fun rs => ?_, hdecides.error⟩
  rw [hdecides.ok_iff]
  exact ⟨And.left, fun hrs => ⟨hrs, fun _ _ => List.not_mem_nil⟩⟩

/-- Whether a scope lies in a stored symbol is answered for certain. It is said not to lie in the
symbol only if the walk from it has come to an end without the row of the symbol. -/
theorem answers_encloses (hid : (t.handle h).id? = some id) (scope : Scope) :
    Answers t (encloses h scope : Action σ _) fun inside t' => t' = t ∧
      (inside = false ↔ ∃ rs, t.Surveys t.settings.maxDepth scope rs ∧ ∀ x ∈ rs, x.id ≠ id) := by
  refine .look_bind ?_
  rw [hid]
  refine Ends.attempt_bind (ends_ancestors hb hworks scope) ?_
  rintro answer t' ⟨rfl, hdecides⟩
  cases answer with
  | ok rows =>
    have hsurveys := (hdecides.ok_iff rows).1 rfl
    refine Answers.pure ⟨rfl, ?_⟩
    rw [List.any_eq_false]
    constructor
    · intro hout
      exact ⟨rows, hsurveys, fun x hx hxid => hout x hx (decide_eq_true hxid)⟩
    · rintro ⟨rs, hrs, hout⟩ x hx
      obtain rfl := hrs.climbs.unique hsurveys.climbs
      simpa using hout x hx
  | error fault =>
    obtain rfl := hdecides.error fault rfl
    refine Answers.pure ⟨rfl, nofun, ?_⟩
    rintro ⟨rs, hrs, -⟩
    cases (hdecides.ok_iff rs).2 hrs

end

/-- A walk makes no more calls than it may pass rows, and changes nothing. The induction is on the
depth: each step makes one call or ends the walk. This holds wherever it is run, in a store that
fails as well. -/
theorem exists_run_climb (start : Scope) (depth : Nat) (visited : List SymbolId) (scope : Scope) (s : Situated σ) :
    ∃ k ≤ depth, ((climb start depth visited scope).run s).2 = { s with clock := s.clock + k } := by
  induction depth generalizing visited scope s with
  | zero => cases scope <;> exact ⟨0, Nat.le_refl _, rfl⟩
  | succ depth ih =>
    cases scope with
    | global => exact ⟨0, Nat.zero_le _, rfl⟩
    | of id =>
      unfold climb
      split
      · exact ⟨0, Nat.zero_le _, rfl⟩
      · rw [run_bind]
        have hticked : ((getRow id).run s).2 = { s with clock := s.clock + 1 } := rfl
        cases hrow : (getRow id).run s with
        | mk answer s₁ =>
          rw [hrow] at hticked
          obtain rfl : s₁ = _ := hticked
          rcases answer with _ | _ | r
          · exact ⟨1, Nat.le_add_left _ _, rfl⟩
          · exact ⟨1, Nat.le_add_left _ _, rfl⟩
          · obtain ⟨k, hk, hrest⟩ := ih (id :: visited) r.parent { s with clock := s.clock + 1 }
            refine ⟨k + 1, Nat.succ_le_succ hk, ?_⟩
            have hclock : s.clock + 1 + k = s.clock + (k + 1) := by omega
            simp only [hclock] at hrest
            simp only [run_bind]
            cases hclimb : (climb start depth (id :: visited) r.parent).run { s with clock := s.clock + 1 } with
            | mk answer s₂ =>
              rw [hclimb] at hrest
              cases answer <;> exact hrest

end Action

end SymbolTable
