import SymbolTable.Action.Creation
import SymbolTable.Proofs.Action.Editing

/-!
# The course of a creation

A draft is checked, and then, with nothing in between that could be observed, an id is drawn and the
row is stored. When the name that is to be shown cannot be had, the row stands there without a
handle.
-/

namespace SymbolTable

variable {t t' : Table} {c : Course}

/-! ## The row of a draft -/

namespace Draft

variable (d : Draft) (id : SymbolId)

/-- The row of a draft has the provenance of the draft, for its flags hold nothing else. -/
theorem provenance_row : (d.row id).provenance = d.provenance :=
  Row.ofBits_rank_and d.provenance

/-- The row of a draft has the name of the draft, if its provenance stands for one. -/
theorem name_row (h : d.provenance ≠ .default) : (d.row id).name = d.name :=
  if_neg h

/-- A draft that is settled lies nowhere if symbols of its kind have no place. This is settled
before anything is checked, so the address that was given does not matter. -/
theorem address_settled (rules : Rules) (h : (rules.capabilities d.kind).located = false) :
    (d.settled rules).address = .nowhere := by
  unfold settled
  rw [h]
  rfl

end Draft

/-! ## What becomes of a fresh row -/

namespace Table

/-- Which symbol is designated does not depend on the handles. So it makes no difference whether the
new symbol claims its address before or after its handle is made. -/
theorem claimPrimary_adopt (t : Table) (key : Key) (s : Handle) (a : Address) (id : SymbolId)
    (k : Kind) : (t.adopt key s).claimPrimary a id k = (t.claimPrimary a id k).adopt key s := by
  unfold claimPrimary
  rw [apply_ite (fun t : Table => t.adopt key s)]
  rfl

end Table

namespace Action

variable {σ : Type} {notify : Listener σ}

/-- A draft that passes the check has a parent that accepts it, its name, if any, is free, and it
may have this name and provenance. -/
theorem tells_checkDraft (ht : t.Sound) (d : Draft) :
    Tells t (checkDraft d : Action σ _) fun _ => t.Accepts d.kind d.scope ∧
      (d.provenance ≠ .default → t.NameFree d.address d.name d.scope d.kind.tag none) ∧
      t.Vetted d.kind d.address (if d.provenance = .default then "" else d.name) d.provenance := by
  refine .ask_bind fun _ hprovenance => (tells_checkParent ht d.kind d.scope).bind fun _ hparent => ?_
  have hvetted (hname : d.provenance ≠ .default → t.checkName d.name = .ok ()) :=
    Table.Vetted.of_checks hprovenance hname
  by_cases hdefault : d.provenance = .default
  · rw [if_neg (not_not.2 hdefault)]
    exact .pure ⟨hparent, fun h => absurd hdefault h, hvetted fun h => absurd hdefault h⟩
  · rw [if_pos hdefault]
    refine .ask_bind fun _ hname => ?_
    exact (tells_checkDuplicate ht d.address d.name d.scope d.kind none).imp fun _ _ h =>
      ⟨h.1, fun x hx => ⟨hparent, fun _ => h.2 x hx, hvetted fun _ => hname⟩⟩

/-- What a draft becomes is stored in one go, and then noted and told. Before that the draft is
checked, which only reads, and after it the listener is told. What is stored in one go is left to
the course. -/
theorem ends_create (hn : Heeds c notify) (hnote : c.Notes) (ht : t.Sound)
    (hc : ∀ t', t.Created t' → c.rel t t') (draft : Draft) :
    Ends t (create notify draft) fun _ t' => c.rel t t' := by
  refine .look_bind ?_
  have hnowhere := draft.address_settled t.rules
  have hkind : (draft.settled t.rules).kind = draft.kind := rfl
  rw [← hkind] at hnowhere
  generalize draft.settled t.rules = d at hnowhere
  refine (tells_checkDraft ht d).ends_bind (fun _ hchecked => ?_) fun _ => .refl
  obtain ⟨hparent, hfree, hvetted⟩ := hchecked
  refine .drawRow ht.backend (fun id b hid hputs => ?_) (fun _ => .refl) fun _ => hc _ .draw
  have hstores : t.Stores (d.row id) b := by
    refine ⟨hid, hputs, fun hprovenance => ?_⟩
    rw [d.provenance_row] at hprovenance
    rw [d.name_row id hprovenance]
    exact hfree hprovenance
  have hproper : t.Proper d.kind (d.row id) := hvetted.proper rfl rfl
  have hplaced : t.Placed d.kind (d.row id) := hvetted.placed rfl (d.provenance_row id) hnowhere
  -- the row stands in the table; a handle comes to it only if its name can be shown
  have hstored := hc _ (.insert rfl hstores hparent hproper hplaced)
  refine .change_bind (.change_bind ?_)
  show Ends ((t.withFresh (d.row id) b).claimPrimary d.address id d.kind) _ _
  refine (reads_displayName _).ends_bind (fun shown => .look_bind (.seq (.conclude ?_)))
    fun _ => hstored
  rw [(Table.beside_claimPrimary _ _ _ _).store]
  cases hs : Handle.ofRow (d.row id) (t.withFresh (d.row id) b).store.modificationCount with
  | error fault => exact hstored
  | ok s =>
    have hcreated := hc _ (.create rfl hstores hparent hproper hplaced hs)
    rw [Table.claimPrimary_adopt] at hcreated
    refine .ok (.look_bind (.change_bind ?_))
    refine Follows.ends_from (.bind (follows_emit hn _ _ nofun) fun _ => .pure _) ht ?_
    exact hcreated.trans (hnote (hcreated.sound ht) nofun)

/-- A creation follows a course on which rows may be stored, since everything before that only
reads. -/
theorem follows_create (hn : Heeds c notify) (hc : c.Writes) (draft : Draft) :
    Follows c (create notify draft) :=
  fun _ ht => ends_create hn hc.note ht (fun _ => hc.create ht) draft

end Action

end SymbolTable
