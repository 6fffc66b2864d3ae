import SymbolTable.Action.Marking
import SymbolTable.Action.Relocation
import SymbolTable.Proofs.Action.Upkeep
import SymbolTable.Proofs.Row.Flags

/-!
# The courses of edits

Edits of one row are the deed that they are: marks, data and provenances are written without a
change of name or place, and moves change the address alone. On a course that allows the deed they
may be made wherever they are made. Where it depends on the table whether a move stays on the
course, it has to do so at the table at which it is made, with the handle refreshed
(`ends_setAddress`, `ends_relocate`).
-/

namespace SymbolTable.Action

open Table (Step)

variable {σ : Type} {t : Table} {c : Course} {notify : Listener σ}

/-- An edit of the row of a handle is written, or the store fails and nothing is. The two premises
are the two ways to end, and the table is given for each, so a caller decides what it takes for
it. -/
theorem ends_write (ht : t.Sound) (h : HandleId) {edit : Row → Row}
    {Q : Except Fault Unit → Table → Prop}
    (hok : ∀ r b, (t.handle h).row = some r → t.store.backend.Puts (edit r) b →
      Q (.ok ()) (t.written h (edit r) b))
    (herror : ∀ fault, Q (.error fault) t) : Ends t (write h edit : Action σ Unit) Q := by
  refine .look_bind ?_
  split
  · exact .fail (herror _)
  · rename_i r hrow
    exact .seq (.putRow ht.backend (fun b hputs => .ok (.change (hok r b hrow hputs)))
      fun _ => herror _)

/-- What tells a row from its copy with other marks and data is not its name or place. -/
structure Marks (r r' : Row) : Prop where
  id : r'.id = r.id
  tag : r'.tag = r.tag
  address : r'.address = r.address
  parent : r'.parent = r.parent
  name : r'.name = r.name

/-- An edit that changes neither the name nor the place of a row is written, and then told of. What
is left to the caller are the facts about the edit, and it is asked for them only of the row that
the handle has. -/
theorem ends_mark (hn : Heeds c notify) (hc : c.WritesInto fun _ => False) (ht : t.Sound) {h : HandleId}
    (hready : t.IsReady h) {edit : Row → Row} (hmarks : ∀ r, Marks r (edit r))
    (hprovenance : ∀ r, (t.handle h).row = some r →
      ((edit r).provenance = .default ↔ r.provenance = .default))
    (hretains : ∀ r, (t.handle h).row = some r → t.Retains (t.handle h).kind r (edit r)) {change : Change}
    (hchange : change.sort ≠ .removed) :
    Ends t (write h edit >>= fun _ => emitFor notify h change) fun _ t' => c.rel t t' := by
  refine Follows.ends_bind ht (ends_write ht h (fun r b hr hputs => ?_) fun _ => .refl) fun _ =>
    follows_emitFor hn h hchange
  have hm := hmarks r
  have hedits : t.Edits (Eq .write) (t.handle h) r (edit r) :=
    .mark rfl hm.id hm.tag hm.address hm.parent hm.name (hprovenance r hr)
  exact hc ht (.edit hr hedits (.inl hm.parent) hputs (hretains r hr) hready)

/-! ## Marks and data -/

section
variable (hn : Heeds c notify) (hc : c.WritesInto fun _ => False)

include hn hc

/-- A provenance is written only if both the old and the new one stand for a name, or neither does.
So an edit of this kind is one that keeps its name, as `ends_mark` asks for. -/
theorem follows_setProvenance (h : HandleId) (p : Provenance) :
    Follows c (setProvenance notify h p) := by
  refine follows_current h fun t ht hready => .look_bind ?_
  dsimp only
  split
  · exact .pure .refl
  · rename_i hdiffers
    split
    · exact .fail .refl
    · rename_i hcrossed
      refine (reads_nameOf h).ends_bind (fun name => ?_) fun _ => .refl
      refine .ask_bind (fun _ _ => ?_) fun _ _ => .refl
      have hmarks : ∀ r : Row, Marks r (r.withProvenance p) := fun _ => ⟨rfl, rfl, rfl, rfl, rfl⟩
      have hsame : (t.handle h).provenance = .default ↔ p = .default := eq_iff_iff.1 (not_not.1 hcrossed)
      have hold {r : Row} (hr : (t.handle h).row = some r) : (t.handle h).provenance = r.provenance := by
        rw [Handle.provenance, hr]
        rfl
      have hnew : p ≠ .default := fun hp => hdiffers ((hsame.2 hp).trans hp.symm)
      refine ends_mark hn hc ht hready hmarks (fun r hr => ?_) (fun r hr => ?_) (by simp [Change.sort])
      · rw [Row.provenance_withProvenance, ← hold hr]
        exact hsame.symm
      · exact .withProvenance (fun hdefault => hnew (hsame.1 ((hold hr).trans hdefault))) hnew

/-- To pin a symbol, or to unpin it, writes its row with another mark. Whether it may be pinned is
checked before, which is what keeps rows proper. -/
theorem follows_setPinned (h : HandleId) (pinned : Bool) :
    Follows c (setPinned notify h pinned) := by
  refine follows_current h fun t ht hready => .look_bind (.look_bind ?_)
  split
  · exact .fail .refl
  · rename_i hpinnable
    rw [Bool.not_eq_true, Bool.not_eq_false'] at hpinnable
    split
    · exact .pure .refl
    · split
      · exact .pure .refl
      · have hmarks : ∀ r : Row, Marks r (r.withPinned pinned) := fun _ => ⟨rfl, rfl, rfl, rfl, rfl⟩
        refine ends_mark hn hc ht hready hmarks (fun r _ => ?_) (fun r _ => .withPinned hpinnable pinned) nofun
        rw [Row.provenance_withPinned]

/-- To set data writes the row with other data, if the symbol carries them. The premises say that
neither the name nor the place nor the flags change. -/
theorem follows_setData (h : HandleId) (has : Row → Bool) {edit : Row → Row}
    (hmarks : ∀ r, Marks r (edit r)) (hflags : ∀ r, (edit r).flags = r.flags) :
    Follows c (setData notify h has edit) := by
  refine follows_current h fun t ht hready => .look_bind ?_
  split
  · exact .pure .refl
  · split
    · exact .pure .refl
    · refine ends_mark hn hc ht hready hmarks (fun r _ => ?_)
        (fun r _ => .of_eq (hmarks r).name (hflags r) (hmarks r).address) nofun
      rw [Row.provenance, hflags, Row.provenance]

/-- The first datum is set as any other is. -/
theorem follows_setData1 (h : HandleId) (value : Int64) : Follows c (setData1 notify h value) :=
  follows_setData hn hc h _ (fun _ => ⟨rfl, rfl, rfl, rfl, rfl⟩) fun _ => rfl

/-- The second datum is set as any other is. -/
theorem follows_setData2 (h : HandleId) (value : Int32) : Follows c (setData2 notify h value) :=
  follows_setData hn hc h _ (fun _ => ⟨rfl, rfl, rfl, rfl, rfl⟩) fun _ => rfl

/-- The third datum is set as any other is. -/
theorem follows_setData3 (h : HandleId) (value : Option String) :
    Follows c (setData3 notify h value) :=
  follows_setData hn hc h _ (fun _ => ⟨rfl, rfl, rfl, rfl, rfl⟩) fun _ => rfl

end

/-- A stored symbol is designated that may be primary. Who was designated before loses it. Derived
symbols and those that may not be primary are left as they are, without a refusal. -/
theorem follows_setPrimary (hn : Heeds c notify) (hc : c.Designates) (h : HandleId) :
    Follows c (setPrimary notify h) := by
  refine follows_current h fun t ht hready => .look_bind ?_
  split
  · exact .pure .refl
  · rename_i id hid
    refine .look_bind (.look_bind ?_)
    split
    · exact .pure .refl
    · rename_i hable
      obtain ⟨r, hrow, rfl⟩ := (ht.inOrder h).exists_row (Handle.id?_eq_some_iff.1 hid) hready.live
      have hprimary : (t.rules.capabilities (t.handle h).kind).primary = true := by
        simp only [Bool.or_eq_true, not_or, Bool.not_eq_true, Bool.not_eq_false'] at hable
        exact hable.1
      refine .change_bind (Follows.ends_from ?_ ht (hc ht hready hrow hprimary))
      exact .bind (follows_emit hn _ _ nofun) fun _ => .pure _

/-! ## Moving -/

/-- A variable gets another address, and the listener is told. The premise is about the table at
which the row is written, with the handle refreshed, since whether the move stays on the course may
depend on what lies at the address then. -/
theorem ends_setAddress (hn : Heeds c notify) (ht : t.Sound) (h : HandleId) (a : Address)
    (hmove : ∀ t₁ r b, t.Refreshed h (.ok ()) t₁ → (t₁.handle h).row = some r →
      t₁.rules.movable (t₁.handle h).kind = true → t₁.store.backend.Puts { r with address := a } b →
      c.rel t (t₁.written h { r with address := a } b)) :
    Ends t (setAddress notify h a) fun _ t' => c.rel t t' := by
  refine .current ht h (fun _ => .refl) (fun _ _ hr => hr.rel ht) fun t₁ hr => .look_bind (.look_bind ?_)
  have hrel : c.rel t t₁ := hr.rel ht
  split
  · exact .fail hrel
  · rename_i hmovable
    rw [Bool.not_eq_true, Bool.not_eq_false'] at hmovable
    split
    · exact .pure hrel
    · refine .seq (ends_write (hrel.sound ht) h (fun r b hrow hputs => .ok ?_) fun _ => hrel)
      exact Follows.ends_from (follows_emit hn _ _ nofun) ht (hmove t₁ r b hr hrow hmovable hputs)

/-- A symbol is moved along with a block, stored or derived, and nobody is told. There are two
premises, one for stored symbols and one for derived ones. What stays where it is needs neither. -/
theorem ends_relocate (ht : t.Sound) (h : HandleId) (oldBase newBase : Address)
    (hmove : ∀ t₁ t₂, t.Refreshed h (.ok ()) t₁ →
      (t₁.handle h).address.relocated oldBase newBase ≠ (t₁.handle h).address →
      t₁.Readdressed h ((t₁.handle h).address.relocated oldBase newBase) t₂ → c.rel t t₂)
    (hderived : ∀ a, (t.handle h).isDerived = true →
      (t.handle h).address.relocated oldBase newBase = a → a ≠ (t.handle h).address →
      c.rel t (t.transferred h a)) :
    Ends t (relocate h oldBase newBase : Action σ _) fun _ t' => c.rel t t' := by
  refine .current ht h (fun _ => .refl) (fun _ _ hr => hr.rel ht) fun t₁ hr => .look_bind ?_
  have hrel : c.rel t t₁ := hr.rel ht
  dsimp only
  split
  · exact .pure hrel
  · rename_i hmoves
    split
    · rename_i hisDerived
      rw [hr.isDerived_eq] at hisDerived
      obtain rfl := hr.eq_of_row_eq_none (Handle.isDerived_iff.1 hisDerived).1
      exact .change_bind (.change (hderived _ hisDerived rfl hmoves))
    · have ht₁ := hrel.sound ht
      refine .seq (ends_write ht₁ h (fun r b hrow hputs => .ok ?_) fun _ => hrel)
      have hid : (t₁.handle h).id? = some r.id :=
        Handle.id?_eq_some_iff.2 ((ht₁.inOrder h).key r hrow)
      rw [hid]
      have hmoved := hmove t₁ _ hr hmoves (.along hrow hputs)
      rw [Table.movePrimary_eq] at hmoved
      refine .change_bind (.change ?_)
      rw [Table.movePrimary_eq]
      exact hmoved

end SymbolTable.Action
