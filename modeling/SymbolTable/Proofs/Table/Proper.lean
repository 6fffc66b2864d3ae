import SymbolTable.Proofs.Row.Flags
import SymbolTable.Proofs.Table.Step

/-!
# Proper rows

What the rules and the settings want of the row of a symbol: whether it may do without a name, and
else what its name may be, whether it may be pinned, which bits of its flags are clear
(`Table.Proper`), and where it may lie (`Table.Placed`). A name and a provenance are checked
together before they are written (`Table.Vetted`).

An edit does not change the row that is stored but the copy of it that the handle has, and it cannot
be taken for granted that this is the stored row. So what is to be shown of all rows is shown of the
copies along with them (`Table.Everywhere`). A step keeps it if the rows that it stores have it
(`Everywhere.of_step`), for every copy comes from a row (`Step.copied`).
-/

namespace SymbolTable

/-! ## Names that pass the check -/

namespace Name

variable {name : String} {limit : Nat}

/-- The names that may be chosen. A name in the form of a derived one is among those that may not be
chosen, which keeps chosen and derived names apart. -/
theorem check_eq_ok_iff : check name limit = .ok () ↔ name ≠ "" ∧ name.toList.length ≤ limit ∧
    (∀ c ∈ name.toList, Text.isBlank c = false ∧ Text.isControl c = false) ∧
      isDerivedForm name = false := by
  have hempty : name.toList.isEmpty = true ↔ name = "" := by
    rw [List.isEmpty_iff, String.toList_eq_nil_iff]
  have hall : name.toList.find? isForbidden = none ↔
      ∀ c ∈ name.toList, Text.isBlank c = false ∧ Text.isControl c = false := by
    simp [List.find?_eq_none, isForbidden]
  rw [← hall, ← Nat.not_lt, ← Bool.not_eq_true, ne_eq, ← hempty]
  unfold check
  split
  · simp_all
  · split
    · simp_all
    · cases name.toList.find? isForbidden with
      | some c => simp
      | none => cases isDerivedForm name <;> simp_all

/-- A name that passes the check is not empty. -/
theorem ne_empty_of_check (h : check name limit = .ok ()) : name ≠ "" :=
  (check_eq_ok_iff.1 h).1

end Name

namespace Row

variable (r : Row)

/-- To write a provenance leaves the pinned mark as it was. The rank has no bit in common with it,
and the mask lets it through. -/
@[simp] theorem isPinned_withProvenance (p : Provenance) : (r.withProvenance p).isPinned = r.isPinned := by
  have hapart : p.rank &&& pinnedBit = 0 := by cases p <;> decide
  have hwithin : ~~~provenanceBits &&& pinnedBit = pinnedBit := by decide
  show decide ((r.flags &&& ~~~provenanceBits ||| p.rank) &&& pinnedBit ≠ 0) = _
  rw [or_and, UInt8.and_assoc, hwithin, hapart, UInt8.or_zero, isPinned]

variable {r} {p : Provenance}

/-- The flags of a fresh row hold its provenance and nothing else. A rank has neither the pinned bit
nor one of those that are reserved. -/
theorem marks_of_flags (h : r.flags = p.rank) :
    r.provenance = p ∧ r.isPinned = false ∧ r.flags &&& reservedBits = 0 := by
  have hpinned : p.rank &&& pinnedBit = 0 := by cases p <;> decide
  have hreserved : p.rank &&& reservedBits = 0 := by cases p <;> decide
  rw [provenance, isPinned, h]
  exact ⟨ofBits_rank_and p, decide_eq_false (not_not.2 hpinned), hreserved⟩

end Row

namespace Table

variable {t t' : Table} {may : Deed → Prop} {k : Kind} {r r' : Row} {a : Address} {name : String}
  {p : Provenance}

/-! ## What is wanted of a row -/

/-- The row of a symbol of this kind has the name, the marks and the flags that it may have. -/
structure Proper (t : Table) (k : Kind) (r : Row) : Prop where
  unnamed : r.provenance = .default → r.name = "" ∧ (t.rules.capabilities k).unnamed = true
  named : r.provenance ≠ .default → Name.check r.name t.settings.maxNameLength = .ok ()
  pinned : r.isPinned = true → t.rules.pinnable k = true
  reserved : r.flags &&& Row.reservedBits = 0

/-- The row of a symbol of this kind lies where it may lie: in memory if the symbol is named after
its address, and nowhere if symbols of the kind have no place. -/
structure Placed (t : Table) (k : Kind) (r : Row) : Prop where
  memory : r.provenance = .default → (t.rules.capabilities k).stem?.isSome = true → r.address.isMemory = true
  nowhere : (t.rules.capabilities k).located = false → r.address = .nowhere

/-- A symbol of this kind that lies at `a` may have the name and the provenance. -/
structure Vetted (t : Table) (k : Kind) (a : Address) (name : String) (p : Provenance) : Prop where
  unnamed : p = .default → name = "" ∧ (t.rules.capabilities k).unnamed = true ∧
    ((t.rules.capabilities k).stem?.isSome = true → a.isMemory = true)
  named : p ≠ .default → Name.check name t.settings.maxNameLength = .ok ()

/-- If the row of a symbol of this kind was as it should be, it still is when it has been edited. -/
structure Retains (t : Table) (k : Kind) (r r' : Row) : Prop where
  proper : t.Proper k r → t.Proper k r'
  placed : t.Placed k r → t.Placed k r'

/-- In a proper row no name stands where the name follows from something else, and nowhere else is
one missing. -/
theorem Proper.name_eq_empty_iff (h : t.Proper k r) : r.name = "" ↔ r.provenance = .default := by
  constructor
  · intro hname
    by_contra hne
    exact Name.ne_empty_of_check (h.named hne) hname
  · exact fun hdefault => (h.unnamed hdefault).1

/-- Whether a row is proper depends on the rules and the settings of the table, which do not
change. -/
theorem Proper.congr (h : t.Proper k r) (hframe : t.SameFrame t') : t'.Proper k r := by
  obtain ⟨hunnamed, hnamed, hpinned, hreserved⟩ := h
  rw [← hframe.rules] at hunnamed hpinned
  rw [← hframe.settings] at hnamed
  exact ⟨hunnamed, hnamed, hpinned, hreserved⟩

/-- Whether a row lies in its place depends on the rules of the table, which do not change. -/
theorem Placed.congr (h : t.Placed k r) (hframe : t.SameFrame t') : t'.Placed k r := by
  obtain ⟨hmemory, hnowhere⟩ := h
  rw [← hframe.rules] at hmemory hnowhere
  exact ⟨hmemory, hnowhere⟩

/-- Whether a name and a provenance are vetted depends on the rules and the settings, so what was
checked at one table counts at a later one. -/
theorem Vetted.congr (h : t.Vetted k a name p) (hframe : t.SameFrame t') : t'.Vetted k a name p := by
  obtain ⟨hunnamed, hnamed⟩ := h
  rw [← hframe.rules] at hunnamed
  rw [← hframe.settings] at hnamed
  exact ⟨hunnamed, hnamed⟩

/-! ## What passes the checks -/

/-- A name that is chosen passes the check. The table refuses with an input that is wrong where the
check finds a cause. -/
theorem check_of_checkName (h : t.checkName name = .ok ()) :
    Name.check name t.settings.maxNameLength = .ok () := by
  unfold checkName at h
  cases hcheck : Name.check name t.settings.maxNameLength with
  | ok => rfl
  | error cause =>
    rw [hcheck] at h
    cases h

/-- A symbol that passes the check may do without a name. The second part is about symbols whose
derived name has a stem, which are called after their address and so have to lie in memory. -/
theorem unnamed_of_checkProvenance (h : t.checkProvenance name a k .default = .ok ()) :
    (t.rules.capabilities k).unnamed = true ∧
      ((t.rules.capabilities k).stem?.isSome = true → a.isMemory = true) := by
  unfold checkProvenance at h
  dsimp only at h
  rw [if_pos rfl] at h
  split at h
  · cases h
  · rename_i hunnamed
    split at h
    · cases h
    · rename_i hplace
      simp_all

/-- A name and a provenance that pass the checks, where a symbol that does without a name is stored
without one. -/
theorem Vetted.of_checks (hprovenance : t.checkProvenance name a k p = .ok ())
    (hname : p ≠ .default → t.checkName name = .ok ()) :
    t.Vetted k a (if p = .default then "" else name) p := by
  by_cases hp : p = .default
  · subst hp
    refine ⟨fun _ => ⟨if_pos rfl, unnamed_of_checkProvenance hprovenance⟩, fun hne => absurd rfl hne⟩
  · refine ⟨fun hdefault => absurd hdefault hp, fun _ => ?_⟩
    rw [if_neg hp]
    exact check_of_checkName (hname hp)

/-- A fresh row is proper if its name and its provenance were checked. Whether it has a name follows
from the provenance, and its flags hold nothing else, so no reserved bit is set and it is not
pinned. -/
theorem Vetted.proper (h : t.Vetted k a name p) (hname : r.name = name) (hflags : r.flags = p.rank) :
    t.Proper k r := by
  obtain ⟨hprovenance, hpinned, hreserved⟩ := Row.marks_of_flags hflags
  refine ⟨fun hdefault => ?_, fun hne => ?_, fun htrue => ?_, hreserved⟩
  · obtain ⟨hempty, hunnamed, -⟩ := h.unnamed (hprovenance.symm.trans hdefault)
    exact ⟨hname.trans hempty, hunnamed⟩
  · rw [hname]
    exact h.named fun hp => hne (hprovenance.trans hp)
  · cases hpinned.symm.trans htrue

/-- A fresh row lies in its place if its name and its provenance were checked. -/
theorem Vetted.placed (h : t.Vetted k a name p) (haddress : r.address = a) (hprovenance : r.provenance = p)
    (hnowhere : (t.rules.capabilities k).located = false → a = .nowhere) : t.Placed k r := by
  subst haddress hprovenance
  exact ⟨fun hdefault => (h.unnamed hdefault).2.2, hnowhere⟩

/-! ## Edits -/

namespace Retains

/-- An edit that changes no name, no flags and no place. Data and scopes are edited this way.
Nothing that is wanted of the row is about them. -/
theorem of_eq (hname : r'.name = r.name) (hflags : r'.flags = r.flags) (haddress : r'.address = r.address) :
    t.Retains k r r' := by
  have hprovenance : r'.provenance = r.provenance := by rw [Row.provenance, hflags, Row.provenance]
  have hpinned : r'.isPinned = r.isPinned := by rw [Row.isPinned, hflags, Row.isPinned]
  refine ⟨fun h => ⟨?_, ?_, ?_, ?_⟩, fun h => ⟨?_, ?_⟩⟩
  · rw [hprovenance, hname]
    exact h.unnamed
  · rw [hprovenance, hname]
    exact h.named
  · rw [hpinned]
    exact h.pinned
  · rw [hflags]
    exact h.reserved
  · rw [hprovenance, haddress]
    exact h.memory
  · rw [haddress]
    exact h.nowhere

/-- A provenance that stands for a name is written in place of another one. The name is the same,
and it is one that may be chosen, as it was before. By this edit no name of its own comes or
goes. -/
theorem withProvenance (hold : r.provenance ≠ .default) (hnew : p ≠ .default) :
    t.Retains k r (r.withProvenance p) := by
  refine ⟨fun h => ⟨?_, fun _ => h.named hold, ?_, ?_⟩, fun h => ⟨?_, h.nowhere⟩⟩
  · rw [Row.provenance_withProvenance]
    exact fun hdefault => absurd hdefault hnew
  · rw [Row.isPinned_withProvenance]
    exact h.pinned
  · rw [Row.reserved_withProvenance]
    exact h.reserved
  · rw [Row.provenance_withProvenance]
    exact fun hdefault => absurd hdefault hnew

/-- Symbols that may be pinned stay proper when they are. The bit is one of those that may be set,
and the name and the provenance are as they were. -/
theorem withPinned (hpinnable : t.rules.pinnable k = true) (pinned : Bool) :
    t.Retains k r (r.withPinned pinned) := by
  refine ⟨fun h => ⟨?_, ?_, fun _ => hpinnable, ?_⟩, fun h => ⟨?_, h.nowhere⟩⟩
  · rw [Row.provenance_withPinned]
    exact h.unnamed
  · rw [Row.provenance_withPinned]
    exact h.named
  · rw [Row.reserved_withPinned]
    exact h.reserved
  · rw [Row.provenance_withPinned]
    exact h.memory

/-- A name and a provenance that were checked are written. This is what a rename does to a row. The
bits that are not of the provenance stay, which is why the row has to have been as it should be
before. -/
theorem apply {plan : Rename} (h : t.Vetted k r.address plan.name plan.provenance) :
    t.Retains k r (plan.apply r) := by
  have hprovenance : (plan.apply r).provenance = plan.provenance := Row.provenance_withProvenance ..
  have hpinned : (plan.apply r).isPinned = r.isPinned := Row.isPinned_withProvenance ..
  have hreserved : (plan.apply r).flags &&& Row.reservedBits = r.flags &&& Row.reservedBits :=
    Row.reserved_withProvenance ..
  refine ⟨fun hr => ⟨?_, ?_, ?_, ?_⟩, fun hr => ⟨?_, hr.nowhere⟩⟩
  · rw [hprovenance]
    intro hdefault
    obtain ⟨hempty, hunnamed, -⟩ := h.unnamed hdefault
    exact ⟨hempty, hunnamed⟩
  · rw [hprovenance]
    exact h.named
  · rw [hpinned]
    exact hr.pinned
  · rw [hreserved]
    exact hr.reserved
  · rw [hprovenance]
    exact fun hdefault => (h.unnamed hdefault).2.2

end Retains

/-- The address of a symbol makes no difference to whether its row is proper. -/
theorem Proper.readdressed (h : t.Proper k r) (a : Address) : t.Proper k { r with address := a } :=
  ⟨h.unnamed, h.named, h.pinned, h.reserved⟩

/-! ## Rows and copies -/

/-- Every row, and every copy of one that a handle has, is as a property of the rows of a kind wants
it. -/
structure Everywhere (P : Kind → Row → Prop) (t : Table) : Prop where
  rows : ∀ r ∈ t.rows, ∃ k, r.kind? = some k ∧ P k r
  copies : ∀ h r, (t.handle h).row = some r → P (t.handle h).kind r

/-- What holds of every row and every copy may be weakened. -/
theorem Everywhere.imp {P Q : Kind → Row → Prop} (he : t.Everywhere P) (hpq : ∀ k r, P k r → Q k r) :
    t.Everywhere Q :=
  ⟨fun r hr => (he.rows r hr).imp fun k hk => ⟨hk.1, hpq k r hk.2⟩, fun h r hrow =>
    hpq _ r (he.copies h r hrow)⟩

/-- Where one handle changes, each has the copy that it had, or what that one gets. So what is known
of copies has to be shown again for one handle only. -/
theorem of_row_updateHandle {h k : HandleId} {f : Handle → Handle} (hkind : ∀ s : Handle, (f s).kind = s.kind)
    (hrow : ((t.updateHandle k f).handle h).row = some r) :
    (t.handle h).row = some r ∧ ((t.updateHandle k f).handle h).kind = (t.handle h).kind ∨
      (f (t.handle k)).row = some r := by
  rw [map_updateHandle Handle.kind (hkind _)]
  rcases t.handle_updateHandle_or k f h with heq | ⟨rfl, heq⟩
  · exact .inl ⟨heq ▸ hrow, rfl⟩
  · exact .inr (heq ▸ hrow)

/-- A fresh row is stored, which gives no handle a copy. So what holds of all copies need not be
shown anew where a symbol is created: its copy is that of its row. -/
theorem of_row_withFresh {h : HandleId} {row : Row} {b : Store.Backend}
    (hrow : ((t.withFresh row b).handle h).row = some r) :
    (t.handle h).row = some r ∧ ((t.withFresh row b).handle h).kind = (t.handle h).kind := by
  rw [withFresh, handle_dropDerived] at hrow ⊢
  split at hrow
  · cases hrow
  · rename_i hpool
    rw [if_neg hpool]
    exact ⟨hrow, rfl⟩

/-- A handle has the copy that it had, or one of a row that was there before the step or is there
after it. The proof goes through the steps. A copy is only ever taken from the store, or of what is
being written. -/
theorem Step.copied (hstep : Step may t t') {h : HandleId} (hrow : (t'.handle h).row = some r) :
    (t.handle h).row = some r ∧ (t'.handle h).kind = (t.handle h).kind ∨ r ∈ t.rows ∨ r ∈ t'.rows := by
  cases hstep with
  | aside hbeside =>
    rw [hbeside.handle] at hrow ⊢
    exact .inl ⟨hrow, rfl⟩
  | plan | draw | intrudePut | intrudeTake => exact .inl ⟨hrow, rfl⟩
  | adopt s hpool hnew =>
    rw [handle_adopt] at hrow ⊢
    split at hrow
    · rcases hnew with ⟨id, x, hx, hofRow⟩ | ⟨a, rfl⟩
      · obtain ⟨_, -, rfl⟩ := Handle.eq_of_ofRow hofRow
        cases hrow
        exact .inr (.inl (mem_of_row? hx))
      · cases hrow
    · rename_i hne
      rw [if_neg hne]
      exact .inl ⟨hrow, rfl⟩
  | @refresh h₀ x x' _ _ _ hget =>
    refine (of_row_updateHandle (f := (·.refreshed x' _)) (fun _ => rfl) hrow).imp_right fun hnew => ?_
    cases hnew
    exact .inl (mem_of_row? hget)
  | vanish h₀ =>
    refine (of_row_updateHandle (f := (·.invalidated)) (fun _ => rfl) hrow).imp_right fun hnew => ?_
    cases hnew
  | insert => exact .inl (of_row_withFresh hrow)
  | @create _ _ row b s _ hstores _ hnew =>
    rw [handle_adopt] at hrow ⊢
    split at hrow
    · obtain ⟨_, -, rfl⟩ := Handle.eq_of_ofRow hnew
      cases hrow
      exact .inr (.inr (mem_of_row? hstores.row?_withFresh))
    · rename_i hne
      rw [if_neg hne]
      exact .inl (of_row_withFresh hrow)
  | @promote _ h₀ row b _ _ _ _ hstores =>
    refine (of_row_updateHandle (t := t) (f := (·.promoted row _)) (fun _ => rfl) hrow).imp_right fun hnew => ?_
    cases hnew
    exact .inr ((hstores.puts.mem_rows _).2 (.inl rfl))
  | @edit h₀ x x' b _ _ hputs =>
    refine (of_row_updateHandle (t := t) (f := (·.refreshed x' _)) (fun _ => rfl) hrow).imp_right fun hnew => ?_
    cases hnew
    exact .inr ((hputs.mem_rows _).2 (.inl rfl))
  | mark =>
    rw [map_updateHandle Handle.row rfl] at hrow
    exact .inl ⟨hrow, map_updateHandle Handle.kind rfl⟩
  | relocate _ h₀ a =>
    have hrow' : ((t.updateHandle h₀ (·.relocated a)).handle h).row = (t.handle h).row :=
      map_updateHandle Handle.row rfl
    have hkind : ((t.updateHandle h₀ (·.relocated a)).handle h).kind = (t.handle h).kind :=
      map_updateHandle Handle.kind rfl
    exact .inl ⟨hrow'.symm.trans hrow, hkind⟩
  | takeOut _ h₀ =>
    refine (of_row_updateHandle (t := t) (f := (·.invalidated)) (fun _ => rfl) hrow).imp_right fun hnew => ?_
    cases hnew

/-- What holds everywhere still does after a step if it holds of the rows that are new. So an
invariant of rows is checked where they are written, and for the copies nothing has to be shown. -/
theorem Everywhere.of_step {P : Kind → Row → Prop} (he : t.Everywhere P) (hs : t.Sound)
    (hstep : Step may t t') (hnew : ∀ r ∈ t'.rows, r ∈ t.rows ∨ ∃ k, r.kind? = some k ∧ P k r) :
    t'.Everywhere P := by
  have hrows : ∀ r ∈ t'.rows, ∃ k, r.kind? = some k ∧ P k r := fun r hr => (hnew r hr).elim (he.rows r) id
  refine ⟨hrows, fun h r hrow => ?_⟩
  have hkind : r.kind? = some (t'.handle h).kind :=
    Kind.ofTag?_eq_some_iff.2 (((hstep.sound hs).inOrder h).tag r hrow)
  have hof (hr : ∃ k, r.kind? = some k ∧ P k r) : P (t'.handle h).kind r := by
    obtain ⟨k, hk, hP⟩ := hr
    obtain rfl := Option.some.inj (hkind.symm.trans hk)
    exact hP
  rcases hstep.copied hrow with ⟨hcopy, hsame⟩ | hr | hr
  · rw [hsame]
    exact he.copies h r hcopy
  · exact hof (he.rows r hr)
  · exact hof (hrows r hr)

end Table

end SymbolTable
