import SymbolTable.Proofs.Action.Course
import SymbolTable.Proofs.Table.Exact

/-!
# Courses that keep an invariant

An invariant may hold of exact tables only, and as long as ids remain. What keeps it is then a
course of its own (`Course.keeping`): the steps of some deeds, at the end of which a table that was
exact before is exact, and the invariant holds if it did. So an action that follows the course keeps
the invariant in every part of it, and what was shown of all courses is shown of every invariant.
Where the invariant needs neither, it is enough that each step keeps it (`Course.maintaining`).
-/

namespace SymbolTable

open Table (Path Step upkeep)

variable {t t' : Table} {may may' : Deed → Prop} {I : Table → Prop}

namespace Table

/-- The pool finds no symbol for the address. -/
def Underived (t : Table) (a : Address) : Prop :=
  t.pool.get? (.derived a) = none

instance (t : Table) (a : Address) : Decidable (t.Underived a) :=
  inferInstanceAs (Decidable (t.pool.get? (.derived a) = none))

/-- A derived symbol goes to an address for which no other is found. The handle gets the key for the
new address, which nobody has. The keys of the others are as they were. -/
theorem Exact.transferred {h : HandleId} {a : Address} (he : t.Exact) (hs : t.Sound)
    (hlive : (t.handle h).deleted = false) (hrow : (t.handle h).row = none) (hfree : t.Underived a) :
    (t.transferred h a).Exact := by
  have hpooled := he.pooled.rekey (f := (·.relocated a)) hlive rfl hlive hfree
    (t.journal.moveAddress (t.handle h).address a)
  rw [((hs.inOrder h).derived hlive hrow).1] at hpooled
  refine he.of_mirrors rfl hpooled fun k => ?_
  exact forall_updateHandle he.mirrors (f := (·.relocated a)) (.of_derived nofun hrow) k

/-- Exact tables with an invariant go over into such tables, until ids run out. -/
def Keeps (I : Table → Prop) (t t' : Table) : Prop :=
  t.Sound → t'.drawn < UInt64.size - 1 → t.Exact → I t → t'.Exact ∧ I t'

namespace Keeps

/-- What is kept over two stretches is kept over both. This is what makes an invariant a course. The
ids that remain at the end remained in between. -/
theorem trans {t₁ t₂ t₃ : Table} (hpath : Path may t₁ t₂) (hpath' : Path may' t₂ t₃)
    (h : Keeps I t₁ t₂) (h' : Keeps I t₂ t₃) : Keeps I t₁ t₃ := by
  intro hs hlt he hI
  have hs₂ := hpath.sound hs
  obtain ⟨he₂, hI₂⟩ := h hs (Nat.lt_of_le_of_lt (hpath'.drawn_le hs₂) hlt) he hI
  exact h' hs₂ hlt he₂ hI₂

/-- Derived symbols stay where they are, and rows are changed through the table alone. -/
theorem of_path (hpath : Path may t t') (hrelocate : ¬ may .relocate) (hintrude : ¬ may .intrude)
    (hkeep : t.Sound → t'.drawn < UInt64.size - 1 → t.Exact → I t → I t') : Keeps I t t' :=
  fun hs hlt he hI => ⟨hpath.exact hrelocate hintrude hs (fun _ => hlt) he, hkeep hs hlt he hI⟩

end Keeps

end Table

/-- The steps of some deeds that keep tables exact and an invariant, which upkeep keeps. -/
def Course.keeping (may : Deed → Prop) (I : Table → Prop)
    (hupkeep : ∀ t t' : Table, t.Sound → t.Exact → t.Stride upkeep t' → I t → I t') : Course where
  rel t t' := Path may t t' ∧ Table.Keeps I t t'
  refl _ := ⟨.refl, fun _ _ he hI => ⟨he, hI⟩⟩
  trans h h' := ⟨h.1.trans h'.1, .trans h.1 h'.1 h.2 h'.2⟩
  path h := h.1.mono fun _ _ => trivial
  keepsUp _ htended :=
    have hpath : Path upkeep _ _ := .single htended.stride.step
    ⟨hpath.mono fun _ => False.elim,
      .of_path hpath not_false not_false fun hs _ he => hupkeep _ _ hs he htended.stride⟩

namespace Course

variable {hupkeep : ∀ t t' : Table, t.Sound → t.Exact → t.Stride upkeep t' → I t → I t'}

/-- Steps of deeds that are allowed are on the course if the invariant is kept at the end of
them. -/
theorem keeping_of_path (hmay : ∀ d, may' d → may d) (hpath : Path may' t t')
    (hrelocate : ¬ may' .relocate) (hintrude : ¬ may' .intrude)
    (hkeep : t.Sound → t'.drawn < UInt64.size - 1 → t.Exact → I t → I t') :
    (keeping may I hupkeep).rel t t' :=
  ⟨hpath.mono hmay, .of_path hpath hrelocate hintrude hkeep⟩

/-- What stands around the rows and the handles may change as the invariant allows. -/
theorem keeping_of_beside (hbeside : t.Beside t') (hkeep : t.Sound → t.Exact → I t → I t') :
    (keeping may I hupkeep).rel t t' := by
  have hpath : Path upkeep t t' := .single (.aside hbeside)
  exact keeping_of_path (fun _ => False.elim) hpath not_false not_false fun hs _ he => hkeep hs he

/-- On a course that keeps an invariant, an invariant that holds goes on. -/
theorem rel.keeps (h : (keeping may I hupkeep).rel t t') (hs : t.Sound)
    (hlt : t'.drawn < UInt64.size - 1) (he : t.Exact) (hI : I t) : t'.Exact ∧ I t' :=
  h.2 hs hlt he hI

end Course

/-! ## Invariants of sound tables -/

/-- The steps that keep an invariant that needs no more than sound tables. -/
def Course.maintaining (I : Table → Prop)
    (hupkeep : ∀ t t' : Table, t.Sound → t.Tended t' → I t → I t') : Course where
  rel t t' := Path (fun _ => True) t t' ∧ (t.Sound → I t → I t')
  refl _ := ⟨.refl, fun _ hI => hI⟩
  trans h h' := ⟨h.1.trans h'.1, fun hs hI => h'.2 (h.1.sound hs) (h.2 hs hI)⟩
  path h := h.1
  keepsUp {t t'} _ htended :=
    ⟨.single (htended.stride.step.mono fun _ => False.elim), fun hs => hupkeep t t' hs htended⟩

namespace Course

variable {hupkeep : ∀ t t' : Table, t.Sound → t.Tended t' → I t → I t'}

/-- Steps are on the course if the invariant is kept at the end of them. -/
theorem maintaining_of_path (hpath : Path may t t') (hkeep : t.Sound → I t → I t') :
    (maintaining I hupkeep).rel t t' :=
  ⟨hpath.mono fun _ _ => trivial, hkeep⟩

/-- On a course that maintains an invariant, an invariant that holds goes on. -/
theorem rel.maintains (h : (maintaining I hupkeep).rel t t') (hs : t.Sound) (hI : I t) : I t' :=
  h.2 hs hI

end Course

/-! ## Guarantees

What listeners may do in the middle of an action cannot always be said of the table at one moment. A
guarantee says of a table what the tables may be to which it leads. -/

/-- The steps that keep tables exact and an invariant, and under which a guarantee is given. -/
def Course.assuring (I : Table → Prop) (G : Table → Table → Prop) (hrefl : ∀ t, G t t)
    (htrans : ∀ t₁ t₂ t₃, G t₁ t₂ → G t₂ t₃ → G t₁ t₃)
    (hupkeep : ∀ t t' : Table, t.Sound → t.Exact → t.Tended t' → I t → I t' ∧ G t t') : Course where
  rel t t' := Path (fun _ => True) t t' ∧
    (t.Sound → t'.drawn < UInt64.size - 1 → t.Exact → I t → t'.Exact ∧ I t' ∧ G t t')
  refl t := ⟨.refl, fun _ _ he hI => ⟨he, hI, hrefl t⟩⟩
  trans h h' := by
    refine ⟨h.1.trans h'.1, fun hs hlt he hI => ?_⟩
    have hs₂ := h.1.sound hs
    obtain ⟨he₂, hI₂, hG⟩ := h.2 hs (Nat.lt_of_le_of_lt (h'.1.drawn_le hs₂) hlt) he hI
    obtain ⟨he₃, hI₃, hG'⟩ := h'.2 hs₂ hlt he₂ hI₂
    exact ⟨he₃, hI₃, htrans _ _ _ hG hG'⟩
  path h := h.1
  keepsUp {t t'} _ htended := by
    have hpath : Path upkeep t t' := .single htended.stride.step
    refine ⟨hpath.mono fun _ => False.elim, fun hs _ he hI => ?_⟩
    exact ⟨hpath.exact not_false not_false hs False.elim he, hupkeep t t' hs he htended hI⟩

/-- Steps that keep tables exact are on the course if the invariant is kept and the guarantee is
given. Since nothing is relocated and nobody intrudes, exactness is kept by the steps, and `hkeep`
may use it. -/
theorem Course.assuring_of_path {G : Table → Table → Prop} {hrefl : ∀ t, G t t}
    {htrans : ∀ t₁ t₂ t₃, G t₁ t₂ → G t₂ t₃ → G t₁ t₃}
    {hupkeep : ∀ t t' : Table, t.Sound → t.Exact → t.Tended t' → I t → I t' ∧ G t t'}
    (hpath : Path may t t') (hrelocate : ¬ may .relocate) (hintrude : ¬ may .intrude)
    (hkeep : t.Sound → t'.drawn < UInt64.size - 1 → t.Exact → I t → I t' ∧ G t t') :
    (assuring I G hrefl htrans hupkeep).rel t t' :=
  ⟨hpath.mono fun _ _ => trivial, fun hs hlt he hI =>
    ⟨hpath.exact hrelocate hintrude hs (fun _ => hlt) he, hkeep hs hlt he hI⟩⟩

end SymbolTable
