import SymbolTable.Proofs.Action.Keeping
import SymbolTable.Proofs.Coherence

/-!
# Lists of members

The members of a scope are listed with the modification count at which they were listed, and the
list is used as long as the count is the same. As with the copies of handles, this is right as long
as the count has not come round: a list is never newer than the store, and where it is as new it
lists the rows of the scope (`Table.Listed`). Only what keeps up handles makes lists, so it is
enough that a list is right when it is made (`Listed.relisted`), and that whatever changes rows
counts it (`Listed.of_precedes`).

Rows may change behind the table's back, but nobody else lists members, and who puts a row puts one
that stands for a kind. Then all rows go on to stand for kinds, and the lists stay right
(`Walk.catalogued`).
-/

namespace SymbolTable

open SymbolTable.Action
open Table (Path Step upkeep)

variable {σ : Type} {t t' : Table} {may : Deed → Prop} {notify : Listener σ} {h : HandleId}

namespace Table

/-! ## Lists that are right -/

/-- The list of the members of a scope is not newer than the store, and where it is as new it is how
they are listed now. -/
def Listed (t : Table) : Prop :=
  ∀ scope n ids, t.members.get? scope = some (n, ids) →
    n.toNat ≤ t.writes ∧ (n.toNat = t.writes → ids = t.memberIds scope)

namespace Listed

variable (hl : t.Listed)

include hl

/-- A list that is made now is right. It has the count of the store and lists what the store says
now. The other lists are as they were. -/
theorem relisted (scope : Scope) : (t.relisted scope).Listed := by
  intro scope' n ids hget
  have hget : (t.members.insert scope (t.store.modificationCount, t.memberIds scope)).get? scope' =
    some (n, ids) := hget
  rw [Dict.get?_insert] at hget
  split at hget
  · rename_i heq
    cases hget
    rw [heq]
    exact ⟨Nat.le_trans (Nat.le_of_eq UInt64.toNat_ofNat) (Nat.mod_le _ _), fun _ => rfl⟩
  · exact hl scope' n ids hget

/-- What changes rows counts it, so a list that is as new as the store is right. A list that is
older than that says nothing about the rows any more, so it may be wrong without harm. -/
theorem of_precedes (hle : t.Precedes t') (hs : t.Sound) (hs' : t'.Sound)
    (hmembers : t'.members = t.members) : t'.Listed := by
  intro scope n ids hget
  rw [hmembers] at hget
  obtain ⟨hseen, hids⟩ := hl scope n ids hget
  have hwrites_le := hle.writes_le
  refine ⟨Nat.le_trans hseen hwrites_le, fun heq => ?_⟩
  have hwrites : t'.writes = t.writes := by omega
  rw [memberIds, hle.rows_eq hs hs' hwrites]
  exact hids (heq.trans hwrites)

/-- Lists stay right on the way if they are the same at the end of it. -/
theorem of_path (hpath : Path may t t') (hs : t.Sound) (hmembers : t'.members = t.members) : t'.Listed :=
  hl.of_precedes (hpath.precedes hs) hs (hpath.sound hs) hmembers

end Listed

/-- Rows stand for kinds, and the lists of members are right. -/
structure Catalogued (t : Table) : Prop where
  kinds : ∀ r ∈ t.rows, ∃ k, r.kind? = some k
  listed : t.Listed

/-- Upkeep keeps the lists right: they are the same, or one of them is made anew. In the first case
it is `Listed.of_precedes`, as no row has changed, and in the second `Listed.relisted`. -/
theorem Catalogued.tended (hc : t.Catalogued) (hs : t.Sound) (htended : t.Tended t') : t'.Catalogued := by
  have hpath : Path upkeep t t' := .single htended.stride.step
  refine ⟨hpath.kinds not_false hs hc.kinds, ?_⟩
  rcases htended.members with hmembers | ⟨scope, hmembers⟩
  · exact hc.listed.of_path hpath hs hmembers
  · -- the list that is made is one of the table before, whose rows are the same
    have hs₁ : (t.relisted scope).Sound := ⟨hs.backend, hs.inOrder⟩
    have hle : (t.relisted scope).Precedes t' := .of_backend (congrArg Store.backend hpath.upkeep.1)
    exact (hc.listed.relisted scope).of_precedes hle hs₁ (hpath.sound hs) hmembers

/-- In a table that has just been opened there are no rows and no lists. So none of them could be
wrong. -/
theorem IsNew.catalogued {rules : Rules} (hnew : t.IsNew rules) : t.Catalogued := by
  refine ⟨fun r hr => ?_, fun scope n ids hget => ?_⟩
  · rw [hnew.rows_eq] at hr
    cases hr
  · cases hnew <;> cases hget

/-! ## Who makes no lists -/

/-- To claim an address lists nothing. -/
theorem members_claimPrimary (t : Table) (a : Address) (id : SymbolId) (k : Kind) :
    (t.claimPrimary a id k).members = t.members := by
  rw [claimPrimary_eq]

/-- To store a fresh row lists nothing. The list of its scope is out of date then, which its count
shows. -/
theorem members_withFresh (t : Table) (row : Row) (b : Store.Backend) :
    (t.withFresh row b).members = t.members := by
  unfold withFresh dropDerived
  split <;> rfl

/-- To write a row lists nothing, in whichever way it is written. -/
theorem Written.members_eq {into : Scope → Prop} (hw : t.Written into t') : t'.members = t.members := by
  cases hw with
  | draw | edit => rfl
  | promote => exact members_claimPrimary ..

/-- To store a symbol lists nothing. -/
theorem Created.members_eq (hc : t.Created t') : t'.members = t.members := by
  cases hc with
  | draw => rfl
  | insert | create => exact (members_claimPrimary ..).trans (members_withFresh ..)

/-- To give a symbol another address lists nothing. -/
theorem Readdressed.members_eq {a : Address} (hr : t.Readdressed h a t') : t'.members = t.members := by
  cases hr with
  | alone => rfl
  | along => rw [movePrimary_eq]; rfl

/-- To take a row out lists nothing. -/
theorem Removal.members_eq {r : Row} (hr : t.Removal h r t') : t'.members = t.members := by
  cases hr <;> rfl

end Table

/-! ## The course of the catalogue -/

/-- The course on which rows go on to stand for kinds, and lists stay right. -/
def Course.catalogue : Course :=
  .maintaining Table.Catalogued fun _ _ hs htended hc => hc.tended hs htended

namespace Course

/-- Who changes no row behind the table's back and makes no list stays on the course. -/
theorem catalogue_of_path (hpath : Path may t t') (hintrude : ¬ may .intrude)
    (hmembers : t'.members = t.members) : catalogue.rel t t' :=
  maintaining_of_path hpath fun hs hc =>
    ⟨hpath.kinds hintrude hs hc.kinds, hc.listed.of_path hpath hs hmembers⟩

/-- What changes neither rows nor lists is on the course. Designations and references are no part of
it. -/
theorem catalogue_of_beside (hbeside : t.Beside t') (hmembers : t'.members = t.members) :
    catalogue.rel t t' :=
  catalogue_of_path (.single (.aside hbeside) : Path upkeep t t') not_false hmembers

/-- It does not matter on this course what is noted and told. -/
theorem deaf_catalogue : catalogue.Deaf :=
  fun _ _ _ hbeside _ hmembers => catalogue_of_beside hbeside hmembers

/-- To designate a symbol changes neither rows nor lists. -/
theorem catalogue_designates : catalogue.Designates :=
  fun _ _ _ _ => catalogue_of_beside ⟨rfl, rfl, rfl, rfl, rfl, rfl⟩ rfl

/-- Rows may be written on this course, since every write counts. -/
theorem catalogue_writes : catalogue.Writes where
  write _ _ _ hw := catalogue_of_path hw.claimed.path nofun hw.members_eq
  create _ hc := catalogue_of_path hc.claimed.path nofun hc.members_eq
  note := deaf_catalogue.notes

/-- Rows may be taken out on this course, for the same reason. -/
theorem catalogue_removes : catalogue.Removes where
  deaf := deaf_catalogue
  mark {t} h deleting _ := by
    have hpath : Path (Eq .remove) t (t.updateHandle h fun s => { s with deleting := deleting }) :=
      .single (.mark rfl h deleting)
    exact catalogue_of_path hpath nofun rfl
  removal _ _ _ hrel hkey hremoval :=
    hrel.trans (catalogue_of_path (hremoval.path hkey) nofun hremoval.members_eq)

/-- Symbols may get another address on this course: their rows keep their kinds, and the write
counts. -/
theorem catalogue_allows_readdress : catalogue.Allows .readdress :=
  fun _ _ _ _ _ _ hmoved => catalogue_of_path hmoved.path nofun hmoved.members_eq

/-- A derived symbol may be moved on this course, for it has no row. -/
theorem catalogue_allows_relocate : catalogue.Allows .relocate := by
  intro t h a _ hready hrow
  have hpath : Path (Eq .relocate) t (t.transferred h a) := Table.path_transferred rfl hready.live hrow
  exact catalogue_of_path hpath nofun rfl

/-- A row that stands for a kind may be put behind the table's back. The lists of members get out of
date by it, which the count of the store tells. -/
theorem catalogue_of_puts {r : Row} {b : Store.Backend} (hk : ∃ k, r.kind? = some k)
    (hputs : t.store.backend.Puts r b) : catalogue.rel t (t.withBackend b) := by
  have hpath : Path (Eq .intrude) t (t.withBackend b) := .single (.intrudePut rfl hputs)
  refine maintaining_of_path hpath fun hs hc => ⟨fun x hx => ?_, hc.listed.of_path hpath hs rfl⟩
  rcases (hputs.mem_rows x).1 hx with rfl | ⟨hx, -⟩
  · exact hk
  · exact hc.kinds x hx

/-- A row may be taken out behind the table's back. All rows that are left were there before. -/
theorem catalogue_of_removes {id : SymbolId} {b : Store.Backend} (hremoves : t.store.backend.Removes id b) :
    catalogue.rel t (t.withBackend b) := by
  have hpath : Path (Eq .intrude) t (t.withBackend b) := .single (.intrudeTake rfl hremoves)
  refine maintaining_of_path hpath fun hs hc => ⟨fun x hx => ?_, hc.listed.of_path hpath hs rfl⟩
  exact hc.kinds x ((hremoves.mem_rows x).1 hx).1

end Course

/-! ## Walks -/

/-- A move that puts no row but of a kind, and that moves no derived symbol. -/
def Move.Tracked (t : Table) : Move → Prop
  | .put r => ∃ k, r.kind? = some k
  | .edit h (.relocate _ _) => (t.handle h).isDerived = false
  | _ => True

/-- Moves, one after the other, and between them changes of what stands around. Nobody but the table
lists members, and the listener of a move does what a walk does. -/
inductive Walk : Situated σ → Situated σ → Prop where
  | refl {s : Situated σ} : Walk s s
  | drift {s s₁ s₂ : Situated σ} (hrun : Walk s s₁) (hdrifts : s₁.table.Drifts s₂.table)
      (hmembers : s₂.table.members = s₁.table.members) : Walk s s₂
  | move {s s₁ : Situated σ} {notify : Listener σ} {m : Move} (hrun : Walk s s₁)
      (hm : m.Tracked s₁.table) (hnotify : ∀ e x, Walk x (notify e x)) :
      Walk s ((m.action notify).run s₁).2

namespace Move.Tracked

variable {m : Move}

/-- A move of this kind may do every deed but to move a derived symbol. The rows that are put behind
the table's back are on this course by the condition on their kind. -/
theorem permitted (hm : m.Tracked t) : m.Permitted (· ≠ .relocate) t := by
  cases m with
  | create | put | take => exact nofun
  | query | search => trivial
  | edit h e =>
    refine ⟨?_, fun oldBase newBase he hderived => ?_⟩
    · rintro _ hd rfl
      cases e <;> cases hd
    · subst he
      cases hderived.symm.trans hm

/-- A move of this kind stays on the course, whatever a listener does that does the same. Rows that
are put or taken out behind the table's back have their own lemmas, and all other moves follow the
course by their deeds. -/
theorem ends_catalogue (hm : m.Tracked t) (hn : Heeds .catalogue notify) (ht : t.Sound) :
    Ends t (m.action notify) fun _ t' => Course.catalogue.rel t t' := by
  by_cases hthrough : m.goesThrough
  · refine Move.ends_rel hn Course.catalogue_designates ht ?_
    exact .of_goesThrough hthrough Course.catalogue_writes (fun _ _ => Course.catalogue_removes)
      (fun _ _ _ _ => Course.catalogue_allows_readdress) fun _ _ _ _ _ => Course.catalogue_allows_relocate
  · cases m with
    | put r => exact .putRow ht.backend (fun _ => Course.catalogue_of_puts hm) fun _ => .refl
    | take id =>
      exact Ends.rel_map (.takeRow ht.backend (fun _ => Course.catalogue_of_removes) fun _ _ => .refl)
    | _ => exact absurd trivial hthrough

end Move.Tracked

namespace Walk

variable {s s' s₀ : Situated σ}

/-- A listener that does nothing does what a walk does. -/
theorem idle (e : Event) (s : Situated σ) : Walk s (Listener.idle e s) :=
  .refl

/-- A walk is a run. So what is known of runs holds of walks, whether they are nested or not. -/
theorem runs (hwalk : Walk s s') (nested : Bool) : Runs (fun _ t m => m.Tracked t) nested s s' := by
  induction hwalk generalizing nested with
  | refl => exact .refl
  | drift _ hdrifts _ ih => exact .drift (ih nested) hdrifts
  | move _ hm _ ih ihnotify => exact .move (ih nested) hm fun e x => ihnotify e x true

/-- A walk moves no derived symbol. -/
theorem path (hwalk : Walk s s') (hs : s.table.Sound) : Path (· ≠ .relocate) s.table s'.table :=
  (hwalk.runs false).path nofun (fun _ _ _ => Move.Tracked.permitted) hs

/-- A walk stays on the course, from every sound table. The induction is on the walk, listeners
included. This is where it matters that nobody but the table lists members. -/
theorem rel (hwalk : Walk s s') (hs : s.table.Sound) : Course.catalogue.rel s.table s'.table := by
  induction hwalk with
  | refl => exact .refl
  | drift _ hdrifts hmembers ih =>
    have hpath : Path (Eq .plan) _ _ := hdrifts.path rfl
    exact (ih hs).trans (Course.catalogue_of_path hpath nofun hmembers)
  | move _ hm _ ih ihnotify =>
    have hrel := ih hs
    have hheeds := Heeds.of_deaf Course.deaf_catalogue ihnotify
    exact hrel.trans (hm.ends_catalogue hheeds (hrel.sound hs) _ rfl)

/-- Since the table was opened, all rows have come to stand for kinds, and all lists are right. -/
theorem catalogued {rules : Rules} (hnew : s₀.table.IsNew rules) (hwalk : Walk s₀ s) :
    s.table.Catalogued :=
  Course.rel.maintains (hwalk.rel hnew.sound) hnew.sound hnew.catalogued

end Walk

end SymbolTable
