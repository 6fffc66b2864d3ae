import SymbolTable.Action.Perform
import SymbolTable.Proofs.Action.Removal
import SymbolTable.Proofs.Action.Renaming
import SymbolTable.Proofs.Table.Exact

/-!
# Runs

A run is what can happen to a table from the moment that it is opened: moves, one after the other,
and between them changes of what stands around the rows and the handles. A move is made with a
listener, and what the listener does when it is told of a change is itself a run, nested in the
move. So a listener may make moves of its own in the middle of every action, and listeners of these
moves may do so again.

`Runs allowed` are the runs of allowed moves. A run stays on every course on which its moves stay
(`Runs.rel`), so it leads along steps of the deeds that its moves may do (`Runs.path`). Outages may
begin whenever a listener is called, and then no row changes any more until the run ends. So what
holds of the rows at the ends of all runs holds of them in the middle of all moves, too.
-/

namespace SymbolTable

open SymbolTable.Action
open Table (Path Step)

variable {σ : Type} {may : Deed → Prop} {c : Course}

/-! ## Moves -/

/-- A search for symbols, for the path of a scope, or for what stands against a parent or a name. -/
inductive Search where
  | symbol (id : SymbolId)
  | symbolsAt (a : Address)
  | symbolsIn (scope : Scope)
  | allSymbols
  | derivedAt (a : Address)
  | primaryAt (a : Address)
  | scopePath (scope : Scope)
  | parent (k : Kind) (scope : Scope)
  | duplicate (a : Address) (name : String) (scope : Scope) (k : Kind) (except? : Option SymbolId)
  deriving DecidableEq

/-- What can be done with a table. A comparison of two symbols does no more than the queries that it
makes, and what else can be asked of a table does not touch it. -/
inductive Move where
  | create (draft : Draft)
  | edit (h : HandleId) (e : Edit)
  | query (h : HandleId) (q : Query)
  | search (what : Search)
  /-- Puts a row into the store behind the table's back. -/
  | put (r : Row)
  /-- Takes a row out of the store behind the table's back. -/
  | take (id : SymbolId)
  deriving DecidableEq

/-- The action that a search is. -/
def Search.action : Search → Action σ Unit
  | .symbol id => discard (lookup id)
  | .symbolsAt a => discard (Action.symbolsAt a)
  | .symbolsIn scope => discard (Action.symbolsIn scope)
  | .allSymbols => discard Action.allSymbols
  | .derivedAt a => discard (Action.derivedAt a)
  | .primaryAt a => discard (Action.primaryAt a)
  | .scopePath scope => discard (Action.scopePath scope)
  | .parent k scope => discard (acceptsParent k scope)
  | .duplicate a name scope k except? => checkDuplicate a name scope k except?

/-- The action that a move is. -/
def Move.action (notify : Listener σ) : Move → Action σ Unit
  | .create draft => discard (Action.create notify draft)
  | .edit h e => discard (perform notify h e)
  | .query h q => discard (answer h q)
  | .search what => what.action
  | .put r => putRow r
  | .take id => discard (takeRow id)

/-! ## Runs -/

/-- Moves, one after the other, of those that are allowed, which may depend on whether the run is
nested in a move. -/
inductive Runs (allowed : (nested : Bool) → Table → Move → Prop) :
    (nested : Bool) → Situated σ → Situated σ → Prop where
  | refl {nested : Bool} {s : Situated σ} : Runs allowed nested s s
  | drift {nested : Bool} {s s₁ s₂ : Situated σ} (hrun : Runs allowed nested s s₁)
      (hdrifts : s₁.table.Drifts s₂.table) : Runs allowed nested s s₂
  /-- The listener of a move does what a nested run does. -/
  | move {nested : Bool} {s s₁ : Situated σ} {notify : Listener σ} {m : Move}
      (hrun : Runs allowed nested s s₁) (hallowed : allowed nested s₁.table m)
      (hnotify : ∀ e x, Runs allowed true x (notify e x)) :
      Runs allowed nested s ((m.action notify).run s₁).2

/-- The listener that does nothing. -/
def Listener.idle : Listener σ := fun _ s => s

/-- The listener that does nothing makes a run of no moves. So the general theorems, which quantify
over listeners, speak of moves without a listener, too. -/
theorem Runs.idle {allowed : Bool → Table → Move → Prop} (e : Event) (s : Situated σ) :
    Runs allowed true s (Listener.idle e s) :=
  .refl

namespace Table

variable {settings : Settings} {rules : Rules} {store : Store} {observed : Bool}

/-- A table that has just been opened is sound if its store is, for it has no handles. -/
theorem sound_ofStore (hb : store.backend.Sound) : (ofStore settings rules store observed).Sound := by
  refine ⟨hb, fun k => ?_⟩
  show Handle.absent.InOrder
  exact .of_deleted rfl rfl

/-- A table that has just been opened is exact, whatever rows its store has, as long as their ids
were drawn: there are no handles yet that could say anything else. -/
theorem exact_ofStore
    (hdrawn : ∀ r ∈ store.backend.rows, r.id.val.toNat ≤ (ofStore settings rules store observed).drawn) :
    (ofStore settings rules store observed).Exact := by
  refine ⟨fun key k => ?_, hdrawn, fun k => ?_⟩
  · show Dict.empty.get? key = some k ↔ Handle.absent.deleted = false ∧ _
    simp [Handle.absent, Handle.derived]
  · have hkey (id : SymbolId) : Handle.absent.key ≠ .stored id := Key.noConfusion
    exact .of_derived hkey rfl

end Table

/-- A table that has just been opened, over an empty store of either kind. -/
inductive Table.IsNew (rules : Rules) : Table → Prop where
  | memory (settings : Settings) (outages : Store.Outages) (observed : Bool) :
      IsNew rules (ofStore settings rules ⟨.memory .empty, outages⟩ observed)
  | indexed (settings : Settings) (outages : Store.Outages) (observed : Bool) :
      IsNew rules (ofStore settings rules ⟨.indexed .empty, outages⟩ observed)

namespace Table.IsNew

variable {rules : Rules} {t : Table}

/-- A table that has just been opened has no handles: each is the one that stands for none. -/
theorem handle_eq (h : IsNew rules t) (k : HandleId) : t.handle k = Handle.absent := by
  cases h <;> rfl

/-- The pool of a table that has just been opened finds nothing under any key. -/
theorem pool_eq (h : IsNew rules t) (key : Key) : t.pool.get? key = none := by
  cases h <;> rfl

/-- There are no rows, since the store is empty. -/
theorem rows_eq (h : IsNew rules t) : t.rows = [] := by
  cases h <;> rfl

/-- The rules are those with which the table was opened. -/
theorem rules_eq (h : IsNew rules t) : t.rules = rules := by
  cases h <;> rfl

/-- A table that has just been opened is open. -/
theorem closed_eq (h : IsNew rules t) : t.closed = false := by
  cases h <;> rfl

/-- Nobody is designated in a table that has just been opened. -/
theorem facts_eq (h : IsNew rules t) : t.facts = .empty := by
  cases h <;> rfl

/-- The listener has been told nothing yet. -/
theorem log_eq (h : IsNew rules t) : t.log = [] := by
  cases h <;> rfl

/-- Nothing has been noted yet. -/
theorem journal_eq (h : IsNew rules t) : t.journal = .empty := by
  cases h <;> rfl

/-- There are no references yet. -/
theorem references_eq (h : IsNew rules t) : t.references = .empty := by
  cases h <;> rfl

/-- A table that has just been opened is sound. This is where every run begins. -/
theorem sound (h : IsNew rules t) : t.Sound := by
  cases h with
  | memory => exact sound_ofStore Store.Backend.sound_memory
  | indexed => exact sound_ofStore Store.Backend.sound_indexed

/-- A table that has just been opened is exact. The induction along steps goes on from here. -/
theorem exact (h : IsNew rules t) : t.Exact := by
  cases h <;> exact exact_ofStore nofun

end Table.IsNew

/-! ## The steps of a run -/

/-- The deed that an edit is, if it is one. -/
def Edit.deed? : Edit → Option Deed
  | .setPrimary => none
  | .delete => some .remove
  | .setAddress _ | .relocate _ _ => some .readdress
  | _ => some .write

/-- An edit after which the symbol is in its place: neither its scope nor its address is another. -/
def Edit.InPlace : Edit → Prop
  | .rename .. | .setScope _ | .setAddress _ | .relocate .. | .delete => False
  | _ => True

/-- The address to which an edit moves a symbol that lies at `a`. -/
def Edit.destination? (a : Address) : Edit → Option Address
  | .setAddress b => some b
  | .relocate oldBase newBase => some (a.relocated oldBase newBase)
  | _ => none

/-- What a move may do is allowed. -/
def Move.Permitted (may : Deed → Prop) (t : Table) : Move → Prop
  | .create _ => may .write
  | .edit h e => (∀ d, e.deed? = some d → may d) ∧
      ∀ oldBase newBase, e = .relocate oldBase newBase → (t.handle h).isDerived = true →
        may .relocate
  | .query _ _ | .search _ => True
  | .put _ | .take _ => may .intrude

/-- What is permitted is still so if more deeds are allowed. There is one case for each move, since
each asks for deeds of its own. -/
theorem Move.Permitted.mono {may' : Deed → Prop} {t : Table} {m : Move} (hm : m.Permitted may t)
    (hmay : ∀ d, may d → may' d) : m.Permitted may' t := by
  cases m with
  | create => exact hmay _ hm
  | edit h e =>
    exact ⟨fun d hd => hmay d (hm.1 d hd), fun old new he hderived => hmay _ (hm.2 old new he hderived)⟩
  | query | search => trivial
  | put | take => exact hmay _ hm

/-- If every deed is allowed, every move is permitted. This is the case of a run of which nothing is
asked. -/
theorem Move.Permitted.of_forall {t : Table} (hmay : ∀ d, may d) (m : Move) : m.Permitted may t := by
  cases m with
  | create | put | take => exact hmay _
  | edit => exact ⟨fun d _ => hmay d, fun _ _ _ _ => hmay _⟩
  | query | search => trivial

/-- No move plans outages. So in a run of moves the outages stay as they were planned at the
beginning. -/
theorem Move.permitted_ne_plan (t : Table) (m : Move) : m.Permitted (· ≠ .plan) t := by
  cases m with
  | create | put | take => exact nofun
  | edit h e =>
    refine ⟨?_, fun _ _ _ _ => nofun⟩
    rintro _ hd rfl
    cases e <;> cases hd
  | query | search => trivial

/-- A move that goes through the table. -/
def Move.goesThrough : Move → Prop
  | .put _ | .take _ => False
  | _ => True

/-- A move through the table is permitted if the deeds that it may be are allowed. Each premise is
about one sort of move, and most of them are void for a given one. -/
theorem Move.Permitted.of_goesThrough {t : Table} {m : Move} (hm : m.goesThrough)
    (hwrite : may .write) (hremove : ∀ h, m = .edit h .delete → may .remove)
    (hreaddress : ∀ h e, m = .edit h e → e.deed? = some .readdress → may .readdress)
    (hrelocate : ∀ h oldBase newBase, m = .edit h (.relocate oldBase newBase) →
      (t.handle h).isDerived = true → may .relocate) : m.Permitted may t := by
  cases m with
  | create => exact hwrite
  | edit h e =>
    refine ⟨fun d hd => ?_, fun oldBase newBase he hderived => ?_⟩
    · cases e with
      | setAddress | relocate =>
        cases hd
        exact hreaddress h _ rfl rfl
      | setPrimary => cases hd
      | delete =>
        cases hd
        exact hremove h rfl
      | _ =>
        cases hd
        exact hwrite
    · exact hrelocate h oldBase newBase (by rw [he]) hderived
  | query | search => trivial
  | put | take => exact hm.elim

/-- A search keeps up handles and does nothing else, so it follows every course. Searches are asked
from outside like queries, but they are about no symbol in particular. -/
theorem Search.follows (what : Search) : Follows c (what.action : Action σ Unit) := by
  cases what with
  | symbol id => exact .map (follows_lookup id)
  | symbolsAt a => exact .map (follows_symbolsAt a)
  | symbolsIn scope => exact .map (follows_symbolsIn scope)
  | allSymbols => exact .map follows_allSymbols
  | derivedAt a => exact .map (follows_derivedAt a)
  | primaryAt a => exact .map (follows_primaryAt a)
  | scopePath scope => exact .of_reads (reads_scopePath scope).map
  | parent k scope => exact .of_reads (reads_acceptsParent k scope).map
  | duplicate a name scope k except? => exact .of_reads (reads_checkDuplicate a name scope k except?)

section
variable {t t' : Table} {notify : Listener σ}

/-- An edit that leaves a symbol in its place follows a course on which rows are written in place.
Names and scopes are left out, and so are addresses and deletions. Every course on which
designations may be given and rows be written in place takes them. -/
theorem follows_perform_inPlace (hn : Heeds c notify) (hdesignates : c.Designates) (hnote : c.Notes)
    (hc : c.WritesInto fun _ => False) (h : HandleId) {e : Edit} (he : e.InPlace) :
    Follows c (perform notify h e) := by
  cases e with
  | setProvenance p => exact .map (follows_setProvenance hn hc h p)
  | setPinned pinned => exact .map (follows_setPinned hn hc h pinned)
  | setName name p => exact .map (follows_setName hn hnote hc h name p)
  | setData1 value => exact .map (follows_setData1 hn hc h value)
  | setData2 value => exact .map (follows_setData2 hn hc h value)
  | setData3 value => exact .map (follows_setData3 hn hc h value)
  | setPrimary => exact .map (follows_setPrimary hn hdesignates h)
  | rename | setScope | setAddress | relocate | delete => exact he.elim

/-- An edit that gives no symbol another address follows a course that allows its deed. Deeds are
what courses allow. The two edits that give another address are dealt with where it is known to
which. -/
theorem follows_perform (hn : Heeds c notify) (hdesignates : c.Designates) (h : HandleId) (e : Edit)
    (hdeed : ∀ d, e.deed? = some d → c.Allows d) (hne : e.deed? ≠ some .readdress) :
    Follows c (perform notify h e) := by
  cases e with
  | rename name scope p => exact .map (follows_rename hn (hdeed _ rfl) h name scope p)
  | setScope scope => exact .map (follows_setScope hn (hdeed _ rfl) h scope)
  | setAddress | relocate => exact absurd rfl hne
  | setPrimary => exact .map (follows_setPrimary hn hdesignates h)
  | delete => exact .map (follows_delete hn (hdeed _ rfl) h)
  | setProvenance | setPinned | setName | setData1 | setData2 | setData3 =>
    have hc : c.Writes := hdeed _ rfl
    exact follows_perform_inPlace hn hdesignates hc.note hc.inPlace h trivial

/-- A course does not depend on what is made of the answer. -/
theorem Ends.rel_map {α β : Type} {a : Action σ α} {f : α → β}
    (h : Ends t a fun _ t' => c.rel t t') : Ends t (f <$> a) fun _ t' => c.rel t t' :=
  .map h (fun _ _ hrel => hrel) fun _ _ hrel => hrel

/-- A move that is permitted stays on a course that allows its deeds. There is one case for each
move. For those that do something only if the table is so and so, `Permitted` asks for the deed only
then. -/
theorem Move.ends_rel (hn : Heeds c notify) (hdesignates : c.Designates) (ht : t.Sound) {m : Move}
    (hm : m.Permitted c.Allows t) : Ends t (m.action notify) fun _ t' => c.rel t t' := by
  cases m with
  | create draft => exact Follows.map (follows_create hn hm draft) t ht
  | edit h e =>
    obtain ⟨hdeed, hderived⟩ := hm
    cases e with
    | setAddress a =>
      refine Ends.rel_map (Ends.rel_map (ends_setAddress hn ht h a fun t₁ r b hr hrow hk hputs => ?_))
      have hmoved : t₁.Readdressed h a (t₁.written h { r with address := a } b) := .alone hrow hk hputs
      exact (hr.rel ht).trans (hdeed .readdress rfl t₁ _ h _ (hr.path.sound ht) hr.isReady hmoved)
    | relocate old new =>
      refine Ends.rel_map (Ends.rel_map (ends_relocate ht h old new (fun t₁ t₂ hr _ hmoved => ?_)
        fun a hisDerived _ _ => ?_))
      · exact (hr.rel ht).trans (hdeed .readdress rfl t₁ t₂ h _ (hr.path.sound ht) hr.isReady hmoved)
      · obtain ⟨hrow, hlive⟩ := Handle.isDerived_iff.1 hisDerived
        exact hderived old new rfl hisDerived t h a ht ⟨hlive, .inl hrow⟩ hrow
    | _ => exact Follows.map (follows_perform hn hdesignates h _ hdeed nofun) t ht
  | query h q => exact Follows.map (follows_answer h q) t ht
  | search what => exact what.follows t ht
  | put r =>
    exact .putRow ht.backend (fun b hputs => hm t _ ht (.intrudePut rfl hputs)) fun _ => .refl
  | take id =>
    exact Ends.rel_map (.takeRow ht.backend (fun b hremoves => hm t _ ht (.intrudeTake rfl hremoves))
      fun _ _ => .refl)

/-- A move that is permitted leads along steps of the deeds that are allowed. -/
theorem Move.ends (hn : Heeds (.steps may) notify) (ht : t.Sound) {m : Move}
    (hm : m.Permitted may t) : Ends t (m.action notify) fun _ t' => Path may t t' :=
  ends_rel hn Course.designates_steps ht (hm.mono fun _ => Course.allows_steps)

/-- A run stays on a course if changes of what stands around and the moves that are allowed do, the
latter with listeners that stay on it. -/
theorem Runs.rel {allowed : Bool → Table → Move → Prop} (hplan : c.Allows .plan)
    (hmove : ∀ (nested : Bool) (t : Table) (m : Move) (notify : Listener σ), allowed nested t m →
      Heeds c notify → t.Sound → Ends t (m.action notify) fun _ t' => c.rel t t')
    {nested : Bool} {s s' : Situated σ} (h : Runs allowed nested s s') (hs : s.table.Sound) :
    c.rel s.table s'.table := by
  induction h with
  | refl => exact .refl
  | drift _ hdrifts ih => exact (ih hs).trans (hplan _ _ ((ih hs).sound hs) hdrifts)
  | move _ hm _ ih ihnotify =>
    have hrel := ih hs
    have hheeds := Heeds.of_deaf (Course.Aloof.of_allows_plan hplan).deaf ihnotify
    exact hrel.trans (hmove _ _ _ _ hm hheeds (hrel.sound hs) _ rfl)

/-- A run leads along steps of the deeds that its moves may do. So every fact about paths is one
about runs. -/
theorem Runs.path {allowed : Bool → Table → Move → Prop} (hplan : may .plan)
    (hallowed : ∀ nested t m, allowed nested t m → m.Permitted may t) {nested : Bool}
    {s s' : Situated σ} (h : Runs allowed nested s s') (hs : s.table.Sound) :
    Path may s.table s'.table :=
  h.rel (c := .steps may) (Course.allows_steps hplan)
    (fun nested t m _ hm hn ht => Move.ends hn ht (hallowed nested t m hm)) hs

/-- Whichever moves are allowed, a run leads along steps. -/
theorem Runs.steps {allowed : Bool → Table → Move → Prop} {nested : Bool} {s s' : Situated σ}
    (h : Runs allowed nested s s') (hs : s.table.Sound) : Path (fun _ => True) s.table s'.table :=
  h.path trivial (fun _ _ m _ => .of_forall (fun _ => trivial) m) hs

/-- Nothing that happens in a run changes the rules or the settings of a table, or closes it. -/
theorem Runs.sameFrame {allowed : Bool → Table → Move → Prop} {nested : Bool} {s s' : Situated σ}
    (h : Runs allowed nested s s') (hs : s.table.Sound) : s.table.SameFrame s'.table :=
  (h.steps hs).sameFrame

/-- Nothing closes a table in a run, so one that was opened is open at the end. -/
theorem Runs.opened {rules : Rules} {allowed : Bool → Table → Move → Prop} {nested : Bool} {s₀ s : Situated σ}
    (h : Runs allowed nested s₀ s) (hnew : s₀.table.IsNew rules) : s.table.closed = false :=
  (h.sameFrame hnew.sound).closed.trans hnew.closed_eq

/-- What holds at first, and is kept by changes of what stands around and by every move that is
allowed, holds at the end of a run. The listeners of the moves do what nested runs do. -/
theorem Runs.preserves {allowed : Bool → Table → Move → Prop} {I : Table → Prop}
    (hdrift : ∀ t t' : Table, t.Drifts t' → I t → I t')
    (hmove : ∀ (t : Table) (m : Move) (notify : Listener σ), allowed false t m →
      (∀ e x, Runs allowed true x (notify e x)) → I t → Ends t (m.action notify) fun _ t' => I t')
    {s s' : Situated σ} (h : Runs allowed false s s') (hs : I s.table) : I s'.table := by
  generalize hnested : false = nested at h
  induction h with
  | refl => exact hs
  | drift _ hdrifts ih => exact hdrift _ _ hdrifts (ih hs hnested)
  | @move nested s s₁ notify m _ hm hnotify ih ihnotify =>
    subst hnested
    exact hmove s₁.table m notify hm hnotify (ih hs rfl) s₁ rfl

end

end SymbolTable
