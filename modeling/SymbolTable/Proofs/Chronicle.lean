import SymbolTable.Proofs.Run

/-!
# Chronicles

A chronicle is a run whose listeners log every change before they act on it. Between the moves, what
stands around the rows and the handles may change, but not the designations, the journal or the log.
So from the log and the journal at the end it can be told what happened on the way, in the middle of
moves, too.

A chronicle is a run (`Chronicle.runs`), and it stays on every course on which its moves stay, if
changes may be logged on it (`Chronicle.rel`).
-/

namespace SymbolTable

open SymbolTable.Action
open Table (Path)

variable {σ : Type} {c : Course} {allowed : (nested : Bool) → Table → Move → Prop} {nested : Bool}
  {s s₁ s' : Situated σ}

/-- Neither the rows nor the handles change, nor what is designated, noted or told. -/
structure Table.Still (t t' : Table) : Prop where
  beside : t.Beside t'
  facts : t'.facts = t.facts
  journal : t'.journal = t.journal
  log : t'.log = t.log

/-- A table to which nothing happens is still. -/
theorem Table.Still.refl (t : Table) : t.Still t :=
  ⟨⟨rfl, rfl, rfl, rfl, rfl, rfl⟩, rfl, rfl, rfl⟩

/-- A table that is still twice is still over both. -/
theorem Table.Still.trans {t₁ t₂ t₃ : Table} (h : t₁.Still t₂) (h' : t₂.Still t₃) : t₁.Still t₃ where
  beside := ⟨h'.beside.store.trans h.beside.store, h'.beside.handles.trans h.beside.handles,
    h'.beside.pool.trans h.beside.pool, h'.beside.settings.trans h.beside.settings,
    h'.beside.rules.trans h.beside.rules, h'.beside.closed.trans h.beside.closed⟩
  facts := h'.facts.trans h.facts
  journal := h'.journal.trans h.journal
  log := h'.log.trans h.log

/-- On a course on which changes may be logged, a table may be still. It is no more than what the
surroundings may do. -/
theorem Course.rel.of_still {t t' : Table} (hlogs : c.Logs) (hs : t.Sound) (hstill : t.Still t') :
    c.rel t t' := by
  have hcited : Table.Sound { t with references := t'.references, members := t'.members } :=
    ⟨hs.backend, hs.inOrder⟩
  have hbeside := hstill.beside
  exact (hlogs.cite t'.references t'.members hs).trans (c.keepsUp hcited (.aside
    ⟨hbeside.store, hbeside.handles, hbeside.pool, hbeside.settings, hbeside.rules, hbeside.closed⟩
    hstill.facts hstill.journal hstill.log rfl rfl))

/-- A change was logged. -/
def Situated.logged (s : Situated σ) (e : Event) : Situated σ :=
  { s with table := s.table.logged e }

/-- The listener that logs what it is told, and does nothing else. -/
def Listener.recorder : Listener σ := fun e s => s.logged e

/-- The listener logs what it is told, and leaves the table alone otherwise. -/
def Listener.Records (notify : Listener σ) : Prop :=
  ∀ (e : Event) (s : Situated σ), (s.logged e).table.Still (notify e s).table

/-- The listener that only logs is one of those that record. -/
theorem Listener.records_recorder : (recorder : Listener σ).Records :=
  fun e s => .refl (s.logged e).table

/-- On a course on which changes may be logged, they may be recorded. A listener that only records
logs the change and leaves the table still, and a course of this kind takes both. -/
theorem Listener.Records.heeds {notify : Listener σ} (hrecords : notify.Records) (hlogs : c.Logs) :
    Heeds c notify := by
  have hstill (e : Event) (s : Situated σ) (hs : s.table.Sound) :
      c.rel (s.table.logged e) (notify e s).table :=
    .of_still hlogs ⟨hs.backend, hs.inOrder⟩ (hrecords e s)
  exact ⟨fun e s hs hchange => (hlogs.log hs hchange).trans (hstill e s hs), fun e s hs _ => hstill e s hs⟩

/-- Moves, one after the other, of those that are allowed, with listeners that log what they are
told. -/
inductive Chronicle (allowed : (nested : Bool) → Table → Move → Prop) :
    (nested : Bool) → Situated σ → Situated σ → Prop where
  | refl {nested : Bool} {s : Situated σ} : Chronicle allowed nested s s
  | still {nested : Bool} {s s₁ s₂ : Situated σ} (hrun : Chronicle allowed nested s s₁)
      (hstill : s₁.table.Still s₂.table) : Chronicle allowed nested s s₂
  /-- Once a change is logged, the listener of a move does what a nested chronicle does. -/
  | move {nested : Bool} {s s₁ : Situated σ} {notify : Listener σ} {m : Move}
      (hrun : Chronicle allowed nested s s₁) (hallowed : allowed nested s₁.table m)
      (hnotify : ∀ e x, Chronicle allowed true (x.logged e) (notify e x)) :
      Chronicle allowed nested s ((m.action notify).run s₁).2

/-- The listener that only logs makes no moves, so what it does is a chronicle. -/
theorem Chronicle.recorder (e : Event) (s : Situated σ) :
    Chronicle allowed true (s.logged e) (Listener.recorder e s) :=
  .refl

/-- A run goes on where another one ended. The induction is on the second run. -/
theorem Runs.trans (h : Runs allowed nested s s₁) (h' : Runs allowed nested s₁ s') :
    Runs allowed nested s s' := by
  induction h' with
  | refl => exact h
  | drift _ hdrifts ih => exact .drift (ih h) hdrifts
  | move _ hallowed hnotify ih => exact .move (ih h) hallowed hnotify

namespace Chronicle

/-- A chronicle is a run, whose listeners happen to log first. So what is known of runs is known of
chronicles. The induction is on the chronicle, with another one for what listeners do in a move. -/
theorem runs (h : Chronicle allowed nested s s') : Runs allowed nested s s' := by
  induction h with
  | refl => exact .refl
  | still _ hstill ih => exact .drift ih hstill.beside.drifts
  | @move nested s s₁ notify m _ hallowed _ ih ihnotify =>
    refine .move ih hallowed fun e x => ?_
    have hlogged : x.table.Drifts (x.logged e).table := ⟨rfl, rfl, rfl, rfl, rfl, rfl⟩
    exact Runs.trans (.drift .refl hlogged) (ihnotify e x)

/-- A chronicle stays on a course on which changes may be logged if the moves that are allowed do,
with listeners that stay on it. -/
theorem rel (hlogs : c.Logs)
    (hmove : ∀ (nested : Bool) (t : Table) (m : Move) (notify : Listener σ), allowed nested t m →
      Heeds c notify → t.Sound → Ends t (m.action notify) fun _ t' => c.rel t t')
    (h : Chronicle allowed nested s s') (hs : s.table.Sound) : c.rel s.table s'.table := by
  induction h with
  | refl => exact .refl
  | still _ hstill ih =>
    have hrel := ih hs
    exact hrel.trans (.of_still hlogs (hrel.sound hs) hstill)
  | @move nested s s₁ notify m _ hallowed _ ih ihnotify =>
    have hrel := ih hs
    have hheeds : Heeds c notify := by
      refine ⟨fun e x hx hchange => ?_, fun e x hx _ => ihnotify e x ⟨hx.backend, hx.inOrder⟩⟩
      exact (hlogs.log hx hchange).trans (ihnotify e x ⟨hx.backend, hx.inOrder⟩)
    exact hrel.trans (hmove _ _ _ _ hallowed hheeds (hrel.sound hs) _ rfl)

/-- No outage is planned in a chronicle, and rows are changed through moves alone. -/
theorem path {may : Deed → Prop} (hallowed : ∀ nested t m, allowed nested t m → m.Permitted may t)
    (h : Chronicle allowed nested s s') (hs : s.table.Sound) : Path may s.table s'.table :=
  h.rel (c := .steps may) Course.aloof_steps.logs
    (fun nested t m _ hm hn ht => Move.ends hn ht (hallowed nested t m hm)) hs

/-- The store works throughout a chronicle. -/
theorem works (h : Chronicle allowed nested s s') (hs : s.table.Sound) (hworks : s.table.store.Works) :
    s'.table.store.Works :=
  (h.path (fun _ t m _ => m.permitted_ne_plan t) hs).works (fun hplan => hplan rfl) hworks

/-! ## Chronicles that listeners do not disturb -/

section
variable (hnone : ∀ t m, ¬ allowed true t m)

include hnone

/-- Where listeners may make no moves, they leave the table alone. The chronicle of a listener may
be still or make a move, and no move is allowed in it. -/
theorem still_of_nested (h : Chronicle allowed true s s') : s.table.Still s'.table := by
  generalize hnested : true = nested at h
  induction h with
  | refl => exact .refl _
  | still _ hstill ih => exact (ih hnested).trans hstill
  | move _ hallowed =>
    subst hnested
    exact absurd hallowed (hnone _ _)

/-- What holds at first, and is kept by what stands around and by every move that is allowed, with a
listener that only records it, holds at the end of the chronicle. -/
theorem preserves {I : Table → Prop} (hstill : ∀ t t' : Table, t.Still t' → I t → I t')
    (hmove : ∀ (t : Table) (m : Move) (notify : Listener σ), allowed false t m → notify.Records → I t →
      Ends t (m.action notify) fun _ t' => I t')
    (h : Chronicle allowed false s s') (hs : I s.table) : I s'.table := by
  generalize hnested : false = nested at h
  induction h with
  | refl => exact hs
  | still _ hst ih => exact hstill _ _ hst (ih hs hnested)
  | @move nested s s₁ notify m _ hm hnotify ih =>
    subst hnested
    have hrecords : notify.Records := fun e x => (hnotify e x).still_of_nested hnone
    exact hmove s₁.table m notify hm hrecords (ih hs rfl) s₁ rfl

end

end Chronicle

end SymbolTable
