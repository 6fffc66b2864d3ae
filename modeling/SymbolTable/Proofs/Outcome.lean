import SymbolTable.Proofs.Action.Showing
import SymbolTable.Proofs.Columns
import SymbolTable.Proofs.Removals

/-!
# What a move comes to

Where the store works and listeners only record, everything that a move may come to can be listed,
deletions apart: nothing is written; a symbol is stored; a row is edited and this is told; a symbol
is moved along with a block, of which nobody is told; or another symbol is designated
(`Table.Outcome`). Each outcome says what became of the rows, of the journal and of the log, so the
three can be compared.
-/

namespace SymbolTable

open SymbolTable.Action
open Table (Path Step upkeep)

variable {σ α β : Type} {t t₁ t₂ t' : Table} {notify : Listener σ} {h : HandleId} {id : SymbolId} {r : Row}

/-- It is told of a symbol that is there before the change and after it. -/
def Event.Lasting (e : Event) : Prop :=
  e.change.sort ≠ .added ∧ e.change.sort ≠ .removed

/-- A renamed symbol is there before and after. -/
theorem Event.Lasting.of_renamed {e : Event} (he : e.change.sort = .renamed) : e.Lasting := by
  constructor <;> rw [he] <;> nofun

namespace Table

/-! ## Telling and noting -/

/-- Handles were kept up, and the events were told and the entries noted. -/
structure Reports (t : Table) (es : List Event) (ns : List Journal.Entry) (t' : Table) : Prop where
  path : Path upkeep t t'
  facts : t'.facts = t.facts
  log : t'.log = t.log ++ es
  journal : t'.journal.entries = t.journal.entries ++ ns

namespace Reports

variable {es es' : List Event} {ns ns' : List Journal.Entry}

/-- What keeps up the handles reports nothing. The log and the journal are the same. -/
theorem of_upkept (hrel : Course.upkept.rel t t') : t.Reports [] [] t' where
  path := Course.path_of_upkept hrel
  facts := Course.facts_of_upkept hrel
  log := by rw [Course.log_of_upkept hrel, List.append_nil]
  journal := by rw [Course.journal_of_upkept hrel, List.append_nil]

/-- If nothing happens, nothing is reported. -/
theorem refl (t : Table) : t.Reports [] [] t :=
  of_upkept .refl

/-- Reports of two stretches are put one after the other, in the order in which the listener heard
them. -/
theorem trans (hr : t.Reports es ns t₁) (hr' : t₁.Reports es' ns' t₂) :
    t.Reports (es ++ es') (ns ++ ns') t₂ where
  path := hr.path.trans hr'.path
  facts := hr'.facts.trans hr.facts
  log := by rw [hr'.log, hr.log, List.append_assoc]
  journal := by rw [hr'.journal, hr.journal, List.append_assoc]

/-- An entry is noted. -/
theorem record (t : Table) (n : Journal.Entry) :
    t.Reports [] [n] { t with journal := t.journal.record n } :=
  ⟨.single (.aside ⟨rfl, rfl, rfl, rfl, rfl, rfl⟩), rfl, (List.append_nil _).symm, rfl⟩

/-- To report something does not change the rows: it comes when they are written. -/
theorem rows_eq (hr : t.Reports es ns t') : t'.rows = t.rows :=
  hr.path.rows_eq_of_upkeep

/-- Reports keep a table sound, since they are made along its steps. -/
theorem sound (hr : t.Reports es ns t') (hs : t.Sound) : t'.Sound :=
  hr.path.sound hs

end Reports

/-- It is told of a symbol that it is renamed or otherwise changed, and at most that it is renamed
is noted. -/
structure Announces (t : Table) (id : SymbolId) (t' : Table) : Prop where
  exists_reports : ∃ es ns, t.Reports es ns t' ∧ (∀ e ∈ es, e.Lasting) ∧ (∃ e ∈ es, e.key = .stored id) ∧
    ∀ n ∈ ns, n.action = .renamed ∧ n.key = .stored id

/-- If one change of a symbol is told, and the symbol is there before and after, it has been
announced. -/
theorem Reports.announces {e : Event} (hr : t.Reports [e] [] t') (hkey : e.key = .stored id)
    (hlasting : e.Lasting) : t.Announces id t' := by
  exact ⟨_, _, hr, List.forall_mem_singleton.2 hlasting, ⟨e, .head _, hkey⟩, List.forall_mem_nil _⟩

/-- Of other symbols it may be told before, as long as these are there before and after, too. So
borrowers are told of before the lender or after it. -/
theorem Announces.after {es : List Event} (hr : t.Reports es [] t₁) (hlasting : ∀ e ∈ es, e.Lasting)
    (ha : t₁.Announces id t') : t.Announces id t' := by
  obtain ⟨es', ns, hr', hlasting', ⟨e, he, hkey⟩, hns⟩ := ha
  exact ⟨_, _, hr.trans hr', fun x hx => (List.mem_append.1 hx).elim (hlasting x) (hlasting' x),
    ⟨e, List.mem_append_right _ he, hkey⟩, hns⟩

/-! ## Tables to be trusted -/

/-- The store works, and a copy of a row that is current is the row that is stored, however handles
are kept up. -/
structure Faithful (t : Table) : Prop where
  sound : t.Sound
  works : t.store.Works
  row?_eq : ∀ {t' : Table} {h : HandleId} {r : Row}, Path upkeep t t' → t'.IsReady h →
    (t'.handle h).row = some r → t'.row? r.id = some r

/-- A table that is faithful stays so while handles are kept up. -/
theorem Faithful.of_upkeep (ht : t.Faithful) (hpath : Path upkeep t t') : t'.Faithful := by
  refine ⟨hpath.sound ht.sound, ?_, fun hpath' => ht.row?_eq (hpath.trans hpath')⟩
  rw [hpath.upkeep.1]
  exact ht.works

/-- In a reliable table whose store works, copies are those of the rows that are stored. -/
theorem Reliable.faithful (ht : t.Reliable) (hworks : t.store.Works) : t.Faithful :=
  ⟨ht.sound, hworks, fun hpath hready hrow => (ht.of_upkeep hpath).row?_eq hready hrow⟩

/-- In an exact table every handle has the row that is stored, so it is faithful where the store
works. -/
theorem Exact.faithful (he : t.Exact) (hs : t.Sound) (hworks : t.store.Works) : t.Faithful :=
  ⟨hs, hworks, fun hpath _ hrow =>
    ((hpath.exact not_false not_false hs False.elim he).mirrors _).row _ hrow⟩

/-! ## Outcomes -/

/-- What a move may come to that is no deletion. Nobody is told of a symbol that is moved along with
a block, and `shifts` are these moves. -/
inductive Outcome (shifts : Row → Address → Prop) (t : Table) : Table → Prop where
  /-- Nothing is written, noted or told. -/
  | unwritten {t' : Table} (hunwritten : t.Unwritten t') : Outcome shifts t t'
  /-- A symbol is stored. -/
  | stored {t' : Table} {row : Row} {b : Store.Backend} (hstores : t.Stores row b)
      (hbackend : t'.store.backend = b) {es : List Event} (hlasting : ∀ e ∈ es, e.Lasting)
      (hlog : t'.log = t.log ++ ⟨.stored row.id, row.address, .added⟩ :: es) {j : Journal} (name : String)
      (hcarries : t.journal.Carries j)
      (hjournal : t'.journal.entries = j.entries ++ [⟨row.address, .stored row.id, .added, name⟩]) :
      Outcome shifts t t'
  /-- A row is edited. -/
  | edited {t₁ t' : Table} {r r' : Row} (hget : t.row? r.id = some r) (hid : r'.id = r.id)
      (hchanges : t.settings.maxDepth ≠ 0 → r' ≠ r) (hreplaces : t.Replaces r' t₁)
      (hunnoted : t.Unnoted t₁) (hannounces : t₁.Announces r.id t') : Outcome shifts t t'
  /-- A symbol is moved along with a block. -/
  | shifted {t' : Table} {r : Row} {a : Address} (hget : t.row? r.id = some r) (hmoves : a ≠ r.address)
      (hshifts : shifts r a) (hreplaces : t.Replaces { r with address := a } t') (hlog : t'.log = t.log)
      (hcarries : t.journal.Carries t'.journal) : Outcome shifts t t'
  /-- A derived symbol is moved along with a block. -/
  | transferred {t' : Table} (hrows : t'.rows = t.rows) (hlog : t'.log = t.log)
      (hcarries : t.journal.Carries t'.journal) : Outcome shifts t t'
  /-- Another symbol is designated. -/
  | designated {t' : Table} {a : Address} {e : Event} (hrows : t'.rows = t.rows)
      (hchanges : t'.facts.primaryAt a ≠ t.facts.primaryAt a) (hlasting : e.Lasting)
      (hlog : t'.log = t.log ++ [e]) (hjournal : t'.journal = t.journal) : Outcome shifts t t'

/-- What keeps up the handles writes nothing. So everything by which an outcome is told stays as it
was. -/
theorem Unwritten.of_upkept (hrel : Course.upkept.rel t t') : t.Unwritten t' where
  facts := Course.facts_of_upkept hrel
  references := Course.references_of_upkept hrel
  journal := Course.journal_of_upkept hrel
  log := Course.log_of_upkept hrel
  rows := (Course.path_of_upkept hrel).rows_eq_of_upkeep
  writes := congrArg Store.writes (Course.path_of_upkept hrel).upkeep.1

namespace Outcome

variable {shifts : Row → Address → Prop}

/-- What keeps up the handles comes to nothing. -/
theorem of_upkept (hrel : Course.upkept.rel t t') : t.Outcome shifts t' :=
  .unwritten (.of_upkept hrel)

/-- If nothing happens, it comes to nothing. -/
theorem refl (t : Table) : t.Outcome shifts t :=
  of_upkept .refl

/-- What handles are kept up for is no part of the outcome. So an action may be looked at from where
its handle was refreshed, and in each case of an outcome only the way that leads there gets
longer. -/
theorem after (hrel : Course.upkept.rel t t₁) (ho : t₁.Outcome shifts t') : t.Outcome shifts t' := by
  have hpath := Course.path_of_upkept hrel
  have hrows : t₁.rows = t.rows := hpath.rows_eq_of_upkeep
  have hlog₁ := Course.log_of_upkept hrel
  have hjournal₁ := Course.journal_of_upkept hrel
  cases ho with
  | unwritten hunwritten =>
    have hbefore := Unwritten.of_upkept hrel
    exact .unwritten ⟨hbefore.toUnnoted.trans hunwritten.toUnnoted, hunwritten.rows.trans hbefore.rows,
      hunwritten.writes.trans hbefore.writes⟩
  | stored hstores hbackend hlasting hlog name hcarries hjournal =>
    rw [hlog₁] at hlog
    rw [hjournal₁] at hcarries
    refine .stored ⟨?_, ?_, fun hnamed => (hstores.free hnamed).congr hrows.symm⟩ hbackend hlasting hlog
      name hcarries hjournal
    · exact hpath.upkeep.1 ▸ hstores.draws
    · exact hpath.upkeep.1 ▸ hstores.puts
  | edited hget hid hchanges hreplaces hunnoted hannounces =>
    rw [row?_congr hrows] at hget
    rw [hpath.sameFrame.settings] at hchanges
    exact .edited hget hid hchanges (hreplaces.congr hrows rfl)
      ((Unwritten.of_upkept hrel).toUnnoted.trans hunnoted) hannounces
  | shifted hget hmoves hshifts hreplaces hlog hcarries =>
    rw [row?_congr hrows] at hget
    rw [hjournal₁] at hcarries
    exact .shifted hget hmoves hshifts (hreplaces.congr hrows rfl) (hlog.trans hlog₁) hcarries
  | transferred hrows' hlog hcarries =>
    rw [hjournal₁] at hcarries
    exact .transferred (hrows'.trans hrows) (hlog.trans hlog₁) hcarries
  | designated hrows' hchanges hlasting hlog hjournal =>
    rw [Course.facts_of_upkept hrel] at hchanges
    exact .designated (hrows'.trans hrows) hchanges hlasting (hlog₁ ▸ hlog) (hjournal.trans hjournal₁)

end Outcome

end Table

namespace Action

variable {shifts : Row → Address → Prop}

/-! ## What is told -/

/-- To tell a listener that only records reports the one event. It is added to the log behind all
others, and neither the journal nor the facts change. -/
theorem answers_emit (hn : notify.Records) (t : Table) (key : Key) (a : Address) (c : Change) :
    Answers t (emit notify key a c) fun _ t' => t.Reports [⟨key, a, c⟩] [] t' := by
  refine Ends.emit ?_
  rintro s rfl
  have hstill := hn ⟨key, a, c⟩ s
  refine ⟨(), rfl, .single (.aside (hn.beside _ s)), hstill.facts, hstill.log, ?_⟩
  rw [hstill.journal, List.append_nil]
  rfl

/-- A change of the symbol of a handle is reported under the key and the address of the handle at
that moment. -/
theorem answers_emitFor_reports (hn : notify.Records) (t : Table) (h : HandleId) (c : Change) :
    Answers t (emitFor notify h c) fun _ t' =>
      t.Reports [⟨(t.handle h).key, (t.handle h).address, c⟩] [] t' :=
  .look_bind (answers_emit hn t _ _ c)

/-- Of a borrower it is told at most that it is renamed. One event is told, with the name that it
showed and the one that it shows. If it cannot be asked for its name, nothing is told of it and the
caller is refused. -/
theorem ends_announceBorrower_reports (hn : notify.Records) (ht : t.Sound) (h : HandleId) (old : String) :
    Ends t (announceBorrower notify h old) fun _ t' =>
      ∃ es, (∀ e ∈ es, e.change.sort = .renamed) ∧ t.Reports es [] t' := by
  have hquiet {t' : Table} (hrel : Course.upkept.rel t t') :
      ∃ es, (∀ e ∈ es, e.change.sort = .renamed) ∧ t.Reports es [] t' :=
    ⟨[], List.forall_mem_nil _, .of_upkept hrel⟩
  refine .bind (follows_name (c := .upkept) h t ht) (fun new t₁ hrel₁ => .look_bind ?_) fun _ _ => hquiet
  refine .bind (follows_current_of_follows (c := .upkept) h (.look _) t₁ (hrel₁.sound ht)) ?_
    fun _ _ hrel₂ => hquiet (hrel₁.trans hrel₂)
  intro a t₂ hrel₂
  refine (answers_emit hn t₂ _ _ _).ends fun _ t' hr => ?_
  refine ⟨_, ?_, (Table.Reports.of_upkept (hrel₁.trans hrel₂)).trans hr⟩
  intro e he
  rw [List.nil_append, List.mem_singleton] at he
  rw [he]
  rfl

/-- Of borrowers it is told at most that they are renamed, one after the other. The induction is on
the list of borrowers, which was gathered before the name was changed. -/
theorem ends_announceBorrowers_reports (hn : notify.Records) (ht : t.Sound)
    (borrowers : List (HandleId × String)) :
    Ends t (borrowers.forM fun b => announceBorrower notify b.1 b.2) fun _ t' =>
      ∃ es, (∀ e ∈ es, e.change.sort = .renamed) ∧ t.Reports es [] t' := by
  induction borrowers generalizing t with
  | nil => exact .pure ⟨[], List.forall_mem_nil _, .refl t⟩
  | cons b rest ih =>
    rw [List.forM_eq_forM, List.forM_cons]
    refine .bind (ends_announceBorrower_reports hn ht b.1 b.2) ?_ fun _ _ hr => hr
    rintro _ t₁ ⟨es, hes, hr⟩
    refine (ih (hr.sound ht)).imp ?_
    rintro _ t' ⟨es', hes', hr'⟩
    exact ⟨_, fun e he => (List.mem_append.1 he).elim (hes e) (hes' e), hr.trans hr'⟩

/-- Of a symbol whose name is announced it is told for certain. Its own event comes first, and those
of its borrowers after it are renamings, too, so they do not blur what is told of the symbol. The
store has to work, or the name could not be asked for. -/
theorem ends_announceName_announces (hn : notify.Records) (ht : t.Sound) (hworks : t.store.Works)
    (h : HandleId) (id : SymbolId) (a : Address) (old : String) (borrowers : List (HandleId × String)) :
    Ends t (announceName notify h (.stored id) a old borrowers) fun _ t' => t.Announces id t' := by
  refine (answers_nameOf ht.backend hworks h).ends_bind ?_
  rintro new t ⟨-, rfl⟩
  have hr₁ := Table.Reports.record t ⟨a, .stored id, .renamed, old ++ " to " ++ new⟩
  refine .change_bind ((answers_emit hn _ _ _ _).ends_bind fun _ t₂ hr₂ => ?_)
  refine (ends_announceBorrowers_reports hn (hr₂.sound (hr₁.sound ht)) borrowers).imp ?_
  rintro _ t' ⟨es, hes, hr₃⟩
  refine ⟨_, _, (hr₁.trans hr₂).trans hr₃, fun e he => .of_renamed ?_,
    ⟨⟨.stored id, a, .renamed old new⟩, .head _, rfl⟩, List.forall_mem_singleton.2 ⟨rfl, rfl⟩⟩
  rcases List.mem_cons.1 he with rfl | he
  · rfl
  · exact hes e he

/-! ## Edits -/

/-- What is done to a symbol comes to what it comes to once its handle is current. If the refresh is
refused, nothing was done, which is one of the outcomes. -/
theorem ends_current_outcome (ht : t.Faithful) {a : Action σ α}
    (ha : ∀ t₁, t.Refreshed h (.ok ()) t₁ → t₁.Faithful → Ends t₁ a fun _ t' => t₁.Outcome shifts t') :
    Ends t (current h a) fun _ t' => t.Outcome shifts t' := by
  refine .current ht.sound h (fun _ => .refl t) (fun _ _ hr => .of_upkept hr.upkept) fun t₁ hr => ?_
  exact (ha t₁ hr (ht.of_upkeep hr.path)).imp fun _ _ ho => ho.after hr.upkept

/-- The row of a handle is written and this is announced, or nothing is written. This is where all
edits of a row meet: `hchanges` says that the row becomes another one, so that what is told is told
of a change, and `hf` what is told. -/
theorem ends_write_outcome (ht : t.Faithful) (hready : t.IsReady h) {edit : Row → Row} {f : Unit → Action σ α}
    (hid : ∀ r, (edit r).id = r.id)
    (hchanges : ∀ r, (t.handle h).row = some r → t.settings.maxDepth ≠ 0 → edit r ≠ r)
    (hf : ∀ r b, (t.handle h).row = some r → t.store.backend.Puts (edit r) b →
      Ends (t.written h (edit r) b) (f ()) fun _ t' => (t.written h (edit r) b).Announces r.id t') :
    Ends t (write h edit >>= f) fun _ t' => t.Outcome shifts t' := by
  refine .seq (ends_write ht.sound h (fun r b hrow hputs => .ok ?_) fun _ => .refl t)
  refine (hf r b hrow hputs).imp fun _ t' hannounces => ?_
  have hreplaces : t.Replaces (edit r) (t.written h (edit r) b) := Table.row?_puts ht.sound.backend hputs
  exact .edited (ht.row?_eq .refl hready hrow) (hid r) (hchanges r hrow) hreplaces ⟨rfl, rfl, rfl, rfl⟩
    hannounces

/-- A change of the row of a handle that is no rename is written and told. Here the row changes
whether names are shown or not, since no name is involved, so `hchanges` holds without a condition
on the depth. -/
theorem ends_write_emit_outcome (hn : notify.Records) (ht : t.Faithful) (hready : t.IsReady h)
    {edit : Row → Row} (hid : ∀ r, (edit r).id = r.id) (hchanges : ∀ r, (t.handle h).row = some r → edit r ≠ r)
    {c : Change} (hlasting : c.sort ≠ .added ∧ c.sort ≠ .removed) :
    Ends t (write h edit >>= fun _ => emitFor notify h c) fun _ t' => t.Outcome shifts t' := by
  refine ends_write_outcome ht hready hid (fun r hrow _ => hchanges r hrow) fun r b hrow hputs => ?_
  have hkey : ((t.written h (edit r) b).handle h).key = .stored r.id := by
    rw [Table.written, Table.handle_updateHandle_withBackend, Table.map_updateHandle Handle.key rfl]
    exact (ht.sound.inOrder h).key r hrow
  exact (answers_emitFor_reports hn _ h c).ends fun _ _ hr => hr.announces hkey hlasting

section
variable (hn : notify.Records) (ht : t.Faithful)

include hn ht

/-- To set the provenance edits the row and tells this, or comes to nothing. The provenance that is
there already is not written again, and one by which a name of its own would come or go is refused:
only a rename does that. -/
theorem ends_setProvenance_outcome (p : Provenance) :
    Ends t (setProvenance notify h p) fun _ t' => t.Outcome shifts t' := by
  refine ends_current_outcome ht fun t₁ hr ht₁ => .look_bind ?_
  dsimp only
  split
  · exact .pure (.refl t₁)
  · rename_i hother
    split
    · exact .fail (.refl t₁)
    · refine (reads_nameOf h).ends_bind (fun name => .ask_bind (fun _ _ => ?_) fun _ _ => .refl t₁) fun _ =>
        .refl t₁
      refine ends_write_emit_outcome hn ht₁ hr.isReady ?_ (fun r hrow heq => hother ?_) ⟨nofun, nofun⟩
      · exact fun _ => rfl
      · rw [Handle.provenance, hrow, ← heq]
        exact Row.provenance_withProvenance r p

/-- To pin a symbol, or to unpin it, edits the row and tells this, or comes to nothing. The mark
that is there already is not written again, so there is no event without a change. -/
theorem ends_setPinned_outcome (pinned : Bool) :
    Ends t (setPinned notify h pinned) fun _ t' => t.Outcome shifts t' := by
  refine ends_current_outcome ht fun t₁ hr ht₁ => .look_bind (.look_bind ?_)
  split
  · exact .fail (.refl t₁)
  · split
    · exact .pure (.refl t₁)
    · rename_i r hrow
      split
      · exact .pure (.refl t₁)
      · rename_i hother
        refine ends_write_emit_outcome hn ht₁ hr.isReady ?_ (fun x hx heq => hother ?_) ⟨nofun, nofun⟩
        · exact fun _ => rfl
        · obtain rfl : r = x := Option.some.inj (hrow.symm.trans hx)
          rw [← heq]
          exact Row.isPinned_withPinned r pinned

/-- To set data that only some symbols carry edits the row and tells this. That the edited row
carries them is a premise, since it is read off the row for the event. -/
theorem ends_setData_outcome {has : Row → Bool} {edit : Row → Row} (hid : ∀ r, (edit r).id = r.id)
    (hhas : ∀ r, has (edit r) = true) :
    Ends t (setData notify h has edit) fun _ t' => t.Outcome shifts t' := by
  refine ends_current_outcome ht fun t₁ hr ht₁ => .look_bind ?_
  split
  · exact .pure (.refl t₁)
  · rename_i r hrow
    split
    · exact .pure (.refl t₁)
    · rename_i hother
      refine ends_write_emit_outcome hn ht₁ hr.isReady hid (fun x hx heq => hother ?_) ⟨nofun, nofun⟩
      obtain rfl : r = x := Option.some.inj (hrow.symm.trans hx)
      rw [← heq]
      exact hhas r

/-- To give a symbol another address edits the row and tells this, or comes to nothing. Only the
address of variables is set this way. -/
theorem ends_setAddress_outcome (a : Address) :
    Ends t (setAddress notify h a) fun _ t' => t.Outcome shifts t' := by
  refine ends_current_outcome ht fun t₁ hr ht₁ => .look_bind (.look_bind ?_)
  split
  · exact .fail (.refl t₁)
  · split
    · exact .pure (.refl t₁)
    · rename_i hmoves
      refine ends_write_outcome ht₁ hr.isReady (fun _ => rfl) (fun r hrow _ heq => hmoves ?_)
        fun r b hrow _ => ?_
      · rw [(ht₁.sound.inOrder h).address r hrow]
        exact congrArg Row.address heq.symm
      · exact (answers_emit hn _ _ _ _).ends fun _ _ hr =>
          hr.announces ((ht₁.sound.inOrder h).key r hrow) ⟨nofun, nofun⟩

/-- To make a symbol the primary one designates it and tells this, or comes to nothing. No row is
written for it. The event is told of the new one, which is there before and after, and says who was
designated before. -/
theorem ends_setPrimary_outcome : Ends t (setPrimary notify h) fun _ t' => t.Outcome shifts t' := by
  refine ends_current_outcome ht fun t₁ hr ht₁ => .look_bind ?_
  split
  · exact .pure (.refl t₁)
  · refine .look_bind (.look_bind ?_)
    split
    · exact .pure (.refl t₁)
    · rename_i id _ hable
      simp only [Bool.or_eq_true, decide_eq_true_eq, not_or] at hable
      refine .change_bind ((answers_emit hn _ _ _ _).ends_bind fun _ t₂ hr₂ => .pure ?_)
      refine .designated (a := (t₁.handle h).address) hr₂.rows_eq ?_ ?_ hr₂.log ?_
      · rw [hr₂.facts, Facts.primaryAt_setPrimary, if_pos rfl]
        exact fun heq => hable.2 heq.symm
      · exact ⟨nofun, nofun⟩
      · exact congrArg Journal.mk (hr₂.journal.trans (List.append_nil _))

end

/-- A stored symbol is moved along with a block, or a derived one. Nobody is told. This is the one
outcome in which a row changes without an event. It is kept apart by `shifts`, which says which row
goes where, so that later results can except just these moves. -/
theorem ends_relocate_outcome (ht : t.Faithful) (oldBase newBase : Address)
    (hshifts : ∀ r, (t.handle h).key = .stored r.id → shifts r (r.address.relocated oldBase newBase)) :
    Ends t (relocate h oldBase newBase : Action σ _) fun _ t' => t.Outcome shifts t' := by
  refine ends_current_outcome ht fun t₁ hr ht₁ => .look_bind ?_
  dsimp only
  split
  · exact .pure (.refl t₁)
  · rename_i hmoves
    split
    · exact .change_bind (.change (.transferred rfl rfl (Journal.carries_moveAddress _ _ _)))
    · refine .seq (ends_write ht₁.sound h (fun r b hrow hputs => .ok ?_) fun _ => .refl t₁)
      have hkey := (ht₁.sound.inOrder h).key r hrow
      have haddress := (ht₁.sound.inOrder h).address r hrow
      have hreplaces : t₁.Replaces { r with address := (t₁.handle h).address.relocated oldBase newBase }
          (t₁.written h { r with address := (t₁.handle h).address.relocated oldBase newBase } b) :=
        Table.row?_puts ht₁.sound.backend hputs
      rw [Handle.id?_eq_some_iff.2 hkey]
      refine .change_bind (.change ?_)
      rw [Table.movePrimary_eq]
      rw [haddress] at hmoves hreplaces ⊢
      refine .shifted (ht₁.row?_eq .refl hr.isReady hrow) hmoves (hshifts r ?_) hreplaces rfl
        (Journal.carries_moveAddress _ _ _)
      exact hr.key_eq ▸ hkey

/-! ## Names and scopes -/

/-- What is told of one answer by two lemmas holds of it together. -/
theorem Tells.and {a : Action σ α} {P P' : α → Prop} (ha : Tells t a P) (ha' : Tells t a P') :
    Tells t a fun x => P x ∧ P' x :=
  (Ends.and ha ha').imp fun _ _ h => ⟨h.1.1, fun x hx => ⟨h.1.2 x hx, h.2.2 x hx⟩⟩

/-- What a plan is made of, and that it changes something. -/
structure Rename.Changes (plan : Rename) (t : Table) (s : Handle) : Prop where
  oldName : plan.oldName = t.shownFor s
  oldScope : plan.oldScope = s.parent
  changes : plan.moves = true ∨ plan.renames = true
  unnamed : plan.provenance = .default → (plan.renames = true ↔ s.provenance ≠ .default)
  named : plan.provenance ≠ .default → (plan.renames = true ↔ plan.oldName ≠ plan.name)

/-- The row after a rename is another one, at least where a name of its own is shown. Where the
depth is zero, the name by kind is shown in its place, and a rename may ask for the name that is
stored already. -/
theorem Rename.Changes.apply_ne {plan : Rename} {s : Handle} (hc : Rename.Changes plan t s)
    (hrow : s.row = some r) (hdepth : t.settings.maxDepth ≠ 0) : plan.apply r ≠ r := by
  intro heq
  have hprovenance : r.provenance = plan.provenance :=
    (congrArg Row.provenance heq).symm.trans (provenance_apply plan r)
  rcases hc.changes with hmoves | hrenames
  · have hparent : r.parent = plan.scope := congrArg Row.parent heq.symm
    simp only [Rename.moves, decide_eq_true_eq] at hmoves
    exact hmoves (hc.oldScope.trans ((Handle.parent_of_row hrow).trans hparent))
  · by_cases hdefault : plan.provenance = .default
    · refine (hc.unnamed hdefault).1 hrenames ?_
      rw [Handle.provenance, hrow]
      exact hprovenance.trans hdefault
    · have hname : r.name = plan.name := congrArg Row.name heq.symm
      refine (hc.named hdefault).1 hrenames ?_
      rw [hc.oldName, Table.shownFor_of_row hrow, Table.shown_of_named hdepth (hprovenance ▸ hdefault), hname]

/-- A plan that is made for a rename changes something. If the name, the scope and the provenance
all stay, there is no plan. -/
theorem tells_proposeRename_changes (ht : t.Sound) (s : Handle) (shown name : String) (scope : Scope)
    (p : Provenance) (hshown : shown = t.shownFor s) :
    Tells t (proposeRename s shown name scope p : Action σ _) fun plan? =>
      ∀ plan, plan? = some plan → Rename.Changes plan t s := by
  unfold proposeRename
  split
  · rename_i hdefault
    refine .pure fun plan hplan => ?_
    split at hplan
    · rename_i hchanges
      cases hplan
      simp only [Bool.or_eq_true] at hchanges
      exact ⟨hshown, rfl, hchanges.symm, fun _ => decide_eq_true_iff, fun hnamed => absurd hdefault hnamed⟩
    · cases hplan
  · rename_i hnamed
    refine .ask_bind fun _ _ => ?_
    dsimp only
    split
    · rename_i hchanges
      simp only [Bool.or_eq_true] at hchanges
      refine (tells_checkDuplicate ht _ _ _ _ _).bind fun _ _ => .pure fun plan hplan => ?_
      cases hplan
      exact ⟨hshown, rfl, hchanges.symm, fun hdefault => absurd hdefault hnamed, fun _ => decide_eq_true_iff⟩
    · exact .pure nofun

/-- The plan that is made of a request is one that changes something. The name that is shown is
asked of the store, which has to work for that. -/
theorem tells_planRename_changes (ht : t.Sound) (hworks : t.store.Works) (h : HandleId) (name : String)
    (scope : Scope) (wanted : Provenance) :
    Tells t (planRename h name scope wanted : Action σ _) fun plan? =>
      ∀ plan, plan? = some plan → Rename.Changes plan t (t.handle h) := by
  refine .look_bind ((answers_nameOf ht.backend hworks h).tells.bind fun shown hshown => .ask_bind fun _ _ => ?_)
  refine .look_bind (.ask_bind fun _ _ => ?_)
  dsimp only
  split
  · exact (tells_checkMove ht h shown scope).bind fun _ _ => tells_proposeRename_changes ht _ _ _ _ _ hshown
  · exact tells_proposeRename_changes ht _ _ _ _ _ hshown

/-- A rename of a stored symbol that is carried out is an edit of its row. That the plan changes
something is what makes its event tell of a change. It was made before handles were kept up, and
still holds here. -/
theorem ends_carryOut_outcome (hn : notify.Records) (ht : t.Faithful) (hready : t.IsReady h) {plan : Rename}
    (hplan : Rename.Changes plan t (t.handle h)) :
    Ends t (carryOut notify h plan) fun _ t' => t.Outcome shifts t' := by
  refine .look_bind (.bind (follows_borrowers (c := .upkept) h t ht.sound) (fun bs t₁ hrel₁ => ?_)
    fun _ _ => .of_upkept)
  refine .bind (Follows.mapM (c := .upkept) follows_name bs t₁ (hrel₁.sound ht.sound)) (fun names t₂ hrel₂ => ?_)
    fun _ _ hrel₂ => .of_upkept (hrel₁.trans hrel₂)
  have hrel := hrel₁.trans hrel₂
  have hpath := Course.path_of_upkept hrel
  have ht₂ := ht.of_upkeep hpath
  refine Ends.imp ?_ fun _ _ ho => Table.Outcome.after hrel ho
  refine ends_write_outcome ht₂ (hready.of_upkeep hpath) (fun _ => rfl) ?_ fun r b hrow hputs => ?_
  · intro r hrow hdepth
    rw [hready.handle_eq hpath] at hrow
    rw [hpath.sameFrame.settings] at hdepth
    exact hplan.apply_ne hrow hdepth
  · have hs : (t₂.written h (plan.apply r) b).Sound := ht₂.sound.written hrow rfl rfl hputs
    have hworks : (t₂.written h (plan.apply r) b).store.Works := ht₂.works
    generalize t₂.written h (plan.apply r) b = t₃ at hs hworks
    rw [hready.handle_eq hpath] at hrow
    rw [(ht.sound.inOrder h).key r hrow]
    have hname (t₄ : Table) (hs : t₄.Sound) (hworks : t₄.store.Works) (hrenames : plan.renames = true) :
        Ends t₄ (if plan.renames then
            announceName notify h (.stored r.id) (t.handle h).address plan.oldName (bs.zip names) else pure ())
          fun _ t' => t₄.Announces r.id t' := by
      rw [if_pos hrenames]
      exact ends_announceName_announces hn hs hworks h r.id _ _ _
    dsimp only
    split
    · refine (answers_emit hn t₃ _ _ _).ends_bind fun _ t₄ hr => ?_
      by_cases hrenames : plan.renames = true
      · exact (hname t₄ (hr.sound hs) (hr.path.upkeep.1 ▸ hworks) hrenames).imp fun _ _ ha =>
          ha.after hr (List.forall_mem_singleton.2 ⟨nofun, nofun⟩)
      · rw [if_neg hrenames]
        exact .pure (hr.announces rfl ⟨nofun, nofun⟩)
    · rename_i hstays
      exact hname t₃ hs hworks (hplan.changes.resolve_left hstays)

/-! ## New symbols -/

/-- An id is drawn and a row is stored under it, or nothing is written. The name has to be free,
which was checked before. What comes after the write is left to the caller, who knows what is told
of the new symbol. -/
theorem ends_stores_outcome (ht : t.Sound) {row : SymbolId → Row} {f : SymbolId → Action σ α}
    (hid : ∀ id, (row id).id = id) (hfree : ∀ id, (row id).provenance ≠ .default →
      t.NameFree (row id).address (row id).name (row id).parent (row id).tag none)
    (hf : ∀ id b, t.Stores (row id) b → Ends (t.withBackend b) (f id) fun _ t' => t.Outcome shifts t') :
    Ends t (drawId >>= fun id => putRow (row id) >>= fun _ => f id) fun _ t' => t.Outcome shifts t' := by
  have hdrawn : t.Outcome shifts (t.withBackend t.store.backend.allocate.2) :=
    .unwritten ⟨⟨rfl, rfl, rfl, rfl⟩, ht.rows_draw, ht.backend.allocate.2.2.1⟩
  refine .drawRow ht.backend (fun id b hdraw hputs => hf id b ⟨?_, hputs, hfree id⟩) (fun _ => .refl t)
    fun _ => hdrawn
  rw [hid id]
  exact hdraw

/-- A symbol is stored and noted, and then it is told. The order is that of the code, and so are the
parts: the journal first carries the entries of the derived symbol along, if there was one, and then
notes that the symbol was added. -/
theorem outcome_of_told {row : Row} {b : Store.Backend} {es : List Event} {j : Journal} (name : String)
    (hstores : t.Stores row b) (hr : t₁.Reports (⟨.stored row.id, row.address, .added⟩ :: es) [] t')
    (hlasting : ∀ e ∈ es, e.Lasting) (hstore : t₁.store = (t.withBackend b).store) (hlog : t₁.log = t.log)
    (hcarries : t.journal.Carries j)
    (hjournal : t₁.journal = j.record ⟨row.address, .stored row.id, .added, name⟩) : t.Outcome shifts t' := by
  refine .stored hstores ?_ hlasting ?_ name hcarries ?_
  · rw [hr.path.upkeep.1]
    exact congrArg Store.backend hstore
  · rw [hr.log, hlog]
  · rw [hr.journal, List.append_nil, hjournal]
    rfl

/-- To create a symbol stores a row and tells that it was added, or comes to nothing. If the name
that it shows cannot be had after the row is stored, this is refused as a failure of the store,
which does not occur where the store works. -/
theorem ends_create_outcome (hn : notify.Records) (ht : t.Faithful) (draft : Draft) :
    Ends t (create notify draft) fun _ t' => t.Outcome shifts t' := by
  refine .look_bind ?_
  generalize draft.settled t.rules = d
  refine (tells_checkDraft ht.sound d).ends_bind (fun _ hchecked => ?_) fun _ => .refl t
  refine ends_stores_outcome ht.sound (fun _ => rfl) (fun id hnamed => ?_) fun id b hstores => ?_
  · rw [d.provenance_row] at hnamed
    rw [d.name_row id hnamed]
    exact hchecked.2.1 hnamed
  · refine .change_bind (.change_bind ?_)
    have hsame : ((t.withBackend b).dropDerived d.address).log = t.log ∧
        ((t.withBackend b).dropDerived d.address).journal = t.journal := by
      unfold Table.dropDerived
      split <;> exact ⟨rfl, rfl⟩
    have hstore : ((t.withBackend b).dropDerived d.address).store = (t.withBackend b).store :=
      Table.store_dropDerived _ _
    rw [Table.claimPrimary_eq]
    generalize (t.withBackend b).dropDerived d.address = t₁ at hsame hstore
    generalize (t₁.claimPrimary d.address id d.kind).facts = facts
    have hb : t₁.store.backend.Sound := hstore ▸ hstores.puts.sound
    have hworks : t₁.store.Works := hstore ▸ ht.works
    refine (answers_shown (t := { t₁ with facts := facts }) hb hworks (d.row id)).ends_bind ?_
    rintro shown _ ⟨-, rfl⟩
    refine .look_bind (.seq (.conclude ?_))
    have hkind : (d.row id).kind? = some d.kind := Kind.ofTag?_eq_some_iff.2 rfl
    rw [Handle.ofRow, hkind]
    refine .ok (.look_bind (.change_bind ((answers_emit hn _ _ _ _).ends_bind fun _ t' hr => .pure ?_)))
    refine outcome_of_told shown hstores hr (List.forall_mem_nil _) hstore hsame.1 (.refl t.journal) ?_
    rw [← hsame.2]
    rfl

/-- Besides that it was added, a symbol that is stored is told to be in another scope or to have
another name. The events come in this order. Both of the others are told of a symbol that is there,
so they count as lasting. -/
theorem answers_tellStored (hn : notify.Records) (t : Table) (id : SymbolId) (a : Address) (plan : Rename)
    (name : String) :
    Answers t (do
        emit notify (.stored id) a .added
        if !plan.scope.isGlobal then
          emit notify (.stored id) a (.scopeChanged .global plan.scope)
        if name ≠ plan.oldName then
          emit notify (.stored id) a (.renamed plan.oldName name)) fun _ t' =>
      ∃ es, (∀ e ∈ es, e.Lasting) ∧ t.Reports (⟨.stored id, a, .added⟩ :: es) [] t' := by
  refine (answers_emit hn t _ _ _).bind fun _ t₁ hr₁ => ?_
  have hname {es : List Event} (hlasting : ∀ e ∈ es, e.Lasting) (t₂ : Table) (hr₂ : t₁.Reports es [] t₂) :
      Answers t₂ (if name ≠ plan.oldName then emit notify (.stored id) a (.renamed plan.oldName name) else pure ())
        fun _ t' => ∃ es, (∀ e ∈ es, e.Lasting) ∧ t.Reports (⟨.stored id, a, .added⟩ :: es) [] t' := by
    split
    · refine (answers_emit hn t₂ _ _ _).imp fun _ t' hr₃ =>
        ⟨es ++ [⟨.stored id, a, .renamed plan.oldName name⟩], ?_, hr₁.trans (hr₂.trans hr₃)⟩
      exact List.forall_mem_append.2 ⟨hlasting, List.forall_mem_singleton.2 ⟨nofun, nofun⟩⟩
    · exact .pure ⟨es, hlasting, hr₁.trans hr₂⟩
  dsimp only
  split
  · refine (answers_emit hn t₁ _ _ _).bind fun _ t₂ hr₂ => hname (List.forall_mem_singleton.2 ?_) t₂ hr₂
    exact ⟨nofun, nofun⟩
  · exact hname (List.forall_mem_nil _) t₁ (.refl t₁)

/-- A derived symbol of which a rename was planned is stored, or nothing is written. It is told as a
symbol that was added, and not as one that was renamed only, since nothing of it was stored
before. -/
theorem ends_promote_outcome (hn : notify.Records) (ht : t.Faithful) (hready : t.IsReady h)
    (hrow : (t.handle h).row = none) {plan : Rename} (hplan : Planned t (t.handle h) plan) :
    Ends t (promote notify h plan) fun _ t' => t.Outcome shifts t' := by
  obtain ⟨hkey, -⟩ := (ht.sound.inOrder h).derived hready.live hrow
  refine .look_bind (ends_stores_outcome ht.sound (fun _ => rfl) (fun id hnamed => ?_) fun id b hstores => ?_)
  · have hfree := hplan.free fun hdefault => hnamed ((Row.ofBits_rank_and _).trans hdefault)
    rwa [Handle.id?_of_derived hkey] at hfree
  · refine .change_bind (.change_bind ?_)
    generalize hfresh : Row.fresh id (t.handle h).kind (t.handle h).address plan.name plan.scope
      plan.provenance = row at hstores ⊢
    obtain ⟨rfl, haddress⟩ : row.id = id ∧ row.address = (t.handle h).address := by
      subst hfresh
      exact ⟨rfl, rfl⟩
    have hjournal : ((t.withBackend b).embody h row).journal =
        t.journal.rekey (.derived (t.handle h).address) row.id :=
      congrArg (t.journal.rekey · row.id) hkey
    have hlog : ((t.withBackend b).embody h row).log = t.log := rfl
    have hstore : ((t.withBackend b).embody h row).store = (t.withBackend b).store := rfl
    rw [Table.claimPrimary_eq]
    generalize (t.withBackend b).embody h row = t₁ at hjournal hlog hstore
    generalize (t₁.claimPrimary (t.handle h).address row.id (t.handle h).kind).facts = facts
    have hb : t₁.store.backend.Sound := hstore ▸ hstores.puts.sound
    have hworks : t₁.store.Works := hstore ▸ ht.works
    refine (answers_nameOf (t := { t₁ with facts := facts }) hb hworks h).ends_bind ?_
    rintro name _ ⟨-, rfl⟩
    refine .change_bind ((answers_tellStored hn _ row.id _ plan name).ends ?_)
    rintro _ t' ⟨es, hlasting, hr⟩
    rw [← haddress] at hr
    refine outcome_of_told name hstores hr hlasting hstore hlog
      (Journal.carries_rekey t.journal (t.handle h).address row.id) ?_
    rw [haddress, ← hjournal]

section
variable (hn : notify.Records) (ht : t.Faithful)

include hn ht

/-- A rename comes to one of the outcomes, whatever plan is made: a stored symbol is edited, a
derived one is stored, or nothing is left to do. -/
theorem ends_rename_outcome (name : String) (scope : Scope) (p : Provenance) :
    Ends t (rename notify h name scope p) fun _ t' => t.Outcome shifts t' := by
  refine ends_current_outcome ht fun t₁ hr ht₁ => ?_
  refine Tells.ends_bind ((tells_planRename ht₁.sound h name scope p).and
    (tells_planRename_changes ht₁.sound ht₁.works h name scope p)) (fun plan? hplan => ?_) fun _ => .refl t₁
  split
  · exact .pure (.refl t₁)
  · rename_i plan
    refine .look_bind ?_
    split
    · rename_i hderived
      exact ends_promote_outcome hn ht₁ hr.isReady (Handle.isDerived_iff.1 hderived).1 (hplan.1 plan rfl).1
    · exact ends_carryOut_outcome hn ht₁ hr.isReady (hplan.2 plan rfl)

/-- To set a name is a rename in the scope where the symbol lies. -/
theorem ends_setName_outcome (name : String) (p : Provenance) :
    Ends t (setName notify h name p) fun _ t' => t.Outcome shifts t' :=
  ends_current_outcome ht fun _ _ ht₁ => .look_bind (ends_rename_outcome hn ht₁ name _ p)

/-- To set a scope is a rename under the name that the symbol has. -/
theorem ends_setScope_outcome (scope : Scope) :
    Ends t (setScope notify h scope) fun _ t' => t.Outcome shifts t' :=
  ends_current_outcome ht fun t₁ _ ht₁ => (reads_nameOf h).ends_bind
    (fun name => .look_bind (ends_rename_outcome hn ht₁ name scope _)) fun _ => .refl t₁

end

end Action

/-! ## Moves -/

/-- The move is to move the symbol of a row along with a block, to this address. -/
def Move.Shifts (t : Table) (r : Row) (a : Address) : Move → Prop
  | .edit h (.relocate oldBase newBase) =>
    (t.handle h).key = .stored r.id ∧ a = r.address.relocated oldBase newBase
  | _ => False

/-- An outcome does not depend on what is made of the answer. -/
theorem Ends.outcome_map {shifts : Row → Address → Prop} {a : Action σ α} {f : α → β}
    (ha : Ends t a fun _ t' => t.Outcome shifts t') : Ends t (f <$> a) fun _ t' => t.Outcome shifts t' :=
  .map ha (fun _ _ ho => ho) fun _ _ ho => ho

/-- Whatever is done through a table, short of a deletion, comes to one of these outcomes. The proof
has one case for each move and refers to the lemma of that move. Queries, searches and references
only keep up handles or touch no row. -/
theorem Move.ends_outcome (hn : notify.Records) (ht : t.Faithful) {m : Move} (hm : m.goesThrough)
    (hdelete : ∀ h, m ≠ .edit h .delete) :
    Ends t (m.action notify) fun _ t' => t.Outcome (fun r a => m.Shifts t r a) t' := by
  cases m with
  | create draft => exact Ends.outcome_map (ends_create_outcome hn ht draft)
  | edit h e =>
    refine Ends.outcome_map ?_
    cases e with
    | setProvenance p => exact Ends.outcome_map (ends_setProvenance_outcome hn ht p)
    | setPinned pinned => exact Ends.outcome_map (ends_setPinned_outcome hn ht pinned)
    | rename name scope p => exact Ends.outcome_map (ends_rename_outcome hn ht name scope p)
    | setName name p => exact Ends.outcome_map (ends_setName_outcome hn ht name p)
    | setScope scope => exact Ends.outcome_map (ends_setScope_outcome hn ht scope)
    | setAddress a => exact Ends.outcome_map (ends_setAddress_outcome hn ht a)
    | relocate oldBase newBase =>
      exact Ends.outcome_map (ends_relocate_outcome ht oldBase newBase fun r hkey => ⟨hkey, rfl⟩)
    | setData1 value | setData2 value | setData3 value =>
      refine Ends.outcome_map (ends_setData_outcome hn ht ?_ ?_)
      · exact fun _ => rfl
      · exact fun _ => decide_eq_true rfl
    | setPrimary => exact Ends.outcome_map (ends_setPrimary_outcome hn ht)
    | delete => exact absurd rfl (hdelete h)
  | query h q =>
    exact (Follows.map (c := .upkept) (follows_answer h q) t ht.sound).imp fun _ _ => .of_upkept
  | search what => exact (what.follows (c := .upkept) t ht.sound).imp fun _ _ => .of_upkept
  | put | take => exact hm.elim

end SymbolTable
