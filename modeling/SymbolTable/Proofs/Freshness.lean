import SymbolTable.Proofs.Action.Refusal

/-!
# Fresh ids

A draw gives the next id of a counter, and only draws advance the counter. Rows may be put behind
the table's back under any id, those that the counter has not reached among them. These are ahead of
the draws. All other ids of rows have been drawn, whether a row is stored or a handle has a copy of
it that it may store again (`Table.Foreseen`). Every step through the table keeps it so
(`Table.Step.foreseen`), and so does every run in which rows are put under ids that were drawn or
are said to be ahead (`Runs.foreseen`).

So the id that is drawn is free unless it was ahead, and a symbol that is created adds a row and
replaces none (`Runs.drawn_ids_are_free`). An id that was ahead is drawn some day all the same, and
then its row is replaced (`Runs.creation_replaces_row_ahead`).
-/

namespace SymbolTable

open SymbolTable.Action
open Table (Path Step)

variable {σ : Type} {t t' : Table} {may : Deed → Prop} {ahead : SymbolId → Prop}

namespace Table

/-! ## Ids that are foreseen -/

/-- The id has been drawn, or it is one of those that are ahead of the draws. -/
def Foresees (ahead : SymbolId → Prop) (t : Table) (id : SymbolId) : Prop :=
  id.val.toNat ≤ t.drawn ∨ ahead id

/-- The id of the row of which a handle has a copy, if it has one, is foreseen. -/
def ForeseesCopy (ahead : SymbolId → Prop) (t : Table) (s : Handle) : Prop :=
  ∀ r, s.row = some r → t.Foresees ahead r.id

/-- The id of every row is foreseen, whether it is stored or a handle has a copy of it. -/
structure Foreseen (ahead : SymbolId → Prop) (t : Table) : Prop where
  rows : ∀ r ∈ t.rows, t.Foresees ahead r.id
  copies : ∀ h, t.ForeseesCopy ahead (t.handle h)

/-- What was drawn has been drawn when more is drawn. -/
theorem Foresees.mono {id : SymbolId} (ha : t.Foresees ahead id) (hle : t.drawn ≤ t'.drawn) :
    t'.Foresees ahead id :=
  ha.imp_left fun h => Nat.le_trans h hle

/-- A copy with an id that was foreseen is one when more is drawn. -/
theorem ForeseesCopy.mono {s : Handle} (ha : t.ForeseesCopy ahead s) (hle : t.drawn ≤ t'.drawn) :
    t'.ForeseesCopy ahead s :=
  fun r hrow => (ha r hrow).mono hle

/-- A handle without a row has no copy. -/
theorem ForeseesCopy.of_rowless {s : Handle} (hrow : s.row = none) : t.ForeseesCopy ahead s := by
  intro r hr
  rw [hrow] at hr
  cases hr

namespace Foreseen

section
variable (ha : t.Foreseen ahead)

include ha

/-- The rows are others, of which those that are new are foreseen. No id is given back, so those
that were drawn are still drawn. -/
theorem withBackend {b : Store.Backend} (hle : t.drawn ≤ b.drawn)
    (hrows : ∀ r ∈ b.rows, r ∈ t.rows ∨ (t.withBackend b).Foresees ahead r.id) :
    (t.withBackend b).Foreseen ahead where
  rows r hr := by
    rcases hrows r hr with hold | hnew
    · exact (ha.rows r hold).mono hle
    · exact hnew
  copies h := (ha.copies h).mono hle

/-- The handles are others, and foreseen. Nothing is drawn meanwhile, so what was foreseen stays
so. -/
theorem of_copies (hbackend : t'.store.backend = t.store.backend)
    (hcopies : ∀ h, t.ForeseesCopy ahead (t'.handle h)) : t'.Foreseen ahead := by
  have hrows : t'.rows = t.rows := congrArg Store.Backend.rows hbackend
  have hdrawn : t.drawn ≤ t'.drawn := Nat.le_of_eq (congrArg Store.Backend.drawn hbackend).symm
  refine ⟨fun r hr => ?_, fun h => (hcopies h).mono hdrawn⟩
  rw [hrows] at hr
  exact (ha.rows r hr).mono hdrawn

/-- A handle may change if what it has a copy of is foreseen. -/
theorem updateHandle {h : HandleId} {f : Handle → Handle}
    (hf : t.ForeseesCopy ahead (f (t.handle h))) : (t.updateHandle h f).Foreseen ahead :=
  ha.of_copies rfl (forall_updateHandle ha.copies hf)

/-- A handle may be added if what it has a copy of is foreseen. -/
theorem adopt {s : Handle} (key : Key) (hs : t.ForeseesCopy ahead s) :
    (t.adopt key s).Foreseen ahead :=
  ha.of_copies rfl (forall_adopt ha.copies key hs)

/-- To drop a derived symbol makes no copy. -/
theorem dropDerived (a : Address) : (t.dropDerived a).Foreseen ahead :=
  ha.of_copies (congrArg Store.backend (store_dropDerived t a))
    (forall_dropDerived ha.copies (fun _ => .of_rowless rfl) a)

/-- A row is put whose id is foreseen. To put it draws no id, and the other rows were there
before. -/
theorem puts {r : Row} {b : Store.Backend} (hr : t.Foresees ahead r.id)
    (hputs : t.store.backend.Puts r b) : (t.withBackend b).Foreseen ahead := by
  have hle : t.drawn ≤ b.drawn := Nat.le_of_eq hputs.drawn.symm
  refine ha.withBackend hle fun x hx => ?_
  rcases (hputs.mem_rows x).1 hx with rfl | ⟨hold, -⟩
  · exact .inr (hr.mono hle)
  · exact .inl hold

/-- To take a row out leaves fewer ids that have to be foreseen. -/
theorem removes {id : SymbolId} {b : Store.Backend} (hremoves : t.store.backend.Removes id b) :
    (t.withBackend b).Foreseen ahead :=
  ha.withBackend (Nat.le_of_eq hremoves.drawn.symm) fun r hr => .inl ((hremoves.mem_rows r).1 hr).1

/-- An id is drawn and a row is stored under it. The id counts as drawn from then on. The rows that
were there are foreseen for the reasons for which they were before. -/
theorem stores (hs : t.Sound) {row : Row} {b : Store.Backend} (hstores : t.Stores row b)
    (hlt : b.drawn < UInt64.size - 1) :
    (t.withBackend b).Foreseen ahead ∧ (t.withBackend b).Foresees ahead row.id := by
  obtain ⟨hid, hdrawn⟩ := hstores.id_eq hs hlt
  have hrow : (t.withBackend b).Foresees ahead row.id := .inl (Nat.le_of_eq (hid.trans hdrawn.symm))
  refine ⟨ha.withBackend (hstores.drawn_le hs) fun x hx => ?_, hrow⟩
  rcases (hstores.mem_rows hs x).1 hx with rfl | ⟨hold, -⟩
  · exact .inr hrow
  · exact .inl hold

end

end Foreseen

/-- A step through the table keeps all ids foreseen, until ids run out. The proof goes through the
steps. Copies are taken from the store or of what is being written, so their ids are foreseen,
too. -/
theorem Step.foreseen (h : Step may t t') (hintrude : ¬ may .intrude) (hs : t.Sound)
    (hlt : t'.drawn < UInt64.size - 1) (ha : t.Foreseen ahead) : t'.Foreseen ahead := by
  cases h with
  | aside h =>
    refine ha.of_copies (congrArg Store.backend h.store) fun k => ?_
    rw [h.handle]
    exact ha.copies k
  | plan => exact ha.of_copies rfl ha.copies
  | adopt s hpool hnew =>
    refine ha.adopt _ ?_
    rcases hnew with ⟨id, r, hrow, hofRow⟩ | ⟨a, rfl⟩
    · obtain ⟨k, -, rfl⟩ := Handle.eq_of_ofRow hofRow
      rintro _ ⟨⟩
      exact ha.rows r (mem_of_row? hrow)
    · exact .of_rowless rfl
  | @refresh h r row hlive hrow hstale hget =>
    refine ha.updateHandle ?_
    rintro _ ⟨⟩
    exact ha.rows row (mem_of_row? hget)
  | vanish h =>
    refine ha.of_copies rfl fun k => ?_
    rw [handle_abandon]
    exact forall_updateHandle ha.copies (.of_rowless rfl) k
  | draw =>
    refine ha.withBackend hs.drawn_draw fun r hr => .inl ?_
    rwa [← hs.rows_draw]
  | @insert hmay k row b htag hstores =>
    rw [drawn_withFresh] at hlt
    exact (ha.stores hs hstores hlt).1.dropDerived row.address
  | @create hmay k row b s htag hstores hparent hnew =>
    have hb : (t.withFresh row b).drawn < UInt64.size - 1 := hlt
    rw [drawn_withFresh] at hb
    obtain ⟨ha₁, hrow⟩ := ha.stores hs hstores hb
    obtain ⟨k, -, rfl⟩ := Handle.eq_of_ofRow hnew
    refine (ha₁.dropDerived row.address).adopt _ ?_
    rintro _ ⟨⟩
    exact hrow.mono (Nat.le_of_eq (drawn_withFresh t row b).symm)
  | @promote hmay h row b hlive hnone htag haddress hstores =>
    obtain ⟨ha₁, hrow⟩ := ha.stores hs hstores hlt
    refine ha₁.of_copies rfl fun k => ?_
    rw [handle_embody]
    refine forall_updateHandle ha₁.copies ?_ k
    rintro _ ⟨⟩
    exact hrow
  | @edit h r r' b hrow hedits hputs =>
    have hr' : t.Foresees ahead r'.id := hedits.id_eq ▸ ha.copies h r hrow
    refine (ha.puts hr' hputs).updateHandle ?_
    rintro _ ⟨⟩
    exact hr'.mono (Nat.le_of_eq hputs.drawn.symm)
  | mark hmay h deleting => exact ha.updateHandle (ha.copies h)
  | takeOut hmay h hkey hremoves =>
    have ha₁ := ha.removes hremoves
    refine ha₁.of_copies rfl fun k => ?_
    rw [handle_release]
    exact forall_updateHandle ha₁.copies (.of_rowless rfl) k
  | relocate hmay h a hlive hrow =>
    refine ha.of_copies rfl fun k => ?_
    rw [handle_withPool]
    exact forall_updateHandle ha.copies (ha.copies h) k
  | intrudePut hmay | intrudeTake hmay => exact absurd hmay hintrude

/-- Steps through the table keep all ids foreseen. A row is stored under an id that was just drawn
or that its handle had already. The induction is on the steps. -/
theorem Path.foreseen (hpath : Path may t t') (hintrude : ¬ may .intrude) (hs : t.Sound)
    (hlt : t'.drawn < UInt64.size - 1) (ha : t.Foreseen ahead) : t'.Foreseen ahead := by
  induction hpath with
  | refl => exact ha
  | tail hbefore hstep ih =>
    have hs₁ := Path.sound hbefore hs
    exact hstep.foreseen hintrude hs₁ hlt (ih (Nat.lt_of_le_of_lt (hstep.drawn_le hs₁) hlt))

/-- A table that has just been opened has neither rows nor copies, so nothing has to be foreseen. -/
theorem IsNew.foreseen {rules : Rules} (hnew : t.IsNew rules) : t.Foreseen ahead where
  rows r hr := by
    rw [hnew.rows_eq] at hr
    cases hr
  copies h := .of_rowless (by rw [hnew.handle_eq]; rfl)

end Table

/-! ## Runs -/

/-- The tables on the course have only ids that are foreseen, until ids run out. -/
def Course.foreseeing (ahead : SymbolId → Prop) : Course where
  rel t t' := Path (fun _ => True) t t' ∧
    (t.Sound → t'.drawn < UInt64.size - 1 → t.Foreseen ahead → t'.Foreseen ahead)
  refl _ := ⟨.refl, fun _ _ ha => ha⟩
  trans h h' := by
    refine ⟨h.1.trans h'.1, fun hs hlt ha => ?_⟩
    have hs₁ := h.1.sound hs
    exact h'.2 hs₁ hlt (h.2 hs (Nat.lt_of_le_of_lt (h'.1.drawn_le hs₁) hlt) ha)
  path h := h.1
  keepsUp _ htended :=
    ⟨.single (htended.stride.step.mono fun _ _ => trivial), fun hs hlt ha =>
      htended.stride.step.foreseen not_false hs hlt ha⟩

/-- Steps through the table are on the course, whatever deeds they are. -/
theorem Course.foreseeing_of_path (hpath : Path may t t') (hintrude : ¬ may .intrude) :
    (foreseeing ahead).rel t t' :=
  ⟨hpath.mono fun _ _ => trivial, fun hs hlt ha => hpath.foreseen hintrude hs hlt ha⟩

/-- Every deed but one behind the table's back is allowed on the course. -/
theorem Course.foreseeing_allows {d : Deed} (hd : d ≠ .intrude) : (foreseeing ahead).Allows d :=
  allows_of_path fun hpath => foreseeing_of_path hpath hd

/-- A row that is put behind the table's back is put under an id that is foreseen. -/
def Move.Foreseen (ahead : SymbolId → Prop) (t : Table) : Move → Prop
  | .put r => t.Foresees ahead r.id
  | _ => True

namespace Move.Foreseen

/-- Such moves stay on the course. A row that is put behind the table's back is the one case of
interest, and there it is the condition. All others are steps through the table. -/
theorem ends_rel {notify : Listener σ} {m : Move} (hm : m.Foreseen ahead t)
    (hn : Heeds (.foreseeing ahead) notify) (ht : t.Sound) :
    Ends t (m.action notify) fun _ t' => (Course.foreseeing ahead).rel t t' := by
  have hpermitted (hthrough : m.goesThrough) : m.Permitted (Course.foreseeing ahead).Allows t :=
    .of_goesThrough hthrough (Course.foreseeing_allows (d := .write) nofun)
      (fun _ _ => Course.foreseeing_allows (d := .remove) nofun)
      (fun _ _ _ _ => Course.foreseeing_allows (d := .readdress) nofun)
      (fun _ _ _ _ _ => Course.foreseeing_allows (d := .relocate) nofun)
  have hdesignates : (Course.foreseeing ahead).Designates := fun {t h r} _ _ _ _ => by
    have hpath : Path Table.upkeep t { t with facts := t.facts.setPrimary (t.handle h).address (some r.id) } :=
      .single (.aside ⟨rfl, rfl, rfl, rfl, rfl, rfl⟩)
    exact Course.foreseeing_of_path hpath not_false
  cases m with
  | create | edit | query | search => exact Move.ends_rel hn hdesignates ht (hpermitted trivial)
  | put r =>
    refine .putRow ht.backend (fun b hputs => ⟨.single (.intrudePut trivial hputs), ?_⟩) fun _ => .refl
    exact fun _ _ ha => ha.puts hm hputs
  | take id =>
    refine Ends.rel_map (.takeRow ht.backend (fun b hremoves => ⟨.single (.intrudeTake trivial hremoves), ?_⟩)
      fun _ _ => .refl)
    exact fun _ _ ha => ha.removes hremoves

end Move.Foreseen

/-- In a run in which rows are put only under ids that are foreseen, all ids are. It is the course
of foreseen ids along which such a run leads. -/
theorem Runs.foreseen {rules : Rules} {nested : Bool} {s₀ s : Situated σ} (hnew : s₀.table.IsNew rules)
    (hrun : Runs (fun _ t m => m.Foreseen ahead t) nested s₀ s)
    (hlt : s.table.drawn < UInt64.size - 1) : s.table.Foreseen ahead := by
  have hrel : (Course.foreseeing ahead).rel s₀.table s.table :=
    hrun.rel (Course.foreseeing_allows nofun) (fun _ _ _ _ hm hn ht => hm.ends_rel hn ht) hnew.sound
  exact hrel.2 hnew.sound hlt hnew.foreseen

/-! ## Rows under ids that are drawn -/

namespace Table

/-- A row is stored. Where another one has its id, this one was ahead of the draws, and is
replaced. -/
structure Adds (ahead : SymbolId → Prop) (t : Table) (row : Row) (t' : Table) : Prop where
  mem_rows : ∀ x, x ∈ t'.rows ↔ x = row ∨ x ∈ t.rows ∧ x.id ≠ row.id
  free : ∀ x ∈ t.rows, x.id = row.id → ahead row.id

namespace Foreseen

section
variable (ha : t.Foreseen ahead) (hs : t.Sound) (hlt : t.drawn < UInt64.size - 1)

include ha hs hlt

/-- An id that is drawn is free, unless it was ahead of the draws. The rows have ids that were drawn
or lie ahead, and this one was not drawn before. -/
theorem ahead_of_allocate {id : SymbolId} (hid : t.store.backend.allocate.1 = .ok id) {r : Row}
    (hr : r ∈ t.rows) (heq : r.id = id) : ahead id := by
  have hnext : id.val.toNat = t.drawn + 1 := (hs.backend.next_of_allocate hid hlt).1
  rcases ha.rows r hr with hdrawn | hahead
  · rw [heq, hnext] at hdrawn
    exact absurd hdrawn (Nat.not_succ_le_self _)
  · exact heq ▸ hahead

/-- A row that is put under a drawn id is added: unless its id was ahead, no other row had it. The
rows are those from before the draw and this one. -/
theorem adds {row : Row} {b : Store.Backend} (hid : t.store.backend.allocate.1 = .ok row.id)
    (hputs : t.store.backend.allocate.2.Puts row b) : t.Adds ahead row (t.withBackend b) where
  mem_rows x := by
    rw [← hs.rows_draw]
    exact hputs.mem_rows x
  free _ hx heq := ha.ahead_of_allocate hs hlt hid hx heq

end

end Foreseen

end Table

/-- What becomes of the rows when a listener is told of changes: nobody else changes them. -/
inductive Listener.Alters (notify : Listener σ) (t : Table) : Table → Prop where
  | refl : Alters notify t t
  | beside {t₁ t₂ : Table} (h : Alters notify t t₁) (hrows : t₂.rows = t₁.rows) : Alters notify t t₂
  | told {x : Situated σ} (e : Event) (h : Alters notify t x.table) : Alters notify t (notify e x).table

/-- A listener that is told several times alters the rows as often, and they are followed through
all of it. -/
theorem Listener.Alters.trans {notify : Listener σ} {t₁ t₂ : Table} (h : notify.Alters t t₁)
    (h' : notify.Alters t₁ t₂) : notify.Alters t t₂ := by
  induction h' with
  | refl => exact h
  | beside _ hrows ih => exact .beside ih hrows
  | told e _ ih => exact .told e ih

/-- A listener that leaves the rows as they are does so whenever it is told. The induction is on
what the listener has been told. -/
theorem Listener.Alters.rows_eq {notify : Listener σ} (hnotify : ∀ e x, (notify e x).table.rows = x.table.rows)
    (h : notify.Alters t t') : t'.rows = t.rows := by
  induction h with
  | refl => rfl
  | beside _ hrows ih => exact hrows.trans ih
  | told e _ ih => exact (hnotify e _).trans ih

/-- With such a listener, a row that is added stays. The listener leaves the rows alone, so the rows
afterwards are those that were there when it was called. -/
theorem Table.Adds.of_alters {notify : Listener σ} {row : Row} {t₁ : Table} (hadds : t.Adds ahead row t₁)
    (hnotify : ∀ e x, (notify e x).table.rows = x.table.rows) (halters : notify.Alters t₁ t') :
    t.Adds ahead row t' where
  mem_rows x := by
    rw [halters.rows_eq hnotify]
    exact hadds.mem_rows x
  free := hadds.free

/-- A row is added, and from then on the listener may be told, or neither rows nor handles have
changed. -/
def Table.AddsAtMostOne (ahead : SymbolId → Prop) (notify : Listener σ) (t t' : Table) : Prop :=
  (∃ row t₁, t.Adds ahead row t₁ ∧ notify.Alters t₁ t') ∨ t'.rows = t.rows ∧ t'.handles = t.handles

namespace Action

variable {α : Type} {notify : Listener σ} {h : HandleId}

/-- What is done to a derived symbol is refused, or done at the same table. It has no row, so there
is nothing to refresh, and it is refused only where the table is closed. -/
theorem Ends.current_of_derived {a : Action σ α} {Q : Except Fault α → Table → Prop} (ht : t.Sound)
    (hderived : (t.handle h).isDerived = true) (hrefused : ∀ fault, Q (.error fault) t)
    (ha : Ends t a Q) : Ends t (Action.current h a) Q := by
  have hrow : (t.handle h).row = none := (Handle.isDerived_iff.1 hderived).1
  refine .current ht h hrefused (fun fault t' hr => ?_) fun t' hr => ?_
  · cases hr with
    | deleted | failed => exact hrefused _
    | vanished _ hrow' => cases hrow.symm.trans hrow'
  · obtain rfl := hr.eq_of_row_eq_none hrow
    exact ha

section
variable (ha : t.Foreseen ahead) (ht : t.Sound) (hlt : t.drawn < UInt64.size - 1)

include ha ht hlt

/-- A row is added under an id that is drawn for it, unless the store refuses. The store may refuse
the draw or the row. In the second case an id was drawn for nothing, which changes neither rows nor
handles. -/
theorem ends_adds (row : SymbolId → Row) (hrow : ∀ id, (row id).id = id) {f : SymbolId → Action σ α}
    {Q : Except Fault α → Table → Prop}
    (hrefused : ∀ fault t', t'.rows = t.rows → t'.handles = t.handles → Q (.error fault) t')
    (hf : ∀ id b, t.Adds ahead (row id) (t.withBackend b) → Ends (t.withBackend b) (f id) Q) :
    Ends t (drawId >>= fun id => putRow (row id) >>= fun _ => f id) Q := by
  have hdrawn (fault : Fault) : Q (.error fault) (t.withBackend t.store.backend.allocate.2) :=
    hrefused fault _ ht.rows_draw rfl
  refine .drawRow ht.backend (fun id b hid hputs => hf id b ?_) (fun _ => hrefused _ _ rfl rfl) fun _ => hdrawn _
  exact ha.adds ht hlt (by rw [hrow]; exact hid) hputs

/-- A symbol that is created adds a row. A draft that is refused before that adds none. What comes
after the row is told to the listener, who may do anything that is said in `Alters`. So the row that
was added is followed until the end. -/
theorem ends_create_adds (draft : Draft) :
    Ends t (create notify draft) fun answer t' =>
      (∃ row t₁, t.Adds ahead row t₁ ∧ notify.Alters t₁ t') ∨ (∃ fault, answer = .error fault) ∧ t'.rows = t.rows := by
  refine .look_bind ?_
  generalize draft.settled t.rules = d
  refine (tells_checkDraft ht d).ends_bind (fun _ _ => ?_) fun fault => .inr ⟨⟨fault, rfl⟩, rfl⟩
  refine ends_adds ha ht hlt d.row (fun _ => rfl) (fun fault _ hrows _ => .inr ⟨⟨fault, rfl⟩, hrows⟩)
    fun id b hadds => ?_
  refine .change_bind (.change_bind ?_)
  generalize hstored : ((t.withBackend b).dropDerived d.address).claimPrimary d.address id d.kind = t₁
  have hstore : t₁.store = (t.withBackend b).store := by
    rw [← hstored, (Table.beside_claimPrimary _ _ _ _).store, Table.store_dropDerived]
  have haltered : notify.Alters (t.withBackend b) t₁ :=
    .beside .refl (congrArg (·.backend.rows) hstore)
  refine (reads_displayName _).ends_bind (fun shown => .look_bind (.seq (.conclude ?_)))
    fun _ => .inl ⟨_, _, hadds, haltered⟩
  cases Handle.ofRow (d.row id) t₁.store.modificationCount with
  | error fault => exact .inl ⟨_, _, hadds, haltered⟩
  | ok s =>
    refine .ok (.look_bind (.change_bind (.seq (.emit fun x hx => .ok (.pure (.inl ⟨_, _, hadds, ?_⟩))))))
    exact .told _ (hx ▸ .beside haltered rfl)

/-- A derived symbol that is stored adds a row. The handle is the one that it had, and the row comes
under the id that was drawn for it. -/
theorem ends_promote_adds (plan : Rename) :
    Ends t (promote notify h plan) fun _ t' => t.AddsAtMostOne ahead notify t' := by
  refine .look_bind (ends_adds ha ht hlt _ (fun _ => rfl) (fun _ _ hrows hhandles => .inr ⟨hrows, hhandles⟩)
    fun id b hadds => ?_)
  refine .change_bind (.change_bind ?_)
  generalize hstored : ((t.withBackend b).embody h _).claimPrimary (t.handle h).address id
    (t.handle h).kind = t₁
  have hstore : t₁.store = (t.withBackend b).store := by
    rw [← hstored, (Table.beside_claimPrimary _ _ _ _).store]
    rfl
  have hadded {t₂ : Table} (haltered : notify.Alters t₁ t₂) : t.AddsAtMostOne ahead notify t₂ :=
    .inl ⟨_, _, hadds, .trans (.beside .refl (congrArg (·.backend.rows) hstore)) haltered⟩
  refine (reads_nameOf h).ends_bind (fun name => ?_) fun _ => hadded .refl
  have hrenamed {t₂ : Table} (haltered : notify.Alters t₁ t₂) : Ends t₂ (if name ≠ plan.oldName then
      emit notify (.stored id) (t.handle h).address (.renamed plan.oldName name) else pure ())
      fun _ t' => t.AddsAtMostOne ahead notify t' := by
    split
    · exact .emit fun x hx => hadded (.told _ (hx ▸ haltered))
    · exact .pure (hadded haltered)
  refine .change_bind (.seq (.emit fun x hx => .ok ?_))
  have htold (e : Event) : notify.Alters t₁ (notify e x).table := .told e (hx ▸ .beside .refl rfl)
  dsimp only
  split
  · exact .seq (.emit fun y hy => .ok (hrenamed (.told _ (hy ▸ htold _))))
  · exact hrenamed (htold _)

/-- A derived symbol that gets a name adds a row, unless it stays as it was. If there is a plan, it
is carried out by storing a row, as the symbol was derived when the plan was made and still is. -/
theorem ends_rename_adds (hderived : (t.handle h).isDerived = true) (name : String) (scope : Scope)
    (p : Provenance) :
    Ends t (rename notify h name scope p) fun _ t' => t.AddsAtMostOne ahead notify t' := by
  refine .current_of_derived ht hderived (fun _ => .inr ⟨rfl, rfl⟩) ?_
  refine (tells_planRename ht h name scope p).ends_bind (fun plan? _ => ?_) fun _ => .inr ⟨rfl, rfl⟩
  split
  · exact .pure (.inr ⟨rfl, rfl⟩)
  · refine .look_bind ?_
    rw [if_pos hderived]
    exact ends_promote_adds ha ht hlt _

/-- A derived symbol that gets a name or a scope adds a row, or nothing is done. All other rows are
left as they are but for what the listener does. -/
theorem ends_perform_adds (hderived : (t.handle h).isDerived = true) {e : Edit}
    (he : (Move.edit h e).Names) :
    Ends t (perform notify h e) fun _ t' => t.AddsAtMostOne ahead notify t' := by
  have hmap {a : Action σ Unit} (hadds : Ends t a fun _ t' => t.AddsAtMostOne ahead notify t') :
      Ends t ((fun _ => Reply.done) <$> a : Action σ (Reply HandleId)) fun _ t' => t.AddsAtMostOne ahead notify t' :=
    .map hadds (fun _ _ h => h) fun _ _ h => h
  have hrename (name : String) (scope : Scope) (p : Provenance) :
      Ends t (rename notify h name scope p) fun _ t' => t.AddsAtMostOne ahead notify t' :=
    ends_rename_adds ha ht hlt hderived name scope p
  have hrefused (_ : Fault) : t.AddsAtMostOne ahead notify t := .inr ⟨rfl, rfl⟩
  cases e with
  | rename name scope p => exact hmap (hrename name scope p)
  | setName name p => exact hmap (.current_of_derived ht hderived hrefused (.look_bind (hrename name _ p)))
  | setScope scope =>
    refine hmap (.current_of_derived ht hderived hrefused ?_)
    exact (reads_nameOf h).ends_bind (fun name => .look_bind (hrename name scope _)) hrefused
  | setProvenance | setPinned | setAddress | relocate | setData1 | setData2 | setData3 | setPrimary
  | delete => exact he.elim

end

end Action

/-! ## What is drawn is free -/

/-- **Creation overwrites no row whose id was not ahead of the draws.** Rows may be put behind the
table's back, under ids that have been drawn and under those that are ahead of the draws. Then an id
that is drawn is not that of a stored row, unless this one was ahead. So a symbol that is created,
or a derived one that gets a name or a scope, adds a row and leaves all others as they were but one
that was ahead. A creation that adds no row is refused, and a derived symbol to which no row was
added is still derived. -/
theorem Runs.drawn_ids_are_free {rules : Rules} {nested : Bool} {s₀ s : Situated σ} (hnew : s₀.table.IsNew rules)
    (hrun : Runs (fun _ t m => m.Foreseen ahead t) nested s₀ s) (hlt : s.table.drawn < UInt64.size - 1)
    (notify : Listener σ) :
    (∀ id, s.table.store.backend.allocate.1 = .ok id → ∀ r ∈ s.table.rows, r.id = id → ahead id) ∧
    (∀ draft answer s', (create notify draft).run s = (answer, s') →
      (∃ row t₁, s.table.Adds ahead row t₁ ∧ notify.Alters t₁ s'.table) ∨
        (∃ fault, answer = .error fault) ∧ s'.table.rows = s.table.rows) ∧
    ∀ h e answer s', (s.table.handle h).isDerived = true → (Move.edit h e).Names →
      (perform notify h e).run s = (answer, s') →
      (∃ row t₁, s.table.Adds ahead row t₁ ∧ notify.Alters t₁ s'.table) ∨
        s'.table.rows = s.table.rows ∧ s'.table.handles = s.table.handles := by
  have ha : s.table.Foreseen ahead := hrun.foreseen hnew hlt
  have hs : s.table.Sound := by
    have hpath : Path (fun _ => True) s₀.table s.table :=
      hrun.path trivial (fun _ _ m _ => .of_forall (fun _ => trivial) m) hnew.sound
    exact hpath.sound hnew.sound
  refine ⟨fun id hid r hr heq => ha.ahead_of_allocate hs hlt hid hr heq, ?_, ?_⟩
  · intro draft answer s' hcreate
    have hends : Ends s.table (create notify draft) _ := ends_create_adds ha hs hlt draft
    have hends' := hends s rfl
    rwa [hcreate] at hends'
  · intro h e answer s' hderived he hperform
    have hends : Ends s.table (perform notify h e) _ := ends_perform_adds ha hs hlt hderived he
    have hends' := hends s rfl
    rwa [hperform] at hends'

/-- A label is created, taken out behind the table's back and put again, and another row is put
under an id that is ahead of the draws. The next draw gives neither of their ids, so the label that
is created then adds a row. -/
theorem Runs.drawn_ids_are_free_of_restored :
    let label (name : String) : Draft := ⟨name, .label, .ram 16, .global, .userDefined, 0, 0, none⟩
    let row (n : UInt64) (hn : n ≠ 0) : Row := .fresh ⟨n, hn⟩ .label (.ram 16) "a" .global .userDefined
    let ahead (id : SymbolId) : Prop := id.val = 3
    let s₀ : Situated Unit := ⟨.empty default .standard, (), 0⟩
    let go (s : Situated Unit) (m : Move) := ((m.action Listener.idle).run s).2
    let s := [.create (label "a"), .take ⟨1, by decide⟩, .put (row 1 (by decide)),
      .put (row 3 (by decide))].foldl go s₀
    let s' := ((create Listener.idle (label "b")).run s).2
    s₀.table.IsNew .standard ∧ Runs (fun _ t m => m.Foreseen ahead t) false s₀ s ∧
      s.table.drawn < UInt64.size - 1 ∧
      s.table.store.backend.allocate.1 = .ok ⟨2, by decide⟩ ∧ (∀ r ∈ s.table.rows, r.id ≠ ⟨2, by decide⟩) ∧
      ∃ row, s.table.Adds ahead row s'.table := by
  intro label row ahead s₀ go s s'
  have hnew : s₀.table.IsNew .standard := .memory _ _ _
  have hrun : Runs (fun _ t m => m.Foreseen ahead t) false s₀ s :=
    .move (.move (.move (.move .refl trivial .idle) trivial .idle) (.inl (by decide)) .idle)
      (.inr rfl) .idle
  have hlt : s.table.drawn < UInt64.size - 1 := by decide
  have hid : s.table.store.backend.allocate.1 = .ok ⟨2, by decide⟩ := by decide
  obtain ⟨hfree, hcreate, -⟩ := Runs.drawn_ids_are_free hnew hrun hlt Listener.idle
  refine ⟨hnew, hrun, hlt, hid, fun r hr heq => ?_, ?_⟩
  · exact absurd (hfree _ hid r hr heq) (by decide)
  · have hok : ((create Listener.idle (label "b")).run s).1 = .ok 1 := by decide
    have hrun' : (create Listener.idle (label "b")).run s = (.ok 1, s') := by rw [← hok]
    rcases hcreate _ _ _ hrun' with ⟨row, t₁, hadds, halters⟩ | ⟨⟨_, ⟨⟩⟩, -⟩
    exact ⟨row, hadds.of_alters (fun _ _ => rfl) halters⟩

/-- A row is put into a new store under the first id. Then this id is drawn for a label that is
created, and replaces the row. -/
theorem Runs.creation_replaces_row_ahead :
    let row : Row := .fresh ⟨1, by decide⟩ .label (.ram 16) "a" .global .userDefined
    let label : Draft := ⟨"b", .label, .ram 32, .global, .userDefined, 0, 0, none⟩
    let go (s : Situated Unit) (m : Move) := ((m.action Listener.idle).run s).2
    ∀ backend ∈ [Store.Backend.memory .empty, Store.Backend.indexed .empty],
      let s₀ : Situated Unit := ⟨.ofStore default .standard ⟨backend, .never⟩ false, (), 0⟩
      let s := go s₀ (.put row)
      s₀.table.IsNew .standard ∧ Runs (fun _ _ _ => True) false s₀ s ∧ s.table.rows = [row] ∧
        s.table.store.backend.allocate.1 = .ok row.id ∧
        (go s (.create label)).table.rows = [label.row row.id] := by
  intro row label go backend hbackend s₀ s
  have hrun : Runs (fun _ _ _ => True) false s₀ s := .move .refl trivial .idle
  rcases List.mem_pair.1 hbackend with rfl | rfl
  · exact ⟨.memory _ _ _, hrun, by decide, by decide, by decide⟩
  · exact ⟨.indexed _ _ _, hrun, by decide, by decide, by decide +kernel⟩

end SymbolTable
