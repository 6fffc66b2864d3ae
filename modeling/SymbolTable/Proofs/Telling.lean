import SymbolTable.Proofs.Outcome

/-!
# Changes that are told

Whoever mirrors a table from its log has to be told of every row that changes. The moves do tell of
it, but for one: a symbol that moves along with a block is stored under another address, and nobody
is told (`Runs.changes_are_told`, `Runs.shifts_are_silent`). Nor is anything told where nothing
changed. Short of deletions, this can be read off what a move comes to (`Table.Outcome`). A deletion
tells of every row that it takes out (`Course.thinning`), and of the handle that it deletes it is
known that its row was there.
-/

namespace SymbolTable

open SymbolTable.Action
open Table (Path Step upkeep)

variable {σ : Type} {t t₁ t₂ t' : Table} {notify : Listener σ} {h : HandleId} {id : SymbolId}

namespace Table

/-- The events are those that were told on the way, and they tell of the changes of rows, but for
those that are silent. -/
structure Mirrored (silent : Row → Address → Prop) (t : Table) (es : List Event) (t' : Table) : Prop where
  log : t'.log = t.log ++ es
  told : ∀ id, t'.row? id ≠ t.row? id → (∃ e ∈ es, e.key = .stored id) ∨
    ∃ r a, t.row? id = some r ∧ t'.row? id = some { r with address := a } ∧ silent r a
  /-- Nothing is told where neither a row nor a designation changed, if names of their own are shown
  and no row has an id that is yet to be drawn. -/
  quiet : t.settings.maxDepth ≠ 0 → (∀ r ∈ t.rows, r.id.val.toNat ≤ t.drawn) →
    t'.drawn < UInt64.size - 1 → (∀ id, t'.row? id = t.row? id) →
    (∀ a, t'.facts.primaryAt a = t.facts.primaryAt a) → es = []

variable {silent : Row → Address → Prop}

/-- If nothing is told, the log mirrors the rows as long as whatever changed is silent. -/
theorem Mirrored.of_quiet (hlog : t'.log = t.log) (hrows : ∀ id, t'.row? id ≠ t.row? id →
    ∃ r a, t.row? id = some r ∧ t'.row? id = some { r with address := a } ∧ silent r a) :
    t.Mirrored silent [] t' :=
  ⟨hlog.trans (List.append_nil _).symm, fun id hne => .inr (hrows id hne), fun _ _ _ _ _ => rfl⟩

/-- Whatever a move comes to that is no deletion, the log mirrors the rows. Each outcome says what
was told and which rows changed, and the proof compares the two. A shift is the outcome in which a
row changes without an event, and it is silent. -/
theorem Outcome.exists_mirrored (ho : t.Outcome silent t') (hs : t.Sound) : ∃ es, t.Mirrored silent es t' := by
  have hsame (hrows : t'.rows = t.rows) (id : SymbolId) (hne : t'.row? id ≠ t.row? id) : False :=
    hne (row?_congr hrows id)
  cases ho with
  | unwritten h => exact ⟨[], .of_quiet h.log fun id hne => (hsame h.rows id hne).elim⟩
  | @stored _ row b hstores hbackend es _ hlog name _ _ =>
    have hrow? (id : SymbolId) : t'.row? id = if id = row.id then some row else t.row? id := by
      rw [row?_congr (t := t.withBackend b) (congrArg Store.Backend.rows hbackend), hstores.row? hs]
    refine ⟨_, hlog, fun id hne => .inl ?_, fun _ hle hlt hrows _ => ?_⟩
    · by_cases hid : id = row.id
      · exact ⟨_, .head _, congrArg Key.stored hid.symm⟩
      · exact absurd ((hrow? id).trans (if_neg hid)) hne
    · -- the row would have been there, under an id that was not drawn yet
      have hdrawn : t'.drawn = b.drawn := congrArg Store.Backend.drawn hbackend
      obtain ⟨hid, -⟩ := hstores.id_eq hs (hdrawn ▸ hlt)
      have hget : t.row? row.id = some row := (hrows row.id).symm.trans ((hrow? row.id).trans (if_pos rfl))
      have hle := hle row (mem_of_row? hget)
      omega
  | @edited t₁ _ r r' hget hid hchanges hreplaces hunnoted hannounces =>
    obtain ⟨es, ns, hr, -, ⟨e, he, hkey⟩, -⟩ := hannounces
    have hrow? (id : SymbolId) : t'.row? id = if id = r'.id then some r' else t.row? id :=
      (row?_congr hr.rows_eq id).trans (hreplaces id)
    refine ⟨es, hr.log.trans (by rw [hunnoted.log]), fun id hne => .inl ⟨e, he, ?_⟩,
      fun hdepth _ _ hrows _ => absurd ?_ (hchanges hdepth)⟩
    · by_cases heq : id = r'.id
      · rw [hkey, heq, hid]
      · exact absurd ((hrow? id).trans (if_neg heq)) hne
    · have hget' : t.row? r'.id = some r' := (hrows r'.id).symm.trans ((hrow? r'.id).trans (if_pos rfl))
      rw [hid, hget] at hget'
      exact (Option.some.inj hget').symm
  | @shifted _ r a hget _ hshifts hreplaces hlog _ =>
    refine ⟨[], .of_quiet hlog fun id hne => ?_⟩
    have hid : id = r.id := by
      by_contra hid
      exact hne ((hreplaces id).trans (if_neg hid))
    subst hid
    exact ⟨r, a, hget, (hreplaces r.id).trans (if_pos rfl), hshifts⟩
  | transferred hrows hlog => exact ⟨[], .of_quiet hlog fun id hne => (hsame hrows id hne).elim⟩
  | designated hrows hchanges _ hlog =>
    exact ⟨_, hlog, fun id hne => (hsame hrows id hne).elim,
      fun _ _ _ _ hfacts => absurd (hfacts _) hchanges⟩

/-! ## Deletions -/

/-- Rows are taken out, and each of them is told. Nothing is told unless a row is taken out that was
there. -/
structure Thins (t : Table) (es : List Event) (t' : Table) : Prop where
  log : t'.log = t.log ++ es
  told : ∀ id, t'.row? id = t.row? id ∨ t'.row? id = none ∧ ∃ e ∈ es, e.key = .stored id
  quiet : es ≠ [] → ∃ id, t.row? id ≠ none ∧ t'.row? id = none

/-- If nothing happens, nothing is thinned out. -/
theorem Thins.refl (t : Table) : t.Thins [] t :=
  ⟨(List.append_nil _).symm, fun _ => .inl rfl, fun hne => absurd rfl hne⟩

/-- If neither the log nor the rows change, nothing is thinned out. -/
theorem Thins.of_eq (hlog : t'.log = t.log) (hrows : t'.rows = t.rows) : t.Thins [] t' :=
  ⟨hlog.trans (List.append_nil _).symm, fun id => .inl (row?_congr hrows id), fun hne => absurd rfl hne⟩

/-- What is thinned out in two stretches is told in the order of the two. A row that is taken out in
the second stretch was there after the first, so it is told once. -/
theorem Thins.trans {es es' : List Event} (ht : t.Thins es t₁) (ht' : t₁.Thins es' t₂) :
    t.Thins (es ++ es') t₂ := by
  refine ⟨by rw [ht'.log, ht.log, List.append_assoc], fun id => ?_, fun hne => ?_⟩
  · rcases ht'.told id with heq' | ⟨hnone, e, he, hkey⟩
    · rcases ht.told id with heq | ⟨hnone, e, he, hkey⟩
      · exact .inl (heq'.trans heq)
      · exact .inr ⟨heq'.trans hnone, e, List.mem_append_left _ he, hkey⟩
    · exact .inr ⟨hnone, e, List.mem_append_right _ he, hkey⟩
  · -- what is gone stays gone, and what goes later was there before
    cases es with
    | nil =>
      obtain ⟨id, hrow, hnone⟩ := ht'.quiet hne
      refine ⟨id, ?_, hnone⟩
      rcases ht.told id with heq | ⟨hgone, -⟩
      · exact heq ▸ hrow
      · exact absurd hgone hrow
    | cons e es =>
      obtain ⟨id, hrow, hnone⟩ := ht.quiet (List.cons_ne_nil e es)
      refine ⟨id, hrow, ?_⟩
      rcases ht'.told id with heq | ⟨hgone, -⟩
      · exact heq.trans hnone
      · exact hgone

/-- Where rows are only taken out, and each of them is told, the log mirrors the rows. A row that is
the same has not to be told of. -/
theorem Thins.mirrored {es : List Event} (ht : t.Thins es t') : t.Mirrored silent es t' := by
  refine ⟨ht.log, fun id hne => .inl ((ht.told id).resolve_left hne).2, fun _ _ _ hrows _ => ?_⟩
  by_contra hne
  obtain ⟨id, hrow, hnone⟩ := ht.quiet hne
  exact hrow ((hrows id).symm.trans hnone)

/-- The number of writes does not go down on any steps. So a table with as many writes as before has
the same rows. -/
theorem Path.writes_le {may : Deed → Prop} (hpath : Path may t t') (hs : t.Sound) : t.writes ≤ t'.writes := by
  induction hpath with
  | refl => exact Nat.le_refl _
  | tail hbefore hstep ih => exact Nat.le_trans ih (hstep.precedes (Path.sound hbefore hs)).writes_le

/-- A row that is taken out is told, unless the store fails. The event has the name that the row
showed, and the row under every other id is as it was. That the store works rules out that nobody is
told because the next one could not be asked for. -/
theorem Departs.thins {r : Row} (hd : t.Departs h r t') (hs : t.Sound) (hworks : t.store.Works) :
    ∃ d : Departure, d.row = r ∧ t'.log = t.log ++ [d.event] ∧
      ∀ id, t'.row? id = if id = r.id then none else t.row? id := by
  obtain ⟨b, hremoves, hbeside⟩ := hd.exists_release
  have hrow? (id : SymbolId) : t'.row? id = if id = r.id then none else t.row? id :=
    (row?_congr (t := t.withBackend b) hbeside.rows_eq id).trans (row?_removes hs.backend hremoves id)
  cases hd with
  | unnoted _ hfails => exact absurd hfails hworks.not_mayFail
  | noted hremoval name => exact ⟨⟨r, name⟩, rfl, congrArg (· ++ _) hremoval.log_eq, hrow?⟩

end Table

/-- The course on which rows are only taken out, and this is told. -/
def Course.thinning : Course where
  rel t t' := Path (fun _ => True) t t' ∧ (t.Reliable → t.store.Works → t'.writes < UInt64.size →
    t'.store.Works ∧ ∃ es, t.Thins es t')
  refl t := ⟨.refl, fun _ hworks _ => ⟨hworks, [], .refl t⟩⟩
  trans h h' := by
    refine ⟨h.1.trans h'.1, fun ht hworks hlt => ?_⟩
    have hlt₁ := Nat.lt_of_le_of_lt (h'.1.writes_le (h.1.sound ht.sound)) hlt
    obtain ⟨hworks₁, es, hthins⟩ := h.2 ht hworks hlt₁
    obtain ⟨hworks₂, es', hthins'⟩ := h'.2 (ht.of_path h.1 hlt₁) hworks₁ hlt
    exact ⟨hworks₂, es ++ es', hthins.trans hthins'⟩
  path h := h.1
  keepsUp {t t'} _ htended := by
    have hpath : Path upkeep t t' := .single htended.stride.step
    refine ⟨hpath.mono fun _ => False.elim, fun _ hworks _ => ⟨hpath.works not_false hworks, [], ?_⟩⟩
    exact .of_eq htended.log hpath.rows_eq_of_upkeep

namespace Course

/-- If the store and the log stay as they are, the table is on the course. -/
theorem thinning_of_store_eq {may : Deed → Prop} (hpath : Path may t t') (hstore : t'.store = t.store)
    (hlog : t'.log = t.log) : thinning.rel t t' := by
  refine ⟨hpath.mono fun _ _ => trivial, fun _ hworks _ => ⟨hstore ▸ hworks, [], .of_eq hlog ?_⟩⟩
  exact congrArg (·.backend.rows) hstore

/-- Deletions go along this course, nested ones included: each row that is taken out departs, and
this is told. So what a listener does in the meantime is followed along the same course, and put in
its place between the departures of others. -/
theorem thinning_nests : thinning.Nests fun _ => thinning where
  weaken _ hrel := hrel
  departs {t t₁ t₂ h r} _ hready _ hrow hrel hkey hdeparts := by
    refine ⟨hrel.1.trans ((hdeparts.path hkey).mono fun _ _ => trivial), fun ht hworks hlt => ?_⟩
    have hs₁ := hrel.1.sound ht.sound
    have hlt₁ := Nat.lt_of_le_of_lt ((hdeparts.path hkey).writes_le hs₁) hlt
    obtain ⟨hworks₁, es, hthins⟩ := hrel.2 ht hworks hlt₁
    obtain ⟨d, rfl, hlog, hrow?⟩ := hdeparts.thins hs₁ hworks₁
    refine ⟨(hdeparts.path hkey).works nofun hworks₁, es ++ [d.event], ?_, fun id => ?_, fun _ => ?_⟩
    · rw [hlog, hthins.log, List.append_assoc]
    · rw [hrow?]
      by_cases hid : id = d.row.id
      · exact .inr ⟨if_pos hid, d.event, List.mem_append_right _ (.head _), congrArg Key.stored hid.symm⟩
      · rw [if_neg hid]
        exact (hthins.told id).imp_right fun hgone =>
          ⟨hgone.1, hgone.2.imp fun _ he => ⟨List.mem_append_left _ he.1, he.2⟩⟩
    · refine ⟨d.row.id, ?_, (hrow? d.row.id).trans (if_pos rfl)⟩
      rw [ht.row?_eq hready hrow]
      exact Option.some_ne_none _
  unmark {t t' h} _ _ hrel := by
    have hmark (t : Table) (deleting : Bool) :
        thinning.rel t (t.updateHandle h fun s => { s with deleting := deleting }) := by
      have hstep : Step (Eq .remove) t (t.updateHandle h fun s => { s with deleting := deleting }) :=
        .mark rfl h deleting
      exact thinning_of_store_eq (.single hstep) rfl rfl
    exact ((hmark t true).trans hrel).trans (hmark t' false)

end Course

/-- Every row that a deletion takes out is told. The removals are told one by one while they happen,
and a listener that records adds nothing to them. -/
theorem follows_delete_thinning (hn : notify.Records) (h : HandleId) :
    Follows .thinning (delete notify h) := by
  refine .bind (.look _) fun _ => follows_deleteWithin Course.thinning_nests (fun e s _ _ => ?_) _ h
  have hstill := hn e s
  have hpath : Path upkeep (s.table.logged e) (notify e s).table := .single (.aside hstill.beside)
  exact Course.thinning_of_store_eq hpath hstill.beside.store hstill.log

/-! ## Moves -/

/-- What a move through the table does to the rows is told, but for the shift of a symbol with its
block. There are deletions, which thin rows out, and the other moves, which come to an outcome. That
versions are left is needed for the deletions, whose copies have to be right. -/
theorem Move.ends_mirrored (hn : notify.Records) (ht : t.Reliable) (hworks : t.store.Works) {m : Move}
    (hm : m.goesThrough) : Ends t (m.action notify) fun _ t' =>
      t'.writes < UInt64.size → ∃ es, t.Mirrored (fun r a => m.Shifts t r a) es t' := by
  by_cases hdelete : ∃ h, m = .edit h .delete
  · obtain ⟨h, rfl⟩ := hdelete
    refine (Ends.rel_map (Ends.rel_map (follows_delete_thinning hn h t ht.sound))).imp fun _ t' hrel hlt => ?_
    obtain ⟨-, es, hthins⟩ := hrel.2 ht hworks hlt
    exact ⟨es, hthins.mirrored⟩
  · refine (Move.ends_outcome hn (ht.faithful hworks) hm fun h heq => hdelete ⟨h, heq⟩).imp fun _ t' ho _ => ?_
    exact ho.exists_mirrored ht.sound

variable {s₀ s : Situated σ}

/-- **Changes of rows are told, but for shifts.** Whatever happened since a table was opened empty,
and as long as the writes fit a word: where the store works and the listener only records, every row
that an operation adds, changes or takes out is told of in the log under its id, unless the
operation moves this symbol along with a block, which changes nothing but its address. And if
neither a row nor a designation changed, nothing is told; this takes that names of their own are
shown at all, and that no row was put under an id that is yet to be drawn. -/
theorem Runs.changes_are_told {rules : Rules} (hnew : s₀.table.IsNew rules) (hrun : Runs Move.any false s₀ s)
    (hworks : s.table.store.Works) (hn : notify.Records) {m : Move} (hm : m.goesThrough)
    (hlt : ((m.action notify).run s).2.table.writes < UInt64.size) :
    ∃ es, s.table.Mirrored (fun r a => m.Shifts s.table r a) es ((m.action notify).run s).2.table := by
  have hpath : Path (fun _ => True) s.table ((m.action notify).run s).2.table := by
    have hs : s.table.Sound := (hrun.path trivial Move.permitted_any hnew.sound).sound hnew.sound
    exact Move.ends (hn.heeds Course.aloof_steps.logs) hs (.of_forall (fun _ => trivial) m) s rfl
  have hs : s.table.Sound := (hrun.path trivial Move.permitted_any hnew.sound).sound hnew.sound
  have ht := Runs.reliable hnew hrun (Nat.lt_of_le_of_lt (hpath.writes_le hs) hlt)
  exact Move.ends_mirrored hn ht hworks hm s rfl hlt

/-- A label is renamed and taken into a namespace at once. Both are told, and nothing else is. The
events come in this order, the scope before the name. -/
theorem Runs.changes_are_told_of_renamed :
    let s₀ : Situated Unit := ⟨.empty default .standard, (), 0⟩
    let go (s : Situated Unit) (m : Move) := ((m.action Listener.recorder).run s).2
    let s₁ := go s₀ (.create ⟨"n", .namespaceScope, .nowhere, .global, .userDefined, 0, 0, none⟩)
    let s := go s₁ (.create ⟨"a", .label, .ram 16, .global, .userDefined, 0, 0, none⟩)
    let within : Scope := .of ⟨1, by decide⟩
    let m : Move := .edit 1 (.rename "b" within .userDefined)
    s₀.table.IsNew .standard ∧ Runs Move.any false s₀ s ∧ s.table.store.Works ∧ m.goesThrough ∧
      (go s m).table.writes < UInt64.size ∧
      s.table.Mirrored (fun r a => m.Shifts s.table r a)
        ([.scopeChanged .global within, .renamed "a" "b"].map (⟨.stored ⟨2, by decide⟩, .ram 16, ·⟩))
        (go s m).table := by
  intro s₀ go s₁ s within m
  have hnew : s₀.table.IsNew .standard := .memory _ _ _
  have hchronicle : Chronicle Move.any false s₀ s :=
    .move (.move .refl trivial Chronicle.recorder) trivial Chronicle.recorder
  have hrun := hchronicle.runs
  have hworks := hchronicle.works hnew.sound fun _ _ _ => rfl
  have hlt : (go s m).table.writes < UInt64.size := by decide +kernel
  obtain ⟨es, hmirrored⟩ := Runs.changes_are_told hnew hrun hworks Listener.records_recorder (m := m) trivial hlt
  have hes : (go s m).table.log.drop s.table.log.length = es := by
    rw [hmirrored.log, List.drop_left]
  refine ⟨hnew, hrun, hworks, trivial, hlt, ?_⟩
  convert hmirrored
  rw [← hes]
  decide +kernel

/-- A label is moved along with a block. Its row has another address then, and nothing is told. A
mirror that goes by the log still has the row at the old address. -/
theorem Runs.shifts_are_silent :
    let id : SymbolId := ⟨1, by decide⟩
    let s₀ : Situated Unit := ⟨.empty default .standard, (), 0⟩
    let go (s : Situated Unit) (m : Move) := ((m.action Listener.recorder).run s).2
    let s := go s₀ (.create ⟨"a", .label, .ram 16, .global, .userDefined, 0, 0, none⟩)
    let m : Move := .edit 0 (.relocate (.ram 16) (.ram 32))
    s₀.table.IsNew .standard ∧ Runs Move.any false s₀ s ∧ s.table.store.Works ∧
      ((m.action Listener.recorder).run s).1 = .ok () ∧
      (s.table.row? id).map (·.address) = some (.ram 16) ∧
      ((go s m).table.row? id).map (·.address) = some (.ram 32) ∧
      (go s m).table.log = s.table.log := by
  intro id s₀ go s m
  have hnew : s₀.table.IsNew .standard := .memory _ _ _
  have hchronicle : Chronicle Move.any false s₀ s := .move .refl trivial Chronicle.recorder
  have hworks := hchronicle.works hnew.sound fun _ _ _ => rfl
  exact ⟨hnew, hchronicle.runs, hworks, by decide +kernel, by decide +kernel, by decide +kernel,
    by decide +kernel⟩

end SymbolTable
