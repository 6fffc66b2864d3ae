import SymbolTable.Proofs.Cascade
import SymbolTable.Proofs.Outcome

/-!
# The ledger of symbols

That a symbol is stored and that its row is taken out again is told to the listener and noted in the
journal. How often this happened for an id is its tally (`Table.additions`, `Table.removals`). A
move either leaves an id and its tallies alone, or stores the id, which is then a fresh one, or
takes its row out, and tells and notes it once (`Table.Books`). So at the end of a run every id that
was ever stored was added once, and was removed once if it is stored no more.
-/

namespace SymbolTable

open SymbolTable.Action
open Table (Path Step upkeep)

variable {σ α : Type} {t t₁ t' : Table} {notify : Listener σ} {h : HandleId} {id : SymbolId}

/-! ## Tallies -/

/-- How often something was told and noted. -/
structure Tally where
  told : Nat
  noted : Nat
  deriving DecidableEq

namespace Tally

/-- Never. -/
def never : Tally := ⟨0, 0⟩

/-- Once. -/
def once : Tally := ⟨1, 1⟩

/-- Once more. -/
def succ (n : Tally) : Tally := ⟨n.told + 1, n.noted + 1⟩

/-- Once more than never is once. -/
theorem succ_never : never.succ = once := rfl

end Tally

namespace Table

/-- How often a change of this sort was told, and an action was noted, of the symbol with an id. -/
def tally (t : Table) (sort : Change.Sort) (action : Journal.Action) (id : SymbolId) : Tally where
  told := t.log.countP fun e => e.change.sort = sort && e.key = .stored id
  noted := t.journal.entries.countP fun n => n.action = action && n.key = .stored id

/-- How often it was told and noted that the symbol was added. -/
def additions (t : Table) (id : SymbolId) : Tally :=
  t.tally .added .added id

/-- How often it was told and noted that the symbol was removed. -/
def removals (t : Table) (id : SymbolId) : Tally :=
  t.tally .removed .removed id

/-- Everything was noted of stored symbols. -/
def Keyed (t : Table) : Prop :=
  ∀ n ∈ t.journal.entries, ∃ id, n.key = .stored id

/-- No tally changes by what is told and noted of symbols that are there before and after it, even
where entries are carried along. -/
theorem tally_eq {es : List Event} {ns : List Journal.Entry} {j : Journal} {sort : Change.Sort}
    {action : Journal.Action} (hlog : t'.log = t.log ++ es)
    (hes : ∀ e ∈ es, e.change.sort = sort → e.key ≠ .stored id) (hcarries : t.journal.Carries j)
    (hkeyed : t.Keyed) (hjournal : t'.journal.entries = j.entries ++ ns)
    (hns : ∀ n ∈ ns, n.action = action → n.key ≠ .stored id) : t'.tally sort action id = t.tally sort action id := by
  obtain ⟨f, hmap, hf⟩ := hcarries
  have hnone : es.countP (fun e => e.change.sort = sort && e.key = .stored id) = 0 :=
    List.countP_eq_zero.2 fun e he => by simpa using hes e he
  have hnone' : ns.countP (fun n => n.action = action && n.key = .stored id) = 0 :=
    List.countP_eq_zero.2 fun n hn => by simpa using hns n hn
  have hcarried : (t.journal.entries.map f).countP (fun n => n.action = action && n.key = .stored id) =
      t.journal.entries.countP fun n => n.action = action && n.key = .stored id := by
    rw [List.countP_map]
    refine List.countP_congr fun n hn => ?_
    obtain ⟨i, hi⟩ := hkeyed n hn
    simp only [Function.comp, (hf n).1, (hf n).2 i hi, hi]
  rw [tally, tally, hlog, hjournal, hmap, List.countP_append, List.countP_append, hnone, hnone', hcarried]
  rfl

/-- If all entries were of stored symbols, they still are when further ones of stored symbols are
noted. Those that were there before may have been carried to other addresses, which does not change
of whom they are. -/
theorem Keyed.append {ns : List Journal.Entry} {j : Journal} (hkeyed : t.Keyed)
    (hcarries : t.journal.Carries j) (hjournal : t'.journal.entries = j.entries ++ ns)
    (hns : ∀ n ∈ ns, ∃ id, n.key = .stored id) : t'.Keyed := by
  obtain ⟨f, hmap, hf⟩ := hcarries
  intro n hn
  rw [hjournal, hmap] at hn
  rcases List.mem_append.1 hn with hn | hn
  · obtain ⟨x, hx, rfl⟩ := List.mem_map.1 hn
    obtain ⟨i, hi⟩ := hkeyed x hx
    exact ⟨i, (hf x).2 i hi⟩
  · exact hns n hn

/-! ## Books -/

/-- What a move does to an id and to its tallies. -/
inductive Books (t t' : Table) (id : SymbolId) : Prop where
  /-- The id is stored if it was, and nothing of the kind is told or noted. -/
  | kept (hrow : (t'.row? id).isSome = (t.row? id).isSome) (hadditions : t'.additions id = t.additions id)
      (hremovals : t'.removals id = t.removals id)
  /-- The id, which is a fresh one, is stored. -/
  | added (hfresh : t.drawn < id.val.toNat) (hrow : (t'.row? id).isSome = true)
      (hadditions : t'.additions id = (t.additions id).succ) (hremovals : t'.removals id = t.removals id)
  /-- The row is taken out. -/
  | removed (hbefore : (t.row? id).isSome = true) (hrow : (t'.row? id).isSome = false)
      (hadditions : t'.additions id = t.additions id) (hremovals : t'.removals id = (t.removals id).succ)

/-- What is announced of a symbol that is there is no addition and no removal. Its events and
entries are renamings and the like, which are not counted in either tally. -/
theorem Books.of_announces {i : SymbolId} (hkeyed : t.Keyed) (hlog : t₁.log = t.log)
    (hjournal : t₁.journal = t.journal) (hannounces : t₁.Announces i t')
    (hrow : (t'.row? id).isSome = (t.row? id).isSome) : t.Books t' id ∧ t'.Keyed := by
  obtain ⟨es, ns, hr, hlasting, -, hns⟩ := hannounces
  have hlog' := hr.log
  have hjournal' := hr.journal
  rw [hlog] at hlog'
  rw [hjournal] at hjournal'
  have htally (sort : Change.Sort) (action : Journal.Action) (hsort : sort = .added ∨ sort = .removed)
      (haction : action ≠ .renamed) : t'.tally sort action id = t.tally sort action id := by
    refine tally_eq hlog' ?_ (.refl _) hkeyed hjournal' fun n hn heq => absurd (heq ▸ (hns n hn).1) haction
    rintro e he rfl
    rcases hsort with heq | heq
    · exact absurd heq (hlasting e he).1
    · exact absurd heq (hlasting e he).2
  exact ⟨.kept hrow (htally _ _ (.inl rfl) nofun) (htally _ _ (.inr rfl) nofun),
    hkeyed.append (.refl _) hjournal' fun n hn => ⟨i, (hns n hn).2⟩⟩

/-- To put an edited row in the place of one that is stored leaves under each id something or
nothing, as before. So it makes no difference to how many rows there are under the id. -/
theorem isSome_of_replaces {r r' : Row} (hget : t.row? r.id = some r) (hid : r'.id = r.id)
    (hreplaces : t.Replaces r' t') (id : SymbolId) : (t'.row? id).isSome = (t.row? id).isSome := by
  rw [hreplaces id]
  split
  · rename_i heq
    rw [heq, hid, hget]
    rfl
  · rfl

/-- A symbol that is stored is told and noted as added, which none was under its id. Nobody was
tallied under the id before, since ids that are tallied were drawn. So it is once afterwards, in the
log and in the journal. -/
theorem Books.of_stores {row : Row} {b : Store.Backend} {es : List Event} {j : Journal} {name : String}
    (hs : t.Sound) (hkeyed : t.Keyed) (hstores : t.Stores row b) (hbackend : t'.store.backend = b)
    (hlasting : ∀ e ∈ es, e.Lasting) (hlog : t'.log = t.log ++ ⟨.stored row.id, row.address, .added⟩ :: es)
    (hcarries : t.journal.Carries j)
    (hjournal : t'.journal.entries = j.entries ++ [⟨row.address, .stored row.id, .added, name⟩])
    (hlt : t'.drawn < UInt64.size - 1) (id : SymbolId) : t.Books t' id ∧ t'.Keyed := by
  have hrow? : t'.row? id = if id = row.id then some row else t.row? id := by
    rw [row?_congr (t := t.withBackend b) (congrArg Store.Backend.rows hbackend), hstores.row? hs]
  have hdrawn : t'.drawn = b.drawn := congrArg Store.Backend.drawn hbackend
  obtain ⟨hid, -⟩ := hstores.id_eq hs (hdrawn ▸ hlt)
  have hremovals : t'.removals id = t.removals id := by
    refine tally_eq hlog (fun e he hsort => ?_) hcarries hkeyed hjournal fun n hn haction => ?_
    · rcases List.mem_cons.1 he with rfl | he
      · cases hsort
      · exact absurd hsort (hlasting e he).2
    · obtain rfl := List.mem_singleton.1 hn
      cases haction
  refine ⟨?_, hkeyed.append hcarries hjournal fun n hn => ⟨row.id, congrArg _ (List.mem_singleton.1 hn)⟩⟩
  by_cases hrow : id = row.id
  · subst hrow
    refine .added (by omega) (by rw [hrow?, if_pos rfl]; rfl) ?_ hremovals
    -- all that is told and noted besides is that the symbol is added
    have hrest : ({ t' with
        log := t.log ++ es
        journal := j } : Table).additions row.id = t.additions row.id := by
      refine tally_eq rfl (fun e he hsort => absurd hsort (hlasting e he).1) hcarries hkeyed
        (List.append_nil _).symm nofun
    rw [← hrest]
    simp [additions, tally, Tally.succ, hlog, hjournal, Change.sort]
    omega
  · refine .kept (by rw [hrow?, if_neg hrow]) ?_ hremovals
    refine tally_eq hlog (fun e he hsort => ?_) hcarries hkeyed hjournal fun n hn _ hkey => ?_
    · rcases List.mem_cons.1 he with rfl | he
      · exact fun hkey => hrow (Key.stored.inj hkey).symm
      · exact absurd hsort (hlasting e he).1
    · obtain rfl := List.mem_singleton.1 hn
      exact hrow (Key.stored.inj hkey).symm

/-- A move that is no deletion keeps the books, until ids run out. The proof goes through the
outcomes. Only one of them adds a row, and none takes one out. -/
theorem Outcome.books {shifts : Row → Address → Prop} (ho : t.Outcome shifts t') (hs : t.Sound)
    (hkeyed : t.Keyed) (hlt : t'.drawn < UInt64.size - 1) (id : SymbolId) : t.Books t' id ∧ t'.Keyed := by
  have hquiet (hrow : (t'.row? id).isSome = (t.row? id).isSome) {es : List Event}
      (hlog : t'.log = t.log ++ es) (hlasting : ∀ e ∈ es, e.Lasting)
      (hcarries : t.journal.Carries t'.journal) : t.Books t' id ∧ t'.Keyed := by
    have hjournal : t'.journal.entries = t'.journal.entries ++ [] := (List.append_nil _).symm
    refine ⟨.kept hrow ?_ ?_, hkeyed.append hcarries hjournal nofun⟩
    · exact tally_eq hlog (fun e he hsort => absurd hsort (hlasting e he).1) hcarries hkeyed hjournal nofun
    · exact tally_eq hlog (fun e he hsort => absurd hsort (hlasting e he).2) hcarries hkeyed hjournal nofun
  cases ho with
  | unwritten h =>
    have hlog : t'.log = t.log ++ [] := by rw [h.log, List.append_nil]
    exact hquiet (by rw [row?_congr h.rows]) hlog nofun (h.journal ▸ .refl _)
  | stored hstores hbackend hlasting hlog _ hcarries hjournal =>
    exact Books.of_stores hs hkeyed hstores hbackend hlasting hlog hcarries hjournal hlt id
  | edited hget hid _ hreplaces hunnoted hannounces =>
    refine Books.of_announces hkeyed hunnoted.log hunnoted.journal hannounces ?_
    obtain ⟨_, _, hr, -⟩ := hannounces
    rw [row?_congr hr.rows_eq]
    exact isSome_of_replaces hget hid hreplaces id
  | @shifted _ r a hget _ _ hreplaces hlog hcarries =>
    have hid : ({ r with address := a } : Row).id = r.id := rfl
    exact hquiet (isSome_of_replaces hget hid hreplaces id) (hlog.trans (List.append_nil _).symm) nofun hcarries
  | transferred hrows hlog hcarries =>
    exact hquiet (by rw [row?_congr hrows]) (hlog.trans (List.append_nil _).symm) nofun hcarries
  | designated hrows _ hlasting hlog hjournal =>
    exact hquiet (by rw [row?_congr hrows]) hlog (List.forall_mem_singleton.2 hlasting) (hjournal ▸ .refl _)

/-- A deletion keeps the books. Each departure is noted and told once, and no id departs twice.
Everything else that happens in a deletion is neither told nor noted. -/
theorem Loses.books {gone : List Departure} (hl : t.Loses gone t') (hs : t.Sound) (hs' : t'.Sound)
    (hkeyed : t.Keyed) (id : SymbolId) : t.Books t' id ∧ t'.Keyed := by
  have hkeyed' : t'.Keyed := by
    refine hkeyed.append (.refl _) hl.journal fun n hn => ?_
    obtain ⟨d, -, rfl⟩ := List.mem_map.1 hn
    exact ⟨d.row.id, rfl⟩
  have hadditions : t'.additions id = t.additions id := by
    refine tally_eq hl.log (fun e he hsort => ?_) (.refl _) hkeyed hl.journal fun n hn haction => ?_
    · obtain ⟨d, -, rfl⟩ := List.mem_map.1 he
      cases hsort
    · obtain ⟨d, -, rfl⟩ := List.mem_map.1 hn
      cases haction
  have htold : (gone.map (·.event)).countP (fun e => e.change.sort = .removed && e.key = .stored id) =
      (gone.map (·.row.id)).count id := by
    rw [List.countP_map, List.count, List.countP_map]
    refine List.countP_congr fun d _ => ?_
    simp [Departure.event, Change.sort]
  have hnoted : (gone.map (·.entry)).countP (fun n => n.action = .removed && n.key = .stored id) =
      (gone.map (·.row.id)).count id := by
    rw [List.countP_map, List.count, List.countP_map]
    refine List.countP_congr fun d _ => ?_
    simp [Departure.entry]
  have hremovals : t'.removals id = ⟨(t.removals id).told + (gone.map (·.row.id)).count id,
      (t.removals id).noted + (gone.map (·.row.id)).count id⟩ := by
    rw [removals, tally, hl.log, hl.journal, List.countP_append, List.countP_append, htold, hnoted]
    rfl
  refine ⟨?_, hkeyed'⟩
  by_cases hgone : id ∈ gone.map (·.row.id)
  · rw [List.count_eq_one_of_mem hl.once hgone] at hremovals
    obtain ⟨d, hd, rfl⟩ := List.mem_map.1 hgone
    refine .removed ?_ ?_ hadditions hremovals
    · rw [row?_id hs.backend (hl.stored d hd)]
      rfl
    · rw [Option.isSome_eq_false_iff, Option.isNone_iff_eq_none, row?_eq_none_iff]
      intro x hx hid
      obtain ⟨hx, hleft⟩ := (hl.mem_rows x).1 hx
      obtain rfl := hs.backend.ascending_rows.eq_of_id_eq hx (hl.stored d hd) hid
      exact hleft (List.mem_map_of_mem hd)
  · rw [List.count_eq_zero.2 hgone] at hremovals
    refine .kept ?_ hadditions hremovals
    refine congrArg Option.isSome (Option.ext fun x => ?_)
    rw [row?_eq_some_iff hs'.backend, row?_eq_some_iff hs.backend, hl.mem_rows]
    refine and_congr_left fun hid => and_iff_left ?_
    intro hmem
    obtain ⟨d, hd, rfl⟩ := List.mem_map.1 hmem
    exact hgone (hid ▸ List.mem_map_of_mem hd)

end Table

namespace Action

/-- To delete a symbol that is gone or derived does nothing. It is answered that there was no row.
The refresh that comes first leaves a handle without a row as it is. -/
theorem ends_delete_of_rowless (hs : t.Sound) (he : t.Exact) (hrow : (t.handle h).row = none)
    (hidle : (t.handle h).deleting = false) : Ends t (delete notify h) fun _ t' => t' = t := by
  have hmark : Step (Eq .remove) t (t.updateHandle h fun s => { s with deleting := true }) := .mark rfl h true
  have hrow' : ((t.updateHandle h fun s => { s with deleting := true }).handle h).row = none := by
    rw [Table.map_updateHandle Handle.row rfl, hrow]
  refine .look_bind (.ask_bind (fun _ _ => .look_bind ?_) fun _ _ => rfl)
  rw [hidle, if_neg Bool.false_ne_true]
  refine .change_bind (.attempt_bind
    (ends_deleteMarked_of_rowless (hmark.sound hs) (hmark.exact nofun nofun hs nofun he) hrow') ?_)
  rintro answer _ ⟨rfl, -⟩
  exact .change_bind (.conclude (t.unmark_mark hidle))

end Action

/-- Every move keeps the books, until ids run out. There are two sorts of moves: deletions, which
lose rows, and the others, which come to an outcome. Either keeps the books. -/
theorem Move.ends_books (hn : notify.Records) (ht : t.Standing) (hlt : t.drawn < UInt64.size - 1)
    (hserving : t.Serving) (hkeyed : t.Keyed) {m : Move} (hm : m.keepsForest false t) :
    Ends t (m.action notify) fun _ t' =>
      t'.drawn < UInt64.size - 1 → (∀ id, t.Books t' id) ∧ t'.Keyed := by
  have hs := ht.sound
  have he := ht.exact hlt
  by_cases hdelete : ∃ h, m = .edit h .delete
  · obtain ⟨h, rfl⟩ := hdelete
    have hends : Ends t (delete notify h) fun _ t' => (∀ id, t.Books t' id) ∧ t'.Keyed := by
      cases hrow : (t.handle h).row with
      | none =>
        refine (ends_delete_of_rowless hs he hrow (ht.idle hlt h)).imp ?_
        rintro _ _ rfl
        exact ⟨fun _ => .kept rfl rfl rfl, hkeyed⟩
      | some r =>
        refine Ends.imp (answers_delete hn (.of_idle hs he (ht.forest hlt) (ht.idle hlt) h) hserving hrow) ?_
        rintro _ t' ⟨_, -, -, hdeleted, gone, hfelled⟩
        have hbooks := hfelled.loses.books hs (hdeleted.pruned.path.sound hs) hkeyed
        exact ⟨fun id => (hbooks id).1, (hbooks ⟨1, by decide⟩).2⟩
    have hmap {α β : Type} {a : Action σ α} {f : α → β}
        (ha : Ends t a fun _ t' => (∀ id, t.Books t' id) ∧ t'.Keyed) :
        Ends t (f <$> a) fun _ t' => (∀ id, t.Books t' id) ∧ t'.Keyed :=
      .map ha (fun _ _ h => h) fun _ _ h => h
    exact (hmap (hmap hends)).imp fun _ _ h _ => h
  · have hthrough : m.goesThrough := by
      cases m with
      | put | take => exact hm
      | _ => trivial
    refine (Move.ends_outcome hn (he.faithful hs hserving.works) hthrough fun h heq => hdelete ⟨h, heq⟩).imp ?_
    intro _ t' ho hlt'
    have hbooks := ho.books hs hkeyed hlt'
    exact ⟨fun id => (hbooks id).1, (hbooks ⟨1, by decide⟩).2⟩

/-! ## Trails -/

/-- A run of moves whose listeners only record, from the moment that a table is opened whose store
works. In between, anything may change that stands around the rows and the handles, but the journal
and the log. The run leads through a list of tables, the last one first. -/
inductive Trail (rules : Rules) : List Table → Situated σ → Prop where
  | start {s : Situated σ} (hnew : s.table.IsNew rules) (hworks : s.table.store.Works) :
      Trail rules [s.table] s
  | aside {ts : List Table} {s s' : Situated σ} (htrail : Trail rules ts s) (hbeside : s.table.Beside s'.table)
      (hjournal : s'.table.journal = s.table.journal) (hlog : s'.table.log = s.table.log) :
      Trail rules (s'.table :: ts) s'
  | move {ts : List Table} {s : Situated σ} {notify : Listener σ} {m : Move} (htrail : Trail rules ts s)
      (hm : m.keepsForest false s.table) (hn : notify.Records) :
      Trail rules (((m.action notify).run s).2.table :: ts) ((m.action notify).run s).2

namespace Trail

variable {rules : Rules} {ts : List Table} {s : Situated σ}

/-- A trail is a run. The listeners only record, so what happens in the middle of its moves is no
move. The induction is on the trail. -/
theorem exists_runs (htrail : Trail rules ts s) :
    ∃ s₀ : Situated σ, s₀.table.IsNew rules ∧ Runs Move.keepsForest false s₀ s := by
  induction htrail with
  | @start s hnew => exact ⟨s, hnew, .refl⟩
  | aside _ hbeside _ _ ih =>
    obtain ⟨s₀, hnew, hrun⟩ := ih
    exact ⟨s₀, hnew, .drift hrun hbeside.drifts⟩
  | move _ hm hn ih =>
    obtain ⟨s₀, hnew, hrun⟩ := ih
    exact ⟨s₀, hnew, .move hrun hm fun e x => .drift .refl (hn.beside e x).drifts⟩

/-- A table is standing at every point of a trail. -/
theorem standing (htrail : Trail rules ts s) : s.table.Standing := by
  obtain ⟨_, hnew, hrun⟩ := htrail.exists_runs
  exact hrun.standing hnew

/-- The store works throughout a trail, since no outages are planned in it. Moves plan no outages,
and what changes around the table does not in a trail. The induction is on it. -/
theorem works (htrail : Trail rules ts s) : s.table.store.Works := by
  induction htrail with
  | start _ hworks => exact hworks
  | aside _ hbeside _ _ ih =>
    rw [hbeside.store]
    exact ih
  | @move ts s notify m htrail hm hn ih =>
    have hpath := Move.ends (hn.heeds Course.aloof_steps.logs) htrail.standing.sound
      (Move.permitted_ne_plan s.table m) s rfl
    exact hpath.works (fun hplan => hplan rfl) ih

/-- Calls are answered throughout a trail. -/
theorem serving (htrail : Trail rules ts s) : s.table.Serving := by
  obtain ⟨_, hnew, hrun⟩ := htrail.exists_runs
  exact ⟨htrail.works, hrun.opened hnew⟩

end Trail

/-- Whether the id was ever stored in the tables of a trail. -/
def everStored (ts : List Table) (id : SymbolId) : Bool :=
  ts.any fun t => (t.row? id).isSome

/-- What the tallies are at the end of a trail. -/
structure Table.Balanced (t : Table) (ts : List Table) : Prop where
  keyed : t.Keyed
  drawn : ∀ id, everStored ts id = true → id.val.toNat ≤ t.drawn
  stored : ∀ id, (t.row? id).isSome = true → everStored ts id = true
  additions : ∀ id, t.additions id = if everStored ts id then .once else .never
  removals : ∀ id, t.removals id = if everStored ts id && !(t.row? id).isSome then .once else .never

/-- A balance goes on over a move that keeps the books. An id that is stored for the first time was
never tallied before. -/
theorem Table.Balanced.of_books {ts : List Table} (hb : t.Balanced ts) (hbooks : ∀ id, t.Books t' id)
    (hkeyed : t'.Keyed) (hle : t.drawn ≤ t'.drawn) (he : t'.Exact) : t'.Balanced (t' :: ts) := by
  have hever (id : SymbolId) : everStored (t' :: ts) id = ((t'.row? id).isSome || everStored ts id) := rfl
  have hdrawn {id : SymbolId} (hrow : (t'.row? id).isSome = true) : id.val.toNat ≤ t'.drawn := by
    obtain ⟨r, hr⟩ := Option.isSome_iff_exists.1 hrow
    exact Table.id_of_row? hr ▸ he.le_drawn r (Table.mem_of_row? hr)
  refine ⟨hkeyed, fun id hid => ?_, fun id hrow => ?_, fun id => ?_, fun id => ?_⟩
  · rw [hever, Bool.or_eq_true] at hid
    exact hid.elim hdrawn fun hid => Nat.le_trans (hb.drawn id hid) hle
  · rw [hever, hrow, Bool.true_or]
  all_goals
    have hstored := hb.stored id
    rw [hever]
    cases hbooks id with
    | kept hrow hadditions hremovals =>
      simp only [hrow, hadditions, hremovals, hb.additions, hb.removals]
      cases hsome : (t.row? id).isSome <;> simp_all
    | added hfresh hrow hadditions hremovals =>
      have hnever : everStored ts id = false := by
        refine Bool.eq_false_iff.2 fun hid => ?_
        have hle := hb.drawn id hid
        omega
      simp [hrow, hadditions, hremovals, hb.additions, hb.removals, hnever, Tally.succ_never]
    | removed hbefore hrow hadditions hremovals =>
      simp [hrow, hadditions, hremovals, hb.additions, hb.removals, hstored hbefore, hbefore, Tally.succ_never]

namespace Trail

variable {rules : Rules} {ts : List Table} {s : Situated σ}

/-- The tallies are balanced at every point of a trail. The induction is on the trail, move by move.
That ids are left at the end says that they were all along. -/
theorem balanced (htrail : Trail rules ts s) (hlt : s.table.drawn < UInt64.size - 1) : s.table.Balanced ts := by
  induction htrail with
  | @start s hnew =>
    have hnone (id : SymbolId) : s.table.row? id = none := by
      rw [Table.row?, hnew.rows_eq]
      rfl
    have hnever (id : SymbolId) : everStored [s.table] id = false := by
      rw [everStored, List.any_cons, hnone]
      rfl
    have htally (sort : Change.Sort) (action : Journal.Action) (id : SymbolId) :
        s.table.tally sort action id = .never := by
      rw [Table.tally, hnew.log_eq, hnew.journal_eq]
      rfl
    refine ⟨?_, fun id hid => ?_, fun id hrow => ?_, fun id => ?_, fun id => ?_⟩
    · rw [Table.Keyed, hnew.journal_eq]
      exact List.forall_mem_nil _
    · cases (hnever id).symm.trans hid
    · rw [hnone] at hrow
      cases hrow
    · rw [hnever]
      exact htally ..
    · rw [hnever]
      exact htally ..
  | @aside ts s s' htrail hbeside hjournal hlog ih =>
    have hdrawn : s'.table.drawn = s.table.drawn := hbeside.drawn_eq
    have htally (sort : Change.Sort) (action : Journal.Action) (id : SymbolId) :
        s'.table.tally sort action id = s.table.tally sort action id := by
      rw [Table.tally, Table.tally, hlog, hjournal]
    have hb := ih (hdrawn ▸ hlt)
    refine hb.of_books (fun id => .kept ?_ (htally ..) (htally ..)) ?_ (Nat.le_of_eq hdrawn.symm)
      ((htrail.aside hbeside hjournal hlog).standing.exact hlt)
    · rw [Table.row?_congr hbeside.rows_eq]
    · rw [Table.Keyed, hjournal]
      exact hb.keyed
  | @move ts s notify m htrail hm hn ih =>
    have hle := Path.drawn_le (Move.ends (hn.heeds Course.aloof_steps.logs) htrail.standing.sound
      (Move.permitted_ne_plan s.table m) s rfl) htrail.standing.sound
    have hlt₁ := Nat.lt_of_le_of_lt hle hlt
    have hb := ih hlt₁
    obtain ⟨hbooks, hkeyed⟩ := Move.ends_books hn htrail.standing hlt₁ htrail.serving hb.keyed hm s rfl hlt
    exact hb.of_books hbooks hkeyed hle ((htrail.move hm hn).standing.exact hlt)

/-- **Every symbol is added once and removed once.** A table was opened empty over a store that
works, and then symbols were created, edited, relocated and deleted through it. No listener acted on
it, no derived symbol was relocated, and there are ids left. Then for every id, that its symbol was
added was told once and noted once under this id if the id was ever stored, and never otherwise.
That it was removed was told once and noted once if it was stored and is no longer, and never
otherwise. So the ids that are stored are those of which the log says that they were added, and does
not say that they were removed. -/
theorem ledger_balances (htrail : Trail rules ts s) (hlt : s.table.drawn < UInt64.size - 1) (id : SymbolId) :
    s.table.additions id = (if everStored ts id then .once else .never) ∧
    s.table.removals id = (if everStored ts id && !(s.table.row? id).isSome then .once else .never) ∧
    (s.table.row? id ≠ none ↔ (∃ e ∈ s.table.log, e.key = .stored id ∧ e.change.sort = .added) ∧
      ¬ ∃ e ∈ s.table.log, e.key = .stored id ∧ e.change.sort = .removed) := by
  have hb := htrail.balanced hlt
  have htold (sort : Change.Sort) (action : Journal.Action) :
      (∃ e ∈ s.table.log, e.key = .stored id ∧ e.change.sort = sort) ↔
        0 < (s.table.tally sort action id).told := by
    simp [Table.tally, List.countP_pos_iff, and_comm]
  refine ⟨hb.additions id, hb.removals id, ?_⟩
  rw [htold .added .added, htold .removed .removed]
  show _ ↔ 0 < (s.table.additions id).told ∧ ¬ 0 < (s.table.removals id).told
  have hstored := hb.stored id
  rw [hb.additions, hb.removals]
  cases hrow : s.table.row? id with
  | some r =>
    rw [hrow] at hstored
    simp [hstored rfl, Tally.once, Tally.never]
  | none => cases everStored ts id <;> simp [Tally.once, Tally.never]

/-- A namespace with a label in it, and a derived symbol that gets a name. After the label was
relocated with its block, the namespace is deleted, and only the symbol that was derived is
stored. -/
theorem ledger_balances_of_deleted :
    let s₀ : Situated Unit := ⟨.empty default .standard, (), 0⟩
    let go (s : Situated Unit) (m : Move) := ((m.action Listener.recorder).run s).2
    let id (n : UInt64) (h : n ≠ 0) : SymbolId := ⟨n, h⟩
    let s₁ := go s₀ (.create ⟨"n", .namespaceScope, .nowhere, .global, .userDefined, 0, 0, none⟩)
    let s₂ := go s₁ (.create ⟨"a", .label, .ram 16, .of (id 1 (by decide)), .userDefined, 0, 0, none⟩)
    let s₃ := go s₂ (.search (.derivedAt (.ram 32)))
    let s₄ := go s₃ (.edit 2 (.setName "b" .userDefined))
    let s₅ := go s₄ (.edit 1 (.relocate (.ram 0) (.ram 64)))
    let s := go s₅ (.edit 0 .delete)
    let ts := [s, s₅, s₄, s₃, s₂, s₁, s₀].map (·.table)
    Trail .standard ts s ∧ s.table.drawn < UInt64.size - 1 ∧ s.table.rows.map (·.id.val) = [3] ∧
      s.table.additions (id 2 (by decide)) = .once ∧ s.table.removals (id 2 (by decide)) = .once ∧
      s.table.additions (id 3 (by decide)) = .once ∧ s.table.removals (id 3 (by decide)) = .never ∧
      s.table.additions (id 4 (by decide)) = .never ∧ s.table.removals (id 4 (by decide)) = .never := by
  intro s₀ go id s₁ s₂ s₃ s₄ s₅ s ts
  have hgoes {ts : List Table} {s : Situated Unit} (m : Move) (htrail : Trail .standard ts s)
      (hm : m.keepsForest false s.table) : Trail .standard ((go s m).table :: ts) (go s m) :=
    .move htrail hm Listener.records_recorder
  have htrail₀ : Trail .standard [s₀.table] s₀ := .start (.memory _ _ _) fun _ _ _ => rfl
  have htrail₂ : Trail .standard ([s₂, s₁, s₀].map (·.table)) s₂ := hgoes _ (hgoes _ htrail₀ rfl) rfl
  have htrail₅ : Trail .standard ([s₅, s₄, s₃, s₂, s₁, s₀].map (·.table)) s₅ :=
    hgoes _ (hgoes _ (hgoes _ htrail₂ rfl) rfl) ⟨rfl, by decide +kernel⟩
  have htrail : Trail .standard ts s := hgoes _ htrail₅ rfl
  have hlt : s.table.drawn < UInt64.size - 1 := by decide +kernel
  have hledger (i : SymbolId) := htrail.ledger_balances hlt i
  have hadded {i : SymbolId} (hever : everStored ts i = true) : s.table.additions i = .once := by
    rw [(hledger i).1, if_pos hever]
  have hnever : everStored ts (id 4 (by decide)) = false := by decide +kernel
  refine ⟨htrail, hlt, by decide +kernel, hadded (by decide +kernel), ?_, hadded (by decide +kernel), ?_, ?_, ?_⟩
  · exact (hledger _).2.1.trans (if_pos (by decide +kernel))
  · exact (hledger _).2.1.trans (if_neg (by decide +kernel))
  · rw [(hledger _).1, hnever]
    rfl
  · rw [(hledger _).2.1, hnever]
    rfl

end Trail

end SymbolTable
