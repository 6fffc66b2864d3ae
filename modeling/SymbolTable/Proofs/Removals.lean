import SymbolTable.Proofs.Chronicle
import SymbolTable.Proofs.Identity
import SymbolTable.Proofs.Table.Guards

/-!
# Removals in runs with listeners

A listener that is told of a removal may delete again: the symbol that is being removed, one that it
lies in, or one that lies in it. The mark on a handle is what keeps its row in its place until then,
against all the deletions that are nested in its own (`Table.Guards`). So a row is still there when
it is taken out, the removal has not been told or noted before, and as no row comes back it will not
be again (`Table.Accounted`).
-/

namespace SymbolTable

open SymbolTable.Action
open Table (Path Step)

variable {σ : Type} {t t' : Table} {may : Deed → Prop} {on : HandleId → Prop} {notify : Listener σ}
  {h : HandleId}

/-! ## Removals that were told and noted -/

/-- The symbol whose removal is told. -/
def Event.removed? (e : Event) : Option SymbolId :=
  if e.change.sort = .removed then e.key.id? else none

/-- The symbol whose removal is noted. -/
def Journal.Entry.removed? (e : Journal.Entry) : Option SymbolId :=
  if e.action = .removed then e.key.id? else none

/-- The entries are the same, of the same symbols as far as these are stored. They may lie
elsewhere. -/
def Journal.Carries (j j' : Journal) : Prop :=
  ∃ f : Entry → Entry, j'.entries = j.entries.map f ∧ ∀ e, (f e).action = e.action ∧
    ∀ id, e.key = .stored id → (f e).key = .stored id

namespace Journal

/-- A journal carries its own entries. -/
theorem Carries.refl (j : Journal) : j.Carries j :=
  ⟨id, (List.map_id _).symm, fun _ => ⟨rfl, fun _ hkey => hkey⟩⟩

/-- To move entries to another address carries all of them. -/
theorem carries_moveAddress (j : Journal) (old new : Address) : j.Carries (j.moveAddress old new) := by
  refine ⟨_, rfl, fun e => ⟨rfl, fun id hkey => ?_⟩⟩
  simp [Entry.move, hkey]

/-- To give the entries of a derived symbol to its new id carries all of them, since those that are
stored are the same. -/
theorem carries_rekey (j : Journal) (a : Address) (new : SymbolId) :
    j.Carries (j.rekey (.derived a) new) := by
  refine ⟨_, rfl, fun e => ⟨?_, fun id hkey => ?_⟩⟩
  · rw [Entry.rekey]
    split <;> rfl
  · rw [Entry.rekey, hkey, if_neg nofun, hkey]

end Journal

namespace Table

/-- The removed symbols that were told of. -/
def told (t : Table) : List SymbolId :=
  t.log.filterMap (·.removed?)

/-- The removed symbols that were noted. -/
def noted (t : Table) : List SymbolId :=
  t.journal.entries.filterMap (·.removed?)

/-- Removals were told and noted once, of stored symbols whose rows are gone. -/
structure Accounted (t : Table) : Prop where
  told : t.told.Nodup
  noted : t.noted.Nodup
  stored : ∀ e ∈ t.journal.entries, e.action = .removed → ∃ id, e.key = .stored id
  gone : ∀ id, id ∈ t.told ∨ id ∈ t.noted → id.val.toNat ≤ t.drawn ∧ t.row? id = none

namespace Accounted

/-- What is noted is the same where entries are carried along. Only the addresses of entries change
that way, and to which removed symbols they belong does not depend on them. -/
theorem noted_eq (h : t.Accounted) (hcarries : t.journal.Carries t'.journal) : t'.noted = t.noted := by
  obtain ⟨f, hentries, hf⟩ := hcarries
  rw [Table.noted, Table.noted, hentries, List.filterMap_map]
  refine List.filterMap_congr fun e he => ?_
  show (f e).removed? = e.removed?
  rw [Journal.Entry.removed?, Journal.Entry.removed?, (hf e).1]
  by_cases hremoved : e.action = .removed
  · obtain ⟨id, hkey⟩ := h.stored e he hremoved
    rw [hkey, (hf e).2 id hkey]
  · rw [if_neg hremoved, if_neg hremoved]

/-- Removals are still accounted for when no further one was told or noted. That the handles are
guarded says that rows which are gone stay gone. -/
theorem of_guards (h : t.Accounted) (hg : t.Guards on t') (hlog : t'.told = t.told)
    (hcarries : t.journal.Carries t'.journal) : t'.Accounted := by
  have hnoted := h.noted_eq hcarries
  refine ⟨hlog ▸ h.told, hnoted ▸ h.noted, ?_, ?_⟩
  · obtain ⟨f, hentries, hf⟩ := hcarries
    rw [hentries]
    intro _ hmem hremoved
    obtain ⟨e, he, rfl⟩ := List.mem_map.1 hmem
    rw [(hf e).1] at hremoved
    obtain ⟨id, hkey⟩ := h.stored e he hremoved
    exact ⟨id, (hf e).2 id hkey⟩
  · rw [hlog, hnoted]
    intro id hid
    obtain ⟨hle, hnone⟩ := h.gone id hid
    exact ⟨Nat.le_trans hle hg.drawn, hg.gone id hle hnone⟩

/-- An entry that is no removal. It is noted after all others, and the removals are those that were
noted before. -/
theorem record (h : t.Accounted) {e : Journal.Entry} (he : e.action ≠ .removed) :
    Accounted { t with journal := t.journal.record e } := by
  have hnoted : Table.noted { t with journal := t.journal.record e } = t.noted := by
    show (t.journal.entries ++ [e]).filterMap (·.removed?) = _
    rw [List.filterMap_append, List.filterMap_cons, Journal.Entry.removed?, if_neg he]
    exact List.append_nil _
  refine ⟨h.told, hnoted ▸ h.noted, fun x hx hremoved => ?_, ?_⟩
  · rcases List.mem_append.1 hx with hx | hx
    · exact h.stored x hx hremoved
    · obtain rfl := List.mem_singleton.1 hx
      exact absurd hremoved he
  · rw [hnoted]
    exact h.gone

/-- A departure is noted and told for the first time. That it was neither told nor noted before is a
premise, which is granted by the row having been there until now. -/
theorem announce (h : t.Accounted) {d : Departure} (htold : d.row.id ∉ t.told)
    (hnoted : d.row.id ∉ t.noted) (hle : d.row.id.val.toNat ≤ t.drawn) (hnone : t.row? d.row.id = none) :
    ((t.bury d).logged d.event).Accounted := by
  have htold' : Table.told ((t.bury d).logged d.event) = t.told ++ [d.row.id] := List.filterMap_append
  have hnoted' : Table.noted ((t.bury d).logged d.event) = t.noted ++ [d.row.id] := List.filterMap_append
  refine ⟨?_, ?_, fun e he hremoved => ?_, fun id hid => ?_⟩
  · rw [htold']
    exact h.told.append (List.nodup_singleton _) (List.disjoint_singleton.2 htold)
  · rw [hnoted']
    exact h.noted.append (List.nodup_singleton _) (List.disjoint_singleton.2 hnoted)
  · rcases List.mem_append.1 he with he | he
    · exact h.stored e he hremoved
    · obtain rfl := List.mem_singleton.1 he
      exact ⟨_, rfl⟩
  · rw [htold', hnoted', List.mem_append, List.mem_append, List.mem_singleton] at hid
    rcases hid with (hid | rfl) | hid | rfl
    · exact h.gone id (.inl hid)
    · exact ⟨hle, hnone⟩
    · exact h.gone id (.inr hid)
    · exact ⟨hle, hnone⟩

/-- The row of a symbol is taken out, which is there, so it was not taken out before. What was told
or noted is gone, and rows that are gone do not come back, so a symbol whose row is there was never
told of as removed. -/
theorem departs {r : Row} (ha : t.Accounted) (hdeparts : t.Departs h r t') (hs : t.Sound) (he : t.Exact)
    (hkey : (t.handle h).key = .stored r.id) (hrow : t.row? r.id ≠ none) : t'.Accounted := by
  have hremoved {t₁ : Table} (hremoval : t.Removal h r t₁) :
      t₁.Accounted ∧ t₁.told = t.told ∧ t₁.noted = t.noted := by
    have hlog := hremoval.log_eq
    have hjournal := hremoval.journal_eq
    refine ⟨ha.of_guards (.released hremoval.exists_release hs he hkey hrow) ?_ ?_, ?_, ?_⟩
    · rw [Table.told, hlog, Table.told]
    · rw [hjournal]
      exact .refl _
    · rw [Table.told, hlog, Table.told]
    · rw [Table.noted, hjournal, Table.noted]
  cases hdeparts with
  | unnoted hremoval => exact (hremoved hremoval).1
  | noted hremoval =>
    obtain ⟨ha₁, htold, hnoted⟩ := hremoved hremoval
    obtain ⟨b, hremoves, hbeside⟩ := hremoval.exists_release
    obtain ⟨x, hx⟩ := Option.ne_none_iff_exists'.1 hrow
    have hle := he.le_drawn x (mem_of_row? hx)
    refine ha₁.announce ?_ ?_ ?_ ?_
    · exact htold ▸ fun hid => hrow (ha.gone _ (.inl hid)).2
    · exact hnoted ▸ fun hid => hrow (ha.gone _ (.inr hid)).2
    · rw [hbeside.drawn_eq]
      show r.id.val.toNat ≤ b.drawn
      rw [hremoves.drawn]
      rwa [id_of_row? hx] at hle
    · rw [row?_congr (t := t.withBackend b) hbeside.rows_eq]
      exact (row?_removes hs.backend hremoves _).trans (if_pos rfl)

end Accounted

end Table

/-! ## The course -/

open Table (upkeep)

/-- The course on which removals are accounted for, and some marked symbols keep their rows. -/
def Course.guarding (on : HandleId → Prop) : Course :=
  .assuring Table.Accounted (Table.Guards on) .refl (fun _ _ _ => .trans) fun t t' hs _ htended ha => by
    have hpath : Path upkeep t t' := .single htended.stride.step
    have hg : t.Guards on t' := .of_rows_eq hpath not_false hs hpath.rows_eq_of_upkeep
    refine ⟨ha.of_guards hg ?_ ?_, hg⟩
    · rw [Table.told, htended.log, Table.told]
    · rw [htended.journal]
      exact .refl _

namespace Course

/-- Steps that take no row out, and in which no removal is noted or told. Such steps guard every
handle, and what was told is the same, so only the journal has to be looked at. -/
theorem guarding_of_path (hpath : Path may t t') (hremove : ¬ may .remove) (hrelocate : ¬ may .relocate)
    (hintrude : ¬ may .intrude) (hlog : t'.log = t.log)
    (hcarries : t.Sound → t.journal.Carries t'.journal) : (guarding on).rel t t' := by
  refine assuring_of_path hpath hrelocate hintrude fun hs hlt he ha => ?_
  have hg : t.Guards on t' := .of_path hpath hremove hrelocate hintrude hs (fun _ => hlt) he
  refine ⟨ha.of_guards hg ?_ (hcarries hs), hg⟩
  rw [Table.told, hlog, Table.told]

/-- What stands around the rows and the handles changes. Neither the rows nor the marks change by
this, so everything is guarded. -/
theorem guarding_of_beside (hbeside : t.Beside t') (hkeep : t.Accounted → t.Guards on t' → t'.Accounted) :
    (guarding on).rel t t' := by
  have hpath : Path upkeep t t' := .single (.aside hbeside)
  refine assuring_of_path hpath not_false not_false fun hs _ _ ha => ?_
  have hg : t.Guards on t' := .of_rows_eq hpath not_false hs hbeside.rows_eq
  exact ⟨hkeep ha hg, hg⟩

/-- What happens to names may be noted on this course, as it is no removal. -/
theorem guarding_notes : (guarding on).Notes :=
  fun _ _ _ he => guarding_of_beside ⟨rfl, rfl, rfl, rfl, rfl, rfl⟩ fun ha _ => ha.record he

/-- Changes may be told on this course that are no removals. References and lists of members may
change as well, since no removal is among them. -/
theorem guarding_logs : (guarding on).Logs where
  log {t e} _ he := by
    refine guarding_of_beside ⟨rfl, rfl, rfl, rfl, rfl, rfl⟩ fun ha hg => ha.of_guards hg ?_ (.refl _)
    show (t.log ++ [e]).filterMap (·.removed?) = _
    rw [List.filterMap_append, List.filterMap_cons, Event.removed?, if_neg he]
    exact List.append_nil _
  cite _ _ _ := guarding_of_beside ⟨rfl, rfl, rfl, rfl, rfl, rfl⟩ fun ha hg => ha.of_guards hg rfl (.refl _)

theorem guarding_designates : (guarding on).Designates :=
  fun _ _ _ _ => guarding_of_beside ⟨rfl, rfl, rfl, rfl, rfl, rfl⟩ fun ha hg =>
    ha.of_guards hg rfl (.refl _)

/-- Rows may be written on this course, since that takes none out. Neither the marks nor the ids of
rows change in a way that would concern a deletion. -/
theorem guarding_writes : (guarding on).Writes where
  write t t' _ hw := by
    refine guarding_of_path hw.claimed.path nofun nofun nofun ?_ fun hs => ?_
    · cases hw with
      | draw | edit => rfl
      | promote => rw [Table.claimPrimary_eq]; rfl
    · cases hw with
      | draw | edit => exact .refl _
      | @promote h row b hlive hrow =>
        -- the handle of a derived symbol has the key of an address
        rw [Table.claimPrimary_eq]
        have hkey := ((hs.inOrder h).derived hlive hrow).1
        have hcarries := Journal.carries_rekey t.journal (t.handle h).address row.id
        rwa [← hkey] at hcarries
  create {t t'} _ hc := by
    have hsame : t'.log = t.log ∧ t'.journal = t.journal := by
      cases hc with
      | draw => exact ⟨rfl, rfl⟩
      | insert | create =>
        rw [Table.claimPrimary_eq]
        unfold Table.withFresh Table.dropDerived
        split <;> exact ⟨rfl, rfl⟩
    refine guarding_of_path hc.claimed.path nofun nofun nofun hsame.1 fun _ => ?_
    rw [hsame.2]
    exact .refl _
  note := guarding_notes

/-- Symbols may get another address on this course, and the entries of the journal go along. The row
stays under its id, so whoever is deleting it finds it. -/
theorem guarding_allows_readdress : (guarding on).Allows .readdress := by
  intro t t' h a _ _ hmoved
  refine guarding_of_path hmoved.path nofun nofun nofun ?_ fun _ => ?_
  · cases hmoved with
    | alone => rfl
    | along => rw [Table.movePrimary_eq]; rfl
  · cases hmoved with
    | alone => exact .refl _
    | along => exact Journal.carries_moveAddress ..

/-- A derived symbol may be moved to where no other one is. The journal takes the new address over,
and no entry of it becomes a removal by that. -/
theorem guarding_transferred {a : Address} (hlive : (t.handle h).deleted = false)
    (hrow : (t.handle h).row = none) (hfree : t.Underived a) :
    (guarding on).rel t (t.transferred h a) := by
  have hpath : Path (Eq .relocate) t (t.transferred h a) := Table.path_transferred rfl hlive hrow
  refine ⟨hpath.mono fun _ _ => trivial, fun hs _ he ha => ?_⟩
  have hg : t.Guards on (t.transferred h a) := .of_rows_eq hpath nofun hs rfl
  exact ⟨he.transferred hs hlive hrow hfree, ha.of_guards hg rfl (Journal.carries_moveAddress ..), hg⟩

theorem guarding_mono {on' : HandleId → Prop} (hon : ∀ k, on' k → on k) (hrel : (guarding on).rel t t') :
    (guarding on').rel t t' :=
  ⟨hrel.1, fun hs hlt he ha => (hrel.2 hs hlt he ha).imp_right fun h => h.imp_right fun hg => hg.mono hon⟩

/-- Between the marks on a handle, the symbols of all others keep their rows. Its own row is free to
go, which is what happens at the end of the stretch, and with the mark taken away the guarantee is
for all again. -/
theorem guarding_nests : (guarding fun _ => True).Nests fun h => guarding (· ≠ h) where
  weaken h hrel := guarding_mono (fun _ _ => trivial) hrel
  departs {t t₁ t₂ h r} hs _ hmarked hrow hrel hkey hdeparts := by
    have hpath := hdeparts.path hkey
    refine ⟨hrel.1.trans (hpath.mono fun _ _ => trivial), fun hs hlt he ha => ?_⟩
    have hs₁ := hrel.sound hs
    obtain ⟨he₁, ha₁, hg⟩ := hrel.2 hs (Nat.lt_of_le_of_lt (hpath.drawn_le hs₁) hlt) he ha
    have hstored : t₁.row? r.id ≠ none := by
      obtain ⟨x, hx⟩ := hg.kept h r.id r trivial hmarked ((hs.inOrder h).key r hrow) ((he.mirrors h).row r hrow)
      rw [hx]
      exact Option.some_ne_none x
    exact ⟨hpath.exact nofun nofun hs₁ (fun _ => hlt) he₁, ha₁.departs hdeparts hs₁ he₁ hkey hstored,
      (hg.mono fun _ _ => trivial).trans (.departs hdeparts hs₁ he₁ hkey hstored)⟩
  unmark {t t' h} hs hidle hrel := by
    have hmark : Step (Eq .remove) t (t.updateHandle h fun s => { s with deleting := true }) :=
      .mark rfl h true
    have hunmark : Step (Eq .remove) t' (t'.updateHandle h fun s => { s with deleting := false }) :=
      .mark rfl h false
    refine ⟨?_, fun hs hlt he ha => ?_⟩
    · exact .head (hmark.mono fun _ _ => trivial) (hrel.1.tail (hunmark.mono fun _ _ => trivial))
    · obtain ⟨he', ha', hg⟩ := hrel.2 (hmark.sound hs) hlt
        (hmark.exact nofun nofun hs nofun he) ⟨ha.told, ha.noted, ha.stored, ha.gone⟩
      have hs' := hrel.1.sound (hmark.sound hs)
      exact ⟨hunmark.exact nofun nofun hs' nofun he', ⟨ha'.told, ha'.noted, ha'.stored, ha'.gone⟩,
        hg.unmark hidle⟩

end Course

/-- A move that displaces no derived symbol stays on the course, however its listener acts that
stays on it. -/
theorem Move.DisplacesNone.ends_guarding {m : Move} (hm : m.DisplacesNone t)
    (hn : Heeds (.guarding fun _ => True) notify) (ht : t.Sound) :
    Ends t (m.action notify) fun _ t' => (Course.guarding fun _ => True).rel t t' := by
  refine hm.ends_rel hn ht Course.guarding_writes Course.guarding_designates
    Course.guarding_allows_readdress (fun _ _ => Course.guarding_transferred) fun h => ?_
  exact .bind (.look _) fun _ => follows_deleteWithin Course.guarding_nests hn.removed _ h

/-! ## Removals happen once -/

variable {nested : Bool} {s₀ s s' : Situated σ}

/-- A chronicle of such moves stays on the course. The induction is on the chronicle, and the
listeners of a move are chronicles that are nested in it. -/
theorem Chronicle.guarding (hrun : Chronicle (fun _ t m => m.DisplacesNone t) nested s s')
    (hs : s.table.Sound) : (Course.guarding fun _ => True).rel s.table s'.table :=
  hrun.rel Course.guarding_logs (fun _ _ _ _ hm hn ht => hm.ends_guarding hn ht) hs

/-- **A symbol is removed once.** Whatever is done to a table that was opened empty, and whatever
its listeners do in the middle of that, deletions of any symbols included: no symbol is told to be
removed twice or noted to be removed twice, no deletion is going on any more at the end, and a row
that is gone then never comes back, so it is not taken out again. Listeners log what they are told,
rows are changed through the table alone, no derived symbol is relocated onto another one, and there
are ids left. -/
theorem Chronicle.symbols_are_removed_once {rules : Rules} (hnew : s₀.table.IsNew rules)
    (hrun : Chronicle (fun _ t m => m.DisplacesNone t) false s₀ s)
    (hlt : s.table.drawn < UInt64.size - 1) :
    (s.table.log.filterMap (·.removed?)).Nodup ∧
    (s.table.journal.entries.filterMap (·.removed?)).Nodup ∧
    (∀ k, (s.table.handle k).deleting = false) ∧
    ∀ s', Chronicle (fun _ t m => m.DisplacesNone t) nested s s' → s'.table.drawn < UInt64.size - 1 →
      ∀ id : SymbolId, id.val.toNat ≤ s.table.drawn → s.table.row? id = none →
        s'.table.row? id = none := by
  have hrel := hrun.guarding hnew.sound
  have haccounted : s₀.table.Accounted := by
    refine ⟨?_, ?_, ?_, ?_⟩
    · simp [Table.told, hnew.log_eq]
    · simp [Table.noted, hnew.journal_eq, Journal.empty]
    · simp [hnew.journal_eq, Journal.empty]
    · simp [Table.told, Table.noted, hnew.log_eq, hnew.journal_eq, Journal.empty]
  obtain ⟨he, ha, hg⟩ := hrel.2 hnew.sound hlt hnew.exact haccounted
  refine ⟨ha.told, ha.noted, fun k => ?_, fun s' hrun' hlt' id hle hnone => ?_⟩
  · rw [hg.marks, hnew.handle_eq]
    rfl
  · have hs := hrel.sound hnew.sound
    exact ((hrun'.guarding hs).2 hs hlt' he ha).2.2.gone id hle hnone

/-- Whenever the listener is told of a removal, it deletes the scope in which the symbol lay once
more, which is being deleted or gone. -/
theorem Chronicle.symbols_are_removed_once_of_reentered :
    let s₀ : Situated Unit := ⟨.empty default .standard, (), 0⟩
    let new (name : String) (k : Kind) (a : Address) (scope : Scope) : Move :=
      .create ⟨name, k, a, scope, .userDefined, 0, 0, none⟩
    let meddler : Listener Unit := fun e x =>
      if e.change.sort = .removed then
        (((Move.edit 0 .delete).action Listener.recorder).run (x.logged e)).2
      else x.logged e
    let go (s : Situated Unit) (m : Move) := ((m.action meddler).run s).2
    let s := [new "outer" .namespaceScope .nowhere .global,
      new "x" .label (.ram 16) (.of ⟨1, by decide⟩), .edit 1 .delete].foldl go s₀
    s₀.table.IsNew .standard ∧ Chronicle (fun _ t m => m.DisplacesNone t) false s₀ s ∧
      s.table.drawn < UInt64.size - 1 ∧ s.table.rows = [] ∧
      (s.table.log.filterMap (·.removed?)).Nodup ∧
      (s.table.journal.entries.filterMap (·.removed?)).Nodup ∧
      (∀ k, (s.table.handle k).deleting = false) ∧
      ∀ s', Chronicle (fun _ t m => m.DisplacesNone t) false s s' →
        s'.table.drawn < UInt64.size - 1 →
        ∀ id : SymbolId, id.val.toNat ≤ s.table.drawn → s.table.row? id = none →
          s'.table.row? id = none := by
  intro s₀ new meddler go s
  have hnew : s₀.table.IsNew .standard := .memory _ _ _
  have hmeddler (e : Event) (x : Situated Unit) :
      Chronicle (fun _ t m => m.DisplacesNone t) true (x.logged e) (meddler e x) := by
    show Chronicle _ _ _ (if e.change.sort = .removed then _ else _)
    split
    · exact .move .refl (.of_ne_relocate trivial nofun) Chronicle.recorder
    · exact .refl
  have hrun : Chronicle (fun _ t m => m.DisplacesNone t) false s₀ s :=
    .move (.move (.move .refl
      (.of_ne_relocate trivial nofun) hmeddler)
      (.of_ne_relocate trivial nofun) hmeddler)
      (.of_ne_relocate trivial nofun) hmeddler
  have hlt : s.table.drawn < UInt64.size - 1 := by decide
  exact ⟨hnew, hrun, hlt, by decide, Chronicle.symbols_are_removed_once hnew hrun hlt⟩

end SymbolTable
