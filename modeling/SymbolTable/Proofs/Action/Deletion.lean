import Mathlib.Data.List.Perm.Subperm
import SymbolTable.Proofs.Action.Finding
import SymbolTable.Proofs.Action.Removal
import SymbolTable.Proofs.Table.Forest

/-!
# Deletions in a forest

A deletion goes down the forest of scopes: while a symbol is deleted, deletions are going on of the
symbols around it, and of no others. These are the symbols on its `Line`. Nothing on the line is
taken out, so what is on it stays there, and no symbol is met that is being deleted already. Each
level of the recursion deletes a row that is not on the line, so it does not run out of depth. This
is why nothing is left in a scope whose members were deleted (`ends_clearScope`), and then its row
may be taken out of the forest. Whatever fails on the way, what is left is a forest (`ends_delete`).
-/

namespace SymbolTable

open Table (Step Path upkeep)

variable {σ α : Type} {t t' : Table} {may : Deed → Prop} {notify : Listener σ}

/-! ## Lines of scopes -/

namespace Table

/-- The row is stored, and it lies in the first scope of the list, which lies in the second, and so
on to the last. -/
inductive Line (t : Table) : SymbolId → List SymbolId → Prop where
  | outermost {id : SymbolId} {r : Row} (h : t.row? id = some r) : Line t id []
  | inside {id p : SymbolId} {r : Row} {ps : List SymbolId} (h : t.row? id = some r)
      (hparent : r.parent = .of p) (hrest : Line t p ps) : Line t id (p :: ps)

namespace Line

variable {id : SymbolId} {line : List SymbolId}

/-- A symbol on a line is stored. -/
theorem exists_row (h : t.Line id line) : ∃ r, t.row? id = some r := by
  cases h with
  | outermost hrow | inside hrow => exact ⟨_, hrow⟩

/-- The line is the beginning of the way to the global scope. Each symbol on the line lies in the
next one, and so do the rows on the way, which goes on to the global scope. The induction is on the
line. -/
theorem isPrefix (h : t.Line id line) {rs : List Row} (hleads : t.Leads (.of id) rs) :
    (id :: line) <+: rs.map (·.id) := by
  induction h generalizing rs with
  | outermost hrow =>
    cases hleads with
    | step hrow' =>
      rw [List.map_cons, id_of_row? hrow']
      exact List.prefix_append [_] _
  | @inside id p r ps hrow hparent _ ih =>
    cases hleads with
    | step hrow' hrest =>
      cases hrow.symm.trans hrow'
      rw [hparent] at hrest
      rw [List.map_cons, id_of_row? hrow]
      exact List.cons_prefix_cons.2 ⟨rfl, ih hrest⟩

/-- In a forest no symbol is twice on a line. -/
theorem nodup (h : t.Line id line) (hf : t.Forest) : (id :: line).Nodup := by
  obtain ⟨r, hrow⟩ := h.exists_row
  obtain ⟨rs, hleads⟩ := Rooted.of_row hrow (hf r (mem_of_row? hrow)).rooted
  exact hleads.nodup.sublist (h.isPrefix hleads).sublist

/-- Every symbol on a line is stored, not only the first. The induction is on the line. So a line
has no more symbols than there are rows, which is what bounds the depth of a deletion. -/
theorem exists_row_of_mem (h : t.Line id line) {i : SymbolId} (hi : i ∈ id :: line) :
    ∃ r ∈ t.rows, r.id = i := by
  induction h with
  | outermost hrow =>
    obtain rfl := List.mem_singleton.1 hi
    exact ⟨_, mem_of_row? hrow, id_of_row? hrow⟩
  | inside hrow _ _ ih =>
    rcases List.mem_cons.1 hi with rfl | hi
    · exact ⟨_, mem_of_row? hrow, id_of_row? hrow⟩
    · exact ih hi

/-- A line is shorter than the list of rows. It has no repetitions, as the way to the global scope
in a forest has none, and the symbol itself is not on it. This is what makes the depth enough with
which a deletion starts. -/
theorem length_lt (h : t.Line id line) (hf : t.Forest) : line.length < t.rows.length := by
  have hsub : id :: line ⊆ t.rows.map (·.id) := by
    intro i hi
    obtain ⟨r, hr, rfl⟩ := h.exists_row_of_mem hi
    exact List.mem_map_of_mem hr
  have hle := (List.subperm_of_subset (h.nodup hf) hsub).length_le
  rwa [List.length_map] at hle

/-- A line stays as long as its rows do. The induction is on the line, which is a chain of
parents. -/
theorem transfer (h : t.Line id line)
    (hrows : ∀ i ∈ id :: line, ∀ r, t.row? i = some r → t'.row? i = some r) : t'.Line id line := by
  induction h with
  | outermost hrow => exact .outermost (hrows _ (.head _) _ hrow)
  | inside hrow hparent _ ih =>
    have hrest := ih fun i hi => hrows i (.tail _ hi)
    exact .inside (hrows _ (.head _) _ hrow) hparent hrest

end Line

/-! ## Pruned tables -/

/-- What a deletion does: it takes rows out, and the outages may change meanwhile. -/
def pruning (d : Deed) : Prop :=
  d = .remove ∨ d = .plan

/-- To delete brings no row: what is there afterwards was there before, with the same content.
Handles are marked and outages may change, but no step of a deletion writes. The cases are those of
`Step`, and each of the others needs a deed that is not allowed. -/
theorem Step.rows_subset (h : Step pruning t t') {x : Row} (hx : x ∈ t'.rows) : x ∈ t.rows := by
  have hwrite : ¬ pruning .write := nofun
  have hreaddress : ¬ pruning .readdress := nofun
  have hintrude : ¬ pruning .intrude := nofun
  cases h with
  | aside h =>
    rw [h.rows_eq] at hx
    exact hx
  | plan | adopt | refresh | vanish | mark | relocate => exact hx
  | draw hmay | insert hmay | create hmay | promote hmay => exact absurd hmay hwrite
  | edit h hrow hedits =>
    cases hedits with
    | mark hmay | rename hmay => exact absurd hmay hwrite
    | readdress hmay => exact absurd hmay hreaddress
  | takeOut _ h hkey hremoves => exact ((hremoves.mem_rows x).1 hx).1
  | intrudePut hmay | intrudeTake hmay => exact absurd hmay hintrude

/-- The rows after any number of steps of a deletion were there before it. -/
theorem Path.rows_subset (h : Path pruning t t') {x : Row} (hx : x ∈ t'.rows) : x ∈ t.rows := by
  induction h with
  | refl => exact hx
  | tail _ hstep ih => exact ih (hstep.rows_subset hx)

/-- A deletion draws no id. The removal of a row leaves the draws alone, and nothing that draws is
among the deeds of pruning. -/
theorem Step.drawn_eq (h : Step pruning t t') : t'.drawn = t.drawn := by
  cases h with
  | aside h => exact h.drawn_eq
  | plan | adopt | refresh | vanish | mark | relocate => rfl
  | edit h hrow hedits hputs => exact hputs.drawn
  | takeOut _ h hkey hremoves => exact hremoves.drawn
  | draw hmay | insert hmay | create hmay | promote hmay | intrudePut hmay | intrudeTake hmay =>
    rcases hmay with ⟨⟨⟩⟩ | ⟨⟨⟩⟩

/-- No id is drawn while a deletion is going on, so a row that goes does not come back under another
content. -/
theorem Path.drawn_eq (h : Path pruning t t') : t'.drawn = t.drawn := by
  induction h with
  | refl => rfl
  | tail _ hstep ih => exact hstep.drawn_eq.trans ih

/-- A deletion led here, from which the rows on the line are left out. It has ended: no handle that
was not being deleted is. -/
structure Pruned (t : Table) (line : List SymbolId) (t' : Table) : Prop where
  path : Path pruning t t'
  calm : ∀ k, (t'.handle k).deleting = true → (t.handle k).deleting = true
  forest : t'.Forest
  kept : ∀ id ∈ line, ∀ r, t.row? id = some r → t'.row? id = some r

/-- Of a table in order, the symbols that are being deleted are on the line. -/
structure Deleting (t : Table) (line : List SymbolId) : Prop where
  sound : t.Sound
  exact : t.Exact
  forest : t.Forest
  busy : ∀ k, (t.handle k).deleting = true → ∃ id ∈ line, (t.handle k).key = .stored id

namespace Pruned

variable {line : List SymbolId}

/-- A table to which nothing happens is pruned. That it is a forest has to be known of it, since
this is a part of being pruned. -/
theorem refl (hf : t.Forest) : t.Pruned line t where
  path := .refl
  calm _ hk := hk
  forest := hf
  kept _ _ _ hrow := hrow

/-- What is pruned twice is pruned. The rows on the line are spared each time. -/
theorem trans {t₁ t₂ t₃ : Table} (h : t₁.Pruned line t₂) (h' : t₂.Pruned line t₃) :
    t₁.Pruned line t₃ where
  path := h.path.trans h'.path
  calm k hk := h.calm k (h'.calm k hk)
  forest := h'.forest
  kept id hid r hrow := h'.kept id hid r (h.kept id hid r hrow)

/-- Nothing happened to the rows. The steps may plan outages and do nothing else. -/
theorem of_path (hpath : Path may t t') (hmay : ∀ d, may d → d = .plan) (hrows : t'.rows = t.rows)
    (hf : t.Forest) : t.Pruned line t' := by
  refine ⟨hpath.mono fun d hd => .inr (hmay d hd), fun k hk => ?_,
    hf.of_rows_eq hpath.sameFrame.rules hrows, fun id _ r hrow => ?_⟩
  · rwa [hpath.deleting_eq fun hremove => nomatch hmay _ hremove] at hk
  · rw [row?_congr hrows, hrow]

/-- To keep up handles prunes nothing. -/
theorem of_upkeep (hpath : Path upkeep t t') (hf : t.Forest) : t.Pruned line t' :=
  of_path hpath (fun _ => False.elim) hpath.rows_eq_of_upkeep hf

/-- A row that is gone does not come back. No row is put while something is being pruned. -/
theorem row?_eq_none (h : t.Pruned line t') {id : SymbolId} (hnone : t.row? id = none) :
    t'.row? id = none := by
  rw [row?_eq_none_iff] at hnone ⊢
  intro r hr
  exact hnone r (h.path.rows_subset hr)

/-- What is left are the same rows. -/
theorem row?_eq_some (h : t.Pruned line t') (hs : t.Sound) {id : SymbolId} {r : Row}
    (hrow : t'.row? id = some r) : t.row? id = some r := by
  rw [row?_eq_some_iff hs.backend]
  exact ⟨h.path.rows_subset (mem_of_row? hrow), id_of_row? hrow⟩

/-- A table that was pruned has no more rows than before. So the depth that sufficed before is
enough for what is left. -/
theorem length_le (h : t.Pruned line t') (hs : t.Sound) : t'.rows.length ≤ t.rows.length := by
  have hnodup : t'.rows.Nodup := (h.path.sound hs).backend.ascending_rows.nodup
  exact (List.subperm_of_subset hnodup fun _ hx => h.path.rows_subset hx).length_le

/-- A symbol stays on its line while what lies in it is pruned, since everything on the line is
spared. -/
theorem line_transfer {id : SymbolId} (h : t.Pruned (id :: line) t') (hline : t.Line id line) :
    t'.Line id line :=
  hline.transfer h.kept

end Pruned

/-- What was pruned while a handle was marked is pruned once the mark is taken away. The mark is no
part of the rows. At the end the handle is unmarked in both tables, so no more deletions are going
on than before. -/
theorem Pruned.unmark {h : HandleId} {line : List SymbolId}
    (hp : (t.updateHandle h fun s => { s with deleting := true }).Pruned line t') :
    t.Pruned line (t'.updateHandle h fun s => { s with deleting := false }) := by
  refine ⟨?_, fun k hk => ?_, hp.forest.of_rows_eq rfl rfl, hp.kept⟩
  · exact .head (.mark (.inl rfl) h true) (hp.path.tail (.mark (.inl rfl) h false))
  · rcases eq_or_ne k h with rfl | hne
    · rw [deleting_unmark] at hk
      cases hk
    · rw [handle_updateHandle_ne t' hne] at hk
      have hmarked := hp.calm k hk
      rwa [handle_updateHandle_ne t hne] at hmarked

/-- If more is spared than has to be, it is still pruned. So what the deletion of a member leaves
counts for the scope around it. -/
theorem Pruned.tail {id : SymbolId} {line : List SymbolId} (h : t.Pruned (id :: line) t') :
    t.Pruned line t' :=
  ⟨h.path, h.calm, h.forest, fun i hi => h.kept i (.tail _ hi)⟩

/-- What is on the line is still being deleted, and nothing else is, when a deletion inside it has
ended. A handle that is marked afterwards was marked before, and no step changes the key of a stored
symbol. -/
theorem Deleting.of_pruned {line : List SymbolId} (hd : t.Deleting line) (h : t.Pruned line t') :
    t'.Deleting line where
  sound := h.path.sound hd.sound
  exact := Path.exact h.path nofun nofun hd.sound nofun hd.exact
  forest := h.forest
  busy k hk := by
    obtain ⟨id, hid, hkey⟩ := hd.busy k (h.calm k hk)
    exact ⟨id, hid, h.path.key_stored hd.sound hkey⟩

end Table

namespace Action

/-! ## What is told meanwhile -/

/-- The listener touches neither rows nor handles. -/
def Quiet (notify : Listener σ) : Prop :=
  ∀ e (s : Situated σ), s.table.Drifts (notify e s).table

/-- A quiet listener does what every course takes that lets outages be planned, for that is all that
it may change. -/
theorem Quiet.heeds (hq : Quiet notify) {c : Course} (hplan : c.Allows .plan) : Heeds c notify :=
  .of_deaf (Course.Aloof.of_allows_plan hplan).deaf fun e s hs => hplan _ _ hs (hq e s)

/-- The action touches neither rows nor handles. -/
def Drifting (a : Action σ α) : Prop :=
  ∀ t : Table, Ends t a fun _ t' => t.Drifts t'

namespace Drifting

/-- What only reads touches neither rows nor handles. A reading action ends at the table at which it
began. -/
theorem of_reads {a : Action σ α} (h : Reads a) : Drifting a := by
  intro t
  refine (h t).imp ?_
  rintro answer _ rfl
  exact .refl _

/-- Actions that touch neither rows nor handles do so one after the other. This also holds if the
first one is refused. -/
theorem bind {β : Type} {a : Action σ α} {f : α → Action σ β} (ha : Drifting a)
    (hf : ∀ x, Drifting (f x)) : Drifting (a >>= f) := by
  intro t
  refine .bind (ha t) ?_ fun _ _ h => h
  intro x t' h
  exact (hf x t').imp fun _ _ h' => h.trans h'

/-- A change is drifting if it stays beside rows and handles. -/
theorem change {f : Table → Table} (hf : ∀ t : Table, t.Beside (f t)) :
    Drifting (change f : Action σ Unit) :=
  fun t => .change (hf t).drifts

/-- To tell a quiet listener touches neither rows nor handles. It may act on what stands around
them. -/
theorem emit (hq : Quiet notify) (key : Key) (a : Address) (c : Change) :
    Drifting (emit notify key a c) := by
  intro t
  refine .emit ?_
  rintro s rfl
  exact hq _ s

end Drifting

/-- To pass a designation on touches neither rows nor handles. It asks the store for the one that
comes next and changes the facts that are noted beside the rows. -/
theorem drifting_passPrimary (a : Address) (id : SymbolId) :
    Drifting (passPrimary a id : Action σ _) := by
  refine .bind (.of_reads (.look _)) fun primary? => ?_
  split
  · exact .bind (.of_reads (reads_successorAt a)) fun _ =>
      .change fun _ => ⟨rfl, rfl, rfl, rfl, rfl, rfl⟩
  · exact .of_reads (.pure _)

/-! ## Taking out a row -/

variable {line : List SymbolId} {h : HandleId} {id : SymbolId}

/-- The row of an empty scope is taken out, or the store fails and nothing happens. The row has to
be stored under the key of the handle, and nothing may lie in it. A failure of the store is the
other case, and it leaves the row where it is. -/
theorem ends_takeOut_of_empty (hd : t.Deleting (id :: line)) (hkey : (t.handle h).key = .stored id)
    (hempty : ∀ x ∈ t.rows, x.parent ≠ .of id) (hline : id ∉ line) :
    Ends t (takeOut h id : Action σ _) fun answer t' =>
      t.Pruned line t' ∧ ∀ existed, answer = .ok existed → t'.row? id = none := by
  refine .seq (.takeRow hd.sound.backend (fun b hremoves => .ok (.change_bind (.pure ?_)))
    fun _ _ => ⟨.refl hd.forest, nofun⟩)
  have hrow? : ∀ i, ((t.withBackend b).release h id).row? i = if i = id then none else t.row? i :=
    Table.row?_removes hd.sound.backend hremoves
  refine ⟨⟨.single (.takeOut (.inl rfl) h hkey hremoves), fun k hk => ?_, ?_, fun i hi r hrow => ?_⟩,
    fun _ _ => ?_⟩
  · rwa [Table.handle_release, Table.handle_updateHandle_withBackend,
      Table.map_updateHandle Handle.deleting rfl] at hk
  · refine hd.forest.remove rfl (fun x hx => ((hremoves.mem_rows x).1 hx).1) ?_ hempty
    intro i hne
    rw [hrow?, if_neg hne]
  · have hne : i ≠ id := by
      rintro rfl
      exact hline hi
    rw [hrow?, if_neg hne, hrow]
  · rw [hrow?, if_pos rfl]

/-- To take the row of an empty scope out prunes the table, told to a quiet listener and refused or
not. That it is empty is what keeps the rest a forest. -/
theorem ends_removeRow_of_empty (hq : Quiet notify) {r : Row} (hd : t.Deleting (r.id :: line))
    (hkey : (t.handle h).key = .stored r.id) (hempty : ∀ x ∈ t.rows, x.parent ≠ .of r.id)
    (hline : r.id ∉ line) :
    Ends t (removeRow notify h r) fun answer t' =>
      t.Pruned line t' ∧ ∀ existed, answer = .ok existed → t'.row? r.id = none := by
  refine (reads_displayName r).ends_bind (fun name => ?_) fun _ => ⟨.refl hd.forest, nofun⟩
  refine .bind (ends_takeOut_of_empty hd hkey hempty hline) (fun existed t₁ h₁ => ?_)
    fun _ t₁ h₁ => ⟨h₁.1, nofun⟩
  obtain ⟨hpruned, hnone⟩ := h₁
  refine Ends.imp (R := fun _ t' => t₁.Drifts t') ?_ fun _ t₂ hdrifts => ?_
  · refine Drifting.bind (drifting_passPrimary _ _) (fun _ => ?_) t₁
    refine .bind (.change fun _ => ⟨rfl, rfl, rfl, rfl, rfl, rfl⟩) fun _ => ?_
    exact .bind (.emit hq _ _ _) fun _ => .of_reads (.pure existed)
  · have hrows : t₂.rows = t₁.rows := congrArg Store.Backend.rows hdrifts.backend
    have hpath : Path (· = .plan) t₁ t₂ := hdrifts.path rfl
    refine ⟨hpruned.trans (.of_path hpath (fun _ hd => hd) hrows hpruned.forest), fun _ _ => ?_⟩
    exact (Table.row?_congr hrows _).trans (hnone existed rfl)

/-! ## Clearing a scope -/

/-- The symbol of a handle may be deleted, with as many more deletions nested as `depth`. -/
structure Deletable (t : Table) (h : HandleId) (line : List SymbolId) (depth : Nat) : Prop where
  deleting : t.Deleting line
  idle : (t.handle h).deleting = false
  onLine : ∀ id r, (t.handle h).key = .stored id → t.row? id = some r → t.Line id line
  le_depth : t.rows.length ≤ depth + line.length

/-- The deletion has pruned the table, and it was refused or the row of the handle is gone. -/
structure Deleted (t : Table) (h : HandleId) (line : List SymbolId) (answer : Except Fault Bool)
    (t' : Table) : Prop where
  pruned : t.Pruned line t'
  gone : ∀ existed, answer = .ok existed → ∀ id, (t.handle h).key = .stored id → t'.row? id = none

/-- The action deletes symbols that may be deleted. -/
def Deletes (delete : HandleId → Action σ Bool) (depth : Nat) : Prop :=
  ∀ t h line, Deletable t h line depth → Ends t (delete h) (Deleted t h line)

section
variable {delete : HandleId → Action σ Bool} {depth : Nat}

/-- The symbol of a row in the scope may be deleted. It is not being deleted already, for it would
be on the line then, and lie in itself. -/
theorem Deletable.of_member (hd : t.Deleting (id :: line)) (hline : t.Line id line)
    (hdepth : t.rows.length ≤ depth + (id :: line).length) {r : Row} {x : SymbolId}
    (hrow : t.row? x = some r) (hparent : r.parent = .of id) {child : HandleId}
    (hkey : (t.handle child).key = .stored x) : Deletable t child (id :: line) depth := by
  have hline' : t.Line x (id :: line) := .inside hrow hparent hline
  refine ⟨hd, ?_, fun i r' hkey' _ => ?_, hdepth⟩
  · cases hdeleting : (t.handle child).deleting with
    | false => rfl
    | true =>
      obtain ⟨i, hi, hkey'⟩ := hd.busy child hdeleting
      obtain rfl : x = i := Key.stored.inj (hkey.symm.trans hkey')
      exact absurd hi (List.nodup_cons.1 (hline'.nodup hd.forest)).1
  · obtain rfl : x = i := Key.stored.inj (hkey.symm.trans hkey')
    exact hline'

/-- A member of a scope that is being deleted is deleted, too. Its handle is looked for by its id.
If there is none, its row is gone already, and if it is being deleted, it would be on the line,
which it is not as it lies in the first symbol of the line. -/
theorem ends_clearMember (hdelete : Deletes delete depth) (hd : t.Deleting (id :: line))
    (hline : t.Line id line) (hdepth : t.rows.length ≤ depth + (id :: line).length) {x : SymbolId}
    (hx : ∀ r, t.row? x = some r → r.parent = .of id) :
    Ends t (clearMember delete x) fun answer t' =>
      t.Pruned (id :: line) t' ∧ ∀ u, answer = .ok u → t'.row? x = none := by
  have hlookup : Ends t (lookup x : Action σ _) fun answer t' =>
      Path upkeep t t' ∧ ∀ found, answer = .ok found → Finds x t' found :=
    (follows_lookup (c := .steps upkeep) x t hd.sound).and (ends_lookup hd.sound hd.exact x)
  refine .bind hlookup (fun found t₁ h₁ => ?_) fun _ t₁ h₁ => ⟨.of_upkeep h₁.1 hd.forest, nofun⟩
  obtain ⟨hpath, hfinds⟩ := h₁
  have hfinds := hfinds found rfl
  have hpruned : t.Pruned (id :: line) t₁ := .of_upkeep hpath hd.forest
  have hd₁ := hd.of_pruned hpruned
  cases found with
  | none => exact .pure ⟨hpruned, fun _ _ => hfinds⟩
  | some child =>
    obtain ⟨hlive, hkey⟩ := hfinds
    obtain ⟨r, hrow, hrid⟩ := (hd₁.sound.inOrder child).exists_row hkey hlive
    have hget := (hd₁.exact.mirrors child).row r hrow
    rw [hrid] at hget
    have hdeletable : Deletable t₁ child (id :: line) depth :=
      .of_member hd₁ (hpruned.line_transfer hline)
        (Nat.le_trans (hpruned.length_le hd.sound) hdepth) hget
        (hx r (hpruned.row?_eq_some hd.sound hget)) hkey
    refine .look_bind ?_
    rw [hdeletable.idle, if_neg Bool.false_ne_true]
    refine .map (hdelete t₁ child _ hdeletable) (fun existed t₂ h₂ => ?_) fun _ t₂ h₂ => ?_
    · exact ⟨hpruned.trans h₂.pruned, fun _ _ => h₂.gone existed rfl x hkey⟩
    · exact ⟨hpruned.trans h₂.pruned, nofun⟩

/-- After one another, all members are deleted, or the deletion is refused. The list was made at the
beginning. Rows only become fewer meanwhile, so a member that is gone stays gone while the others
are deleted, and the induction is on what is left of the list. -/
theorem ends_clearMembers (hdelete : Deletes delete depth) (xs : List Row)
    (hd : t.Deleting (id :: line)) (hline : t.Line id line)
    (hdepth : t.rows.length ≤ depth + (id :: line).length)
    (hxs : ∀ x ∈ xs, ∀ r, t.row? x.id = some r → r.parent = .of id) :
    Ends t (xs.forM fun x => clearMember delete x.id) fun answer t' =>
      t.Pruned (id :: line) t' ∧ ∀ u, answer = .ok u → ∀ x ∈ xs, t'.row? x.id = none := by
  induction xs generalizing t with
  | nil => exact .pure ⟨.refl hd.forest, fun _ _ => nofun⟩
  | cons x xs ih =>
    rw [List.forM_eq_forM, List.forM_cons]
    refine .bind (ends_clearMember hdelete hd hline hdepth (hxs x (.head _))) (fun _ t₁ h₁ => ?_)
      fun _ t₁ h₁ => ⟨h₁.1, nofun⟩
    obtain ⟨hpruned, hgone⟩ := h₁
    have hxs₁ : ∀ y ∈ xs, ∀ r, t₁.row? y.id = some r → r.parent = .of id := fun y hy r hrow =>
      hxs y (.tail _ hy) r (hpruned.row?_eq_some hd.sound hrow)
    have hdepth₁ := Nat.le_trans (hpruned.length_le hd.sound) hdepth
    refine (ih (hd.of_pruned hpruned) (hpruned.line_transfer hline) hdepth₁ hxs₁).imp
      fun answer t₂ h₂ => ⟨hpruned.trans h₂.1, fun u hu y hy => ?_⟩
    rcases List.mem_cons.1 hy with rfl | hy
    · exact h₂.1.row?_eq_none (hgone _ rfl)
    · exact h₂.2 u hu y hy

/-- Nothing is left in a scope whose members were deleted. The rows that lie in it are those that
were listed, as the store answered then, and no row comes in while deletions go on. If the list
cannot be made, the deletion is refused there. -/
theorem ends_clearScope (hdelete : Deletes delete depth) (hd : t.Deleting (id :: line))
    (hline : t.Line id line) (hdepth : t.rows.length ≤ depth + (id :: line).length) :
    Ends t (clearScope delete (.of id)) fun answer t' =>
      t.Pruned (id :: line) t' ∧ ∀ u, answer = .ok u → ∀ x ∈ t'.rows, x.parent ≠ .of id := by
  refine .seq (.rowsIn hd.sound.backend (.ok ?_) fun _ _ => ⟨.refl hd.forest, nofun⟩)
  have hmem : ∀ x, x ∈ t.rows.filter (·.parent = .of id) ↔ x ∈ t.rows ∧ x.parent = .of id := fun x => by
    simp
  refine (ends_clearMembers hdelete _ hd hline hdepth fun x hx r hrow => ?_).imp
    fun answer t' h' => ⟨h'.1, fun u hu x hx hparent => ?_⟩
  · obtain ⟨hx, hparent⟩ := (hmem x).1 hx
    cases hrow.symm.trans (Table.row?_id hd.sound.backend hx)
    exact hparent
  · have hnone := h'.2 u hu x ((hmem x).2 ⟨h'.1.path.rows_subset hx, hparent⟩)
    exact Table.row?_eq_none_iff.1 hnone x hx rfl

/-! ## Deleting -/

section
variable (hq : Quiet notify)

include hq

/-- The row of a handle is taken out after all rows in it. Members first: only when the scope is
empty may its row be taken out of the forest. If the members are refused, the row stays, and the
forest with it. -/
theorem ends_removeWith (hdelete : Deletes delete depth) {r : Row}
    (hd : t.Deleting (r.id :: line)) (hline : t.Line r.id line)
    (hdepth : t.rows.length ≤ depth + (r.id :: line).length) (hrow : (t.handle h).row = some r) :
    Ends t (removeWith notify delete h) fun answer t' =>
      t.Pruned line t' ∧ ∀ existed, answer = .ok existed → t'.row? r.id = none := by
  have hkey : (t.handle h).key = .stored r.id := (hd.sound.inOrder h).key r hrow
  have hnotin : r.id ∉ line := (List.nodup_cons.1 (hline.nodup hd.forest)).1
  unfold removeWith
  refine .look_bind ?_
  rw [hrow]
  dsimp only
  split
  · refine .bind (ends_clearScope hdelete hd hline hdepth) (fun u t₁ h₁ => ?_)
      fun _ t₁ h₁ => ⟨h₁.1.tail, nofun⟩
    obtain ⟨hpruned, hempty⟩ := h₁
    have hkey₁ := hpruned.path.key_stored hd.sound hkey
    exact (ends_removeRow_of_empty hq (hd.of_pruned hpruned) hkey₁ (hempty u rfl) hnotin).imp
      fun _ t₂ h₂ => ⟨hpruned.tail.trans h₂.1, h₂.2⟩
  · rename_i hscope
    rw [Bool.not_eq_true] at hscope
    have hkind := Kind.ofTag?_eq_some_iff.2 ((hd.sound.inOrder h).tag r hrow)
    exact ends_removeRow_of_empty hq hd hkey
      (fun x hx => hd.forest.parent_ne ((hd.exact.mirrors h).row r hrow) hkind hscope hx) hnotin

/-- A symbol whose handle is marked is deleted with all that lies in it. The depth has to suffice
for the rows that are not on the line, of which each level deletes one. -/
theorem ends_deleteMarked (hdelete : Deletes delete depth) {r : Row}
    (hd : t.Deleting (r.id :: line)) (hline : t.Line r.id line)
    (hdepth : t.rows.length ≤ depth + (r.id :: line).length) (hrow : (t.handle h).row = some r) :
    Ends t (deleteMarked notify delete h) fun answer t' =>
      t.Pruned line t' ∧ ∀ existed, answer = .ok existed → t'.row? r.id = none := by
  have hget := (hd.exact.mirrors h).row r hrow
  refine .attempt_bind (ends_refresh hd.sound h) fun answer t₁ hr => ?_
  have hpruned : t.Pruned (r.id :: line) t₁ := .of_upkeep hr.path hd.forest
  have hd₁ := hd.of_pruned hpruned
  split
  · -- its row is stored, so the symbol is there
    cases hr with
    | vanished _ hrow' _ hgone =>
      cases hrow.symm.trans hrow'
      exact absurd rfl (hgone r hget)
    | deleted hdeleted =>
      rw [(hd.sound.inOrder h).live r hrow] at hdeleted
      cases hdeleted
  · exact .fail ⟨hpruned.tail, nofun⟩
  · refine .look_bind ?_
    have hderived : (t₁.handle h).isDerived = false :=
      hr.isDerived_eq.trans (Handle.isDerived_of_row hrow)
    rw [hderived, if_neg Bool.false_ne_true]
    have hkey := hr.path.key_stored hd.sound ((hd.sound.inOrder h).key r hrow)
    obtain ⟨r', hrow', hid⟩ := (hd₁.sound.inOrder h).exists_row hkey hr.isReady.live
    have hdepth₁ := Nat.le_trans (hpruned.length_le hd.sound) hdepth
    have hline₁ := hpruned.line_transfer hline
    rw [← hid] at hd₁ hline₁ hdepth₁ ⊢
    exact (ends_removeWith hq hdelete hd₁ hline₁ hdepth₁ hrow').imp fun _ t₂ h₂ =>
      ⟨hpruned.tail.trans h₂.1, h₂.2⟩

omit hq in
/-- The handle of a symbol that is gone, or derived, is left alone. That there is no row under its
key holds for one that is gone, and for a derived one there is no id. -/
theorem ends_deleteMarked_of_rowless (hs : t.Sound) (he : t.Exact)
    (hrow : (t.handle h).row = none) :
    Ends t (deleteMarked notify delete h) fun answer t' =>
      t' = t ∧ ∀ existed, answer = .ok existed →
        ∀ id, (t.handle h).key = .stored id → t.row? id = none := by
  have hgone (hdeleted : (t.handle h).deleted = true) (id : SymbolId)
      (hkey : (t.handle h).key = .stored id) : t.row? id = none :=
    (he.mirrors h).gone id hkey hdeleted
  refine .attempt_bind (ends_refresh hs h) fun answer t₁ hr => ?_
  cases hr with
  | ready hready =>
    refine .look_bind ?_
    have hderived : (t.handle h).isDerived = true := by
      rw [Handle.isDerived, hrow, hready.live]
      rfl
    rw [hderived, if_pos rfl]
    refine .pure ⟨rfl, fun _ _ id hkey => ?_⟩
    cases hkey.symm.trans ((hs.inOrder h).derived hready.live hrow).1
  | reloaded _ hrow' | vanished _ hrow' => cases hrow.symm.trans hrow'
  | deleted hdeleted => exact .pure ⟨rfl, fun _ _ => hgone hdeleted⟩
  | failed fault =>
    refine .fail ⟨rfl, fun existed hok => ?_⟩
    cases hok

section
variable {t₁ : Table} (hmarked : t.updateHandle h (fun s => { s with deleting := true }) = t₁)

include hmarked

omit hq in
/-- With its handle marked, a stored symbol is on the line, and one level of the depth is used up.
The mark is what puts it on the line: from now on a deletion of it is going on. The depth that is
left is enough for the rows off the line, of which there is one less. -/
theorem Deletable.mark (hd : Deletable t h line (depth + 1)) {r : Row}
    (hrow : (t.handle h).row = some r) :
    t₁.Deleting (r.id :: line) ∧ t₁.Line r.id line ∧
      t₁.rows.length ≤ depth + (r.id :: line).length := by
  have hstep : Step Table.pruning t t₁ := hmarked ▸ .mark (.inl rfl) h true
  have hrows : t₁.rows = t.rows := hmarked ▸ rfl
  have hkey : (t.handle h).key = .stored r.id := (hd.deleting.sound.inOrder h).key r hrow
  have hline := hd.onLine r.id r hkey ((hd.deleting.exact.mirrors h).row r hrow)
  refine ⟨⟨hstep.sound hd.deleting.sound, ?_, ?_, fun k hk => ?_⟩, ?_, ?_⟩
  · exact hstep.exact nofun nofun hd.deleting.sound nofun hd.deleting.exact
  · exact hd.deleting.forest.of_rows_eq hstep.sameFrame.rules hrows
  · have hkeys : (t₁.handle k).key = (t.handle k).key := by
      rw [← hmarked]
      exact Table.map_updateHandle Handle.key rfl
    rw [hkeys]
    rcases eq_or_ne k h with rfl | hne
    · exact ⟨r.id, .head _, hkey⟩
    · rw [← hmarked, Table.handle_updateHandle_ne t hne] at hk
      obtain ⟨id, hid, hkey'⟩ := hd.deleting.busy k hk
      exact ⟨id, .tail _ hid, hkey'⟩
  · exact hline.transfer fun i _ x hx => (Table.row?_congr hrows i).trans hx
  · have hle := hd.le_depth
    rw [hrows, List.length_cons]
    omega

/-- A symbol that may be deleted is deleted once its handle is marked, whether it has a row or not.
The table is named by an equation since the mark is set before the deletion is looked at. -/
theorem ends_deleteMarked_of_deletable (hdelete : Deletes delete depth)
    (hd : Deletable t h line (depth + 1)) :
    Ends t₁ (deleteMarked notify delete h) fun answer t₂ =>
      t₁.Pruned line t₂ ∧ ∀ existed, answer = .ok existed →
        ∀ id, (t.handle h).key = .stored id → t₂.row? id = none := by
  have hrow₁ : (t₁.handle h).row = (t.handle h).row := by
    rw [← hmarked]
    exact Table.map_updateHandle Handle.row rfl
  have hkey₁ : (t₁.handle h).key = (t.handle h).key := by
    rw [← hmarked]
    exact Table.map_updateHandle Handle.key rfl
  cases hrow : (t.handle h).row with
  | none =>
    have hstep : Step Table.pruning t t₁ := hmarked ▸ .mark (.inl rfl) h true
    have hs₁ := hstep.sound hd.deleting.sound
    have he₁ := hstep.exact nofun nofun hd.deleting.sound nofun hd.deleting.exact
    refine (ends_deleteMarked_of_rowless hs₁ he₁ (hrow₁.trans hrow)).imp fun answer t₂ h₂ => ?_
    obtain ⟨rfl, hgone⟩ := h₂
    exact ⟨.refl (hd.deleting.forest.of_rows_eq hstep.sameFrame.rules (hmarked ▸ rfl)),
      fun existed hok id hkey => hgone existed hok id (hkey₁.trans hkey)⟩
  | some r =>
    have hkey : (t.handle h).key = .stored r.id := (hd.deleting.sound.inOrder h).key r hrow
    obtain ⟨hd₁, hline₁, hdepth₁⟩ := hd.mark hmarked hrow
    refine (ends_deleteMarked hq hdelete hd₁ hline₁ hdepth₁ (hrow₁.trans hrow)).imp
      fun answer t₂ h₂ => ⟨h₂.1, fun existed hok id hkey' => ?_⟩
    obtain rfl : r.id = id := Key.stored.inj (hkey.symm.trans hkey')
    exact h₂.2 existed hok

end

/-- At every depth, the deletion deletes what may be deleted. The induction is on the depth. At zero
there would have to be a row off the line, but the line has as many symbols as there are rows. -/
theorem deletes_deleteWithin (depth : Nat) : Deletes (deleteWithin notify depth) depth := by
  induction depth with
  | zero =>
    intro t h line hd
    refine .pure ⟨.refl hd.deleting.forest, fun _ _ id hkey => ?_⟩
    cases hrow : t.row? id with
    | none => rfl
    | some r =>
      -- there is no row left that is not on the line
      have hlt := (hd.onLine id r hkey hrow).length_lt hd.deleting.forest
      have hle := hd.le_depth
      omega
  | succ depth ih =>
    intro t h line hd
    unfold deleteWithin
    refine (Reads.ask _).ends_bind (fun _ => ?_) fun fault => ?_
    · refine .look_bind ?_
      rw [hd.idle, if_neg Bool.false_ne_true]
      exact .change_bind (.attempt_bind (ends_deleteMarked_of_deletable hq rfl ih hd)
        fun answer t₂ h₂ => .change_bind (.conclude ⟨h₂.1.unmark, h₂.2⟩))
    · refine ⟨.refl hd.deleting.forest, fun existed hok => ?_⟩
      cases hok

end

end

/-- Where no symbol is being deleted, every one may be. The line is empty then, and the depth with
which a deletion starts is greater than the number of rows. -/
theorem Deletable.of_idle (ht : t.Sound) (he : t.Exact) (hf : t.Forest)
    (hidle : ∀ k, (t.handle k).deleting = false) (h : HandleId) :
    Deletable t h [] t.deletionDepth := by
  refine ⟨⟨ht, he, hf, fun k hk => ?_⟩, hidle h, fun id r _ hrow => .outermost hrow, ?_⟩
  · rw [hidle] at hk
    cases hk
  · have hsize : t.store.rowCount = t.rows.length := ht.backend.size_eq
    show t.rows.length ≤ t.handles.length + t.store.rowCount + 1 + 0
    omega

/-- Whatever fails, a deletion leaves a forest, and ends no deletion but its own. Unless it is
refused, the row of the symbol is gone. -/
theorem ends_delete (hq : Quiet notify) (ht : t.Sound) (he : t.Exact) (hf : t.Forest)
    (hidle : ∀ k, (t.handle k).deleting = false) (h : HandleId) :
    Ends t (delete notify h) (Deleted t h []) :=
  .look_bind (deletes_deleteWithin hq _ t h [] (.of_idle ht he hf hidle h))

end Action

end SymbolTable
